import Meridian.Python.JsonPrefix

/-!
# A text that was cut off

* `scanOnce_deeper`: what is read within a recursion limit is read the same within a higher one.
* `scanOnce_cut`: where the end of an object's text is cut off, no object is read at its start.
-/

namespace Meridian.Python.Json

/-! ## A higher recursion limit -/

/-- What the first scanner reads, the second reads the same. -/
def Extends {α : Type} (scan more : Scan α) : Prop := ∀ t r, scan t = .ok r → more t = .ok r

variable {scan more : Scan Value}

theorem members_extends (hmore : Extends scan more) {fuel : ℕ} {read ms : List (Text × Value)}
    {t r : Text} (h : members scan fuel read t = .ok (ms, r)) :
    members more fuel read t = .ok (ms, r) := by
  induction fuel generalizing read t with
  | zero => exact nomatch h
  | succ fuel ih =>
    obtain ⟨t₁, key, t₂, t₃, v, t₄, ht, hkey, hcolon, hv, hnext⟩ := members_ok.mp h
    refine members_ok.mpr ⟨t₁, key, t₂, t₃, v, t₄, ht, hkey, hcolon, hmore _ _ hv, ?_⟩
    obtain hend | ⟨t₅, hcomma, hrest⟩ := hnext
    · exact .inl hend
    · exact .inr ⟨t₅, hcomma, ih hrest⟩

theorem elements_extends (hmore : Extends scan more) {fuel : ℕ} {vs : List Value} {t r : Text}
    (h : elements scan fuel t = .ok (vs, r)) : elements more fuel t = .ok (vs, r) := by
  induction fuel generalizing vs t with
  | zero => exact nomatch h
  | succ fuel ih =>
    obtain ⟨v, t₁, hv, hnext⟩ := elements_ok.mp h
    refine elements_ok.mpr ⟨v, t₁, hmore _ _ hv, ?_⟩
    obtain hend | ⟨t₂, rest, hcomma, hvs, hrest⟩ := hnext
    · exact .inl hend
    · exact .inr ⟨t₂, rest, hcomma, hvs, ih hrest⟩

theorem scanObject_extends (hmore : Extends scan more) :
    Extends (scanObject scan) (scanObject more) := by
  intro t r h
  unfold scanObject at h ⊢
  split at h
  · exact h
  · obtain ⟨ms, hms, hr⟩ := of_map_ok h
    rw [members_extends hmore hms]
    exact congrArg Except.ok hr

theorem scanArray_extends (hmore : Extends scan more) :
    Extends (scanArray scan) (scanArray more) := by
  intro t r h
  unfold scanArray at h ⊢
  split at h
  · exact h
  · obtain ⟨vs, hvs, hr⟩ := of_map_ok h
    rw [elements_extends hmore hvs]
    exact congrArg Except.ok hr

theorem scanAt_extends {nested deeper : Option (Scan Value)}
    (hdeeper : ∀ scan, nested = some scan → ∃ more, deeper = some more ∧ Extends scan more) :
    Extends (scanAt nested) (scanAt deeper) := by
  intro t r h
  cases t with
  | nil => exact nomatch h
  | cons c t =>
    simp only [scanAt] at h ⊢
    split_ifs at h ⊢ with hq ho ha
    · exact h
    · cases hn : nested with
      | none => simp [hn] at h
      | some scan =>
        obtain ⟨more, rfl, hmore⟩ := hdeeper scan hn
        rw [hn] at h
        exact scanObject_extends hmore _ _ h
    · cases hn : nested with
      | none => simp [hn] at h
      | some scan =>
        obtain ⟨more, rfl, hmore⟩ := hdeeper scan hn
        rw [hn] at h
        exact scanArray_extends hmore _ _ h
    · exact h

theorem scanOnce_succ : ∀ depth, Extends (scanOnce depth) (scanOnce (depth + 1))
  | 0 => scanAt_extends nofun
  | depth + 1 => scanAt_extends fun scan hscan => by
      cases hscan
      exact ⟨_, rfl, scanOnce_succ depth⟩

theorem scanOnce_deeper {depth deeper : ℕ} (hle : depth ≤ deeper) :
    Extends (scanOnce depth) (scanOnce deeper) := by
  induction hle with
  | refl => exact fun _ _ h => h
  | step _ ih => exact fun t r h => scanOnce_succ _ t r (ih t r h)

/-! ## The text of an object -/

/-- The text is that of one object, within some recursion limit. -/
def ObjectText (t : Text) : Prop := ∃ depth ms, scanOnce depth t = .ok (.dict ms, [])

/-- What is read from an opening brace is an object. -/
theorem scanOnce_brace {depth : ℕ} {t r : Text} {v : Value}
    (h : scanOnce depth ('{' :: t) = .ok (v, r)) : ∃ ms, v = .dict ms := by
  cases depth with
  | zero => exact nomatch h
  | succ depth =>
    change scanObject (scanOnce depth) t = .ok (v, r) at h
    unfold scanObject at h
    split at h
    · cases h
      exact ⟨[], rfl⟩
    · obtain ⟨ms, -, hms⟩ := of_map_ok h
      exact ⟨ms.1, (congrArg Prod.fst hms).symm⟩

theorem objectText_of_returns (depth : ℕ) {t : Text}
    (h : returns (scanOnce depth ('{' :: t)) (fun r => r.2 = []) = true) :
    ObjectText ('{' :: t) := by
  obtain ⟨⟨v, r⟩, hscan, rfl⟩ := exists_ok h
  obtain ⟨ms, rfl⟩ := scanOnce_brace hscan
  exact ⟨depth, ms, hscan⟩

/-- An object is read from an opening brace only. -/
theorem brace_of_scanOnce {depth : ℕ} {t r : Text} {ms : List (Text × Value)}
    (h : scanOnce depth t = .ok (.dict ms, r)) : ∃ u, t = '{' :: u := by
  cases depth with
  | zero =>
    obtain ⟨scan, u, -, rfl, -⟩ := scanAt_dict h
    exact ⟨u, rfl⟩
  | succ depth =>
    obtain ⟨scan, u, -, rfl, -⟩ := scanAt_dict h
    exact ⟨u, rfl⟩

/-- **No object is read where the end of one is missing**: reading does not look past a closing
brace, so what is read of the cut text would be read of the whole one, with something left. -/
theorem scanOnce_cut {t cut : Text} (ht : ObjectText t) (hcut : cut <+: t) (hne : cut ≠ t)
    (depth : ℕ) (ms : List (Text × Value)) (r : Text) : scanOnce depth cut ≠ .ok (.dict ms, r) := by
  intro h
  obtain ⟨limit, whole, hwhole⟩ := ht
  obtain ⟨rest, rfl⟩ := hcut
  have hcut := scanOnce_append (scanOnce_deeper (Nat.le_max_left depth limit) _ _ h) rest
  rw [scanOnce_deeper (Nat.le_max_right depth limit) _ _ hwhole] at hcut
  have hrest : r ++ rest = [] := (congrArg Prod.snd (Except.ok.inj hcut)).symm
  rw [(List.append_eq_nil_iff.mp hrest).2, List.append_nil] at hne
  exact hne rfl

end Meridian.Python.Json
