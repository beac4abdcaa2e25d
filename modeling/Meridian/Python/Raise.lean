import Mathlib.Data.List.Forall2

/-!
# Code that raises

A computation that may raise is an `Except`. These lemmas take one that returned apart; `returns`
and `exists_ok` read a result off by evaluation. `Raises` says of one that it does not return, and
`raises_bind` and `raises_mapM` where in a sequence or a loop that is decided.
-/

namespace Meridian.Python

variable {ε α β : Type} {x : Except ε α}

theorem of_bind_ok {k : α → Except ε β} {b : β} (h : x >>= k = .ok b) :
    ∃ a, x = .ok a ∧ k a = .ok b := by
  cases x with
  | error e => cases h
  | ok a => exact ⟨a, rfl, h⟩

theorem bind_of_ok {a : α} {k : α → Except ε β} (h : x = .ok a) : x >>= k = k a := by
  rw [h]
  rfl

theorem of_map_ok {f : α → β} {b : β} (h : x.map f = .ok b) : ∃ a, x = .ok a ∧ f a = b := by
  cases x with
  | error e => cases h
  | ok a => exact ⟨a, rfl, Except.ok.inj h⟩

theorem map_of_ok {a : α} {f : α → β} (h : x = .ok a) : x.map f = .ok (f a) := by
  rw [h]
  rfl

/-- The computation returns a value with `p`. -/
def returns (x : Except ε α) (p : α → Prop) [DecidablePred p] : Bool :=
  match x with
  | .ok a => p a
  | .error _ => false

/-- A computation's result, by evaluation. -/
theorem exists_ok {p : α → Prop} [DecidablePred p] (h : returns x p = true) :
    ∃ a, x = .ok a ∧ p a := by
  cases x with
  | ok a => exact ⟨a, rfl, of_decide_eq_true h⟩
  | error e => cases h

/-- A loop that returned did so on every element. -/
theorem of_mapM_ok {f : α → Except ε β} {l : List α} {l' : List β} (h : l.mapM f = .ok l') :
    List.Forall₂ (fun a b => f a = .ok b) l l' := by
  induction l generalizing l' with
  | nil =>
    cases h
    exact .nil
  | cons a l ih =>
    rw [List.mapM_cons] at h
    obtain ⟨b, hb, h⟩ := of_bind_ok h
    obtain ⟨bs, hbs, h⟩ := of_bind_ok h
    cases h
    exact .cons hb (ih hbs)

/-- What a loop returned came from one of its elements. -/
theorem exists_of_mapM_ok {f : α → Except ε β} {l : List α} {l' : List β} (h : l.mapM f = .ok l')
    {b : β} (hb : b ∈ l') : ∃ a ∈ l, f a = .ok b := by
  obtain ⟨i, hi, rfl⟩ := List.getElem_of_mem hb
  have hall := List.forall₂_iff_get.mp (of_mapM_ok h)
  have hi' : i < l.length := hall.1 ▸ hi
  exact ⟨l[i], List.getElem_mem hi', by simpa using hall.2 i hi' hi⟩

theorem of_bind_error {k : α → Except ε β} {e : ε} (h : x >>= k = .error e) :
    x = .error e ∨ ∃ a, x = .ok a ∧ k a = .error e := by
  cases x with
  | error e' =>
    cases h
    exact .inl rfl
  | ok a => exact .inr ⟨a, rfl, h⟩

/-- A loop raises what one of its elements does. -/
theorem of_mapM_error {f : α → Except ε β} {l : List α} {e : ε} (h : l.mapM f = .error e) :
    ∃ a ∈ l, f a = .error e := by
  induction l with
  | nil =>
    rw [List.mapM_nil] at h
    cases h
  | cons a l ih =>
    rw [List.mapM_cons] at h
    rcases of_bind_error h with ha | ⟨b, -, h⟩
    · exact ⟨a, List.mem_cons_self, ha⟩
    · rcases of_bind_error h with hl | ⟨bs, -, h⟩
      · obtain ⟨c, hc, he⟩ := ih hl
        exact ⟨c, List.mem_cons_of_mem _ hc, he⟩
      · cases h

/-! ## Raising -/

def Raises (x : Except ε α) : Prop := ∃ e, x = .error e

@[simp] theorem not_raises_ok (a : α) : ¬Raises (.ok a : Except ε α) :=
  fun ⟨_, h⟩ => nomatch h

@[simp] theorem not_raises_pure (a : α) : ¬Raises (pure a : Except ε α) := not_raises_ok a

@[simp] theorem raises_error (e : ε) : Raises (.error e : Except ε α) := ⟨e, rfl⟩

/-- What does not raise returns. -/
theorem not_raises_iff : ¬Raises x ↔ ∃ a, x = .ok a := by
  cases x with
  | ok a => simp
  | error e => simp

/-- A sequence raises in its first part, or in what follows on what that returned. -/
theorem raises_bind {k : α → Except ε β} :
    Raises (x >>= k) ↔ Raises x ∨ ∃ a, x = .ok a ∧ Raises (k a) := by
  cases x with
  | ok a =>
    rw [bind_of_ok rfl]
    simp
  | error e => exact ⟨fun _ => .inl ⟨e, rfl⟩, fun _ => ⟨e, rfl⟩⟩

/-- A loop raises where one of its elements does. -/
theorem raises_mapM {f : α → Except ε β} {l : List α} :
    Raises (l.mapM f) ↔ ∃ a ∈ l, Raises (f a) := by
  induction l with
  | nil =>
    rw [List.mapM_nil]
    exact ⟨fun ⟨_, h⟩ => (nomatch h), fun ⟨_, h, _⟩ => (nomatch h)⟩
  | cons a l ih =>
    rw [List.mapM_cons, raises_bind, List.exists_mem_cons_iff, ← ih]
    refine or_congr_right' fun ha => ?_
    obtain ⟨b, hb⟩ := not_raises_iff.mp ha
    constructor
    · rintro ⟨_, _, h⟩
      refine (raises_bind.mp h).resolve_right ?_
      rintro ⟨_, _, _, h⟩
      exact nomatch h
    · exact fun h => ⟨b, hb, raises_bind.mpr (.inl h)⟩

end Meridian.Python
