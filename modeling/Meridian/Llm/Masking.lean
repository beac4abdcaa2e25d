import Meridian.Llm.Budget
import Meridian.Python.JsonRoundTrip

/-!
# The shape of a redacted document

`redact_json` changes the leaves and the keys of a document and nothing else (`SameShape`): keys that
become one text get suffixes until they differ (`freshKey_fresh`), and what stands under an identity
key is one mask, whatever it was (`Agree`).

What it writes is JSON unless a number beyond the range of a float is left in it: `json.loads` reads
one as an infinity, and `json.dumps` writes that as `Infinity`, which is no JSON (`keepsShape_iff`).
-/

namespace Meridian.Llm

open Python Json

variable {r : Runtime}

/-! ## Keys -/

theorem hasKey_iff {members : List (Text × Value)} {key : Text} :
    hasKey members key = true ↔ key ∈ members.map Prod.fst := by
  constructor
  · intro h
    by_contra hnot
    rw [hasKey, lookup_eq_none hnot] at h
    exact Bool.noConfusion h
  · intro h
    obtain ⟨m, hm, rfl⟩ := List.mem_map.mp h
    rw [hasKey, List.lookup_isSome_iff]
    exact ⟨m, hm, by simp⟩

theorem ofDigits_intText (n : ℕ) : ofDigits (takeDigits (Item.intText n)).1 = n := by
  by_cases h : n = 0
  · subst h
    rfl
  · have htext : Item.intText n = (Nat.digits 10 n).reverse.map digitChar := by
      simp [Item.intText, h]
    have hlt : ∀ d ∈ (Nat.digits 10 n).reverse, d < 10 := fun d hd =>
      Nat.digits_lt_base (by decide) (List.mem_reverse.mp hd)
    have htake := takeDigits_map_digitChar (t := []) hlt (by simp)
    rw [List.append_nil] at htake
    rw [htext, htake, F64.ofDigits_digits]

theorem intText_injective {m n : ℕ} (h : Item.intText m = Item.intText n) : m = n := by
  rw [← ofDigits_intText m, h, ofDigits_intText]

theorem suffixed_injective {key : Text} {m n : ℕ} (h : suffixed key m = suffixed key n) : m = n := by
  unfold suffixed at h
  rw [List.append_assoc, List.append_assoc, List.append_assoc, List.append_assoc] at h
  have h := List.append_cancel_left (List.append_cancel_left h)
  exact intText_injective (List.append_cancel_right h)

/-- **A key is made one that is not taken**: there are more suffixes to try than members. -/
theorem freshKey_fresh (out : List (Text × Value)) (key : Text) :
    freshKey out key ∉ out.map Prod.fst := by
  unfold freshKey
  split
  · obtain ⟨n, hn, hfree⟩ : ∃ n ∈ List.range' 2 (out.length + 1), hasKey out (suffixed key n) = false := by
      by_contra hall
      have hsubset : (List.range' 2 (out.length + 1)).map (suffixed key) ⊆ out.map Prod.fst := by
        intro k hk
        obtain ⟨n, hn, rfl⟩ := List.mem_map.mp hk
        refine hasKey_iff.mp (Bool.eq_true_of_not_eq_false fun hfree => hall ⟨n, hn, hfree⟩)
      have hnodup : ((List.range' 2 (out.length + 1)).map (suffixed key)).Nodup :=
        List.Nodup.map (fun _ _ h => suffixed_injective h) List.nodup_range'
      have hlen := (List.subperm_of_subset hnodup hsubset).length_le
      rw [List.length_map, List.length_map, List.length_range'] at hlen
      omega
    cases hfind : ((List.range' 2 (out.length + 1)).map (suffixed key)).find? fun k => !hasKey out k with
    | none =>
      have := List.find?_eq_none.mp hfind _ (List.mem_map_of_mem hn)
      simp [hfree] at this
    | some k =>
      have hk := List.find?_some hfind
      rw [Option.getD_some, ← hasKey_iff]
      simpa using hk
  · rename_i h
    rwa [← hasKey_iff]

/-! ## The shape -/

/-- A number or a text. -/
def IsLeaf : Value → Prop
  | .int _ | .float _ | .str _ => True
  | _ => False

/-- What a key may become: its redacted text, or that with a suffix. -/
def KeyOf (r : Runtime) (key out : Text) : Prop :=
  out = redactKey r key ∨ ∃ n, out = suffixed (redactKey r key) n

mutual

/-- The same tree, but for the keys, the leaves and what stands under identity keys. -/
def SameShape (r : Runtime) : Value → Value → Prop
  | .none, w => w = .none
  | .bool b, w => w = .bool b
  | .int _, w | .float _, w | .str _, w => IsLeaf w
  | .list items, w => ∃ items', w = .list items' ∧ SameItems r items items'
  | .dict members, w =>
    ∃ members', w = .dict members' ∧ (members'.map Prod.fst).Nodup ∧ SameMembers r members members'

def SameItems (r : Runtime) : List Value → List Value → Prop
  | [], items' => items' = []
  | v :: items, items' => ∃ w rest, items' = w :: rest ∧ SameShape r v w ∧ SameItems r items rest

def SameMembers (r : Runtime) : List (Text × Value) → List (Text × Value) → Prop
  | [], members' => members' = []
  | (k, v) :: members, members' =>
    ∃ k' w rest, members' = (k', w) :: rest ∧ KeyOf r k k' ∧
      (if isIdentityKey r k then w = .str identityMask else SameShape r v w) ∧
      SameMembers r members rest

end

theorem freshKey_keyOf (out : List (Text × Value)) (key : Text) :
    KeyOf r key (freshKey out (redactKey r key)) := by
  unfold freshKey
  split
  · cases hfind : ((List.range' 2 (out.length + 1)).map (suffixed (redactKey r key))).find?
        fun k => !hasKey out k with
    | none => exact .inl rfl
    | some k =>
      obtain ⟨n, -, rfl⟩ := List.mem_map.mp (List.mem_of_find?_eq_some hfind)
      exact .inr ⟨n, rfl⟩
  · exact .inl rfl

theorem redactShaped_cases (key : Text) (value plain : Value) :
    redactShaped r key value plain = plain ∨ ∃ t, redactShaped r key value plain = .str t := by
  unfold redactShaped
  dsimp only
  split
  · exact .inl rfl
  · split
    · exact .inr ⟨_, rfl⟩
    · exact .inr ⟨_, rfl⟩

/-- A leaf is kept, or becomes a text. -/
theorem redactScalar_cases (key : Text) (v : Value) :
    redactScalar r key v = v ∨ ∃ t, redactScalar r key v = .str t := by
  cases v with
  | str t =>
    unfold redactScalar
    dsimp only
    split_ifs with hcode hspace hempty
    · exact .inl rfl
    · exact .inr ⟨_, rfl⟩
    · exact redactShaped_cases _ _ _
    · exact .inr ((redactShaped_cases _ _ _).elim (fun h => ⟨_, h⟩) id)
  | int n =>
    unfold redactScalar
    dsimp only
    split_ifs
    · exact .inr ((redactShaped_cases _ _ _).elim (fun h => ⟨_, h⟩) id)
    · exact redactShaped_cases _ _ _
  | float x =>
    unfold redactScalar
    dsimp only
    split_ifs
    · exact .inr ((redactShaped_cases _ _ _).elim (fun h => ⟨_, h⟩) id)
    · exact redactShaped_cases _ _ _
  | _ => exact .inl rfl

theorem isLeaf_redactScalar (key : Text) {v : Value} (h : IsLeaf v) :
    IsLeaf (redactScalar r key v) := by
  rcases redactScalar_cases (r := r) key v with heq | ⟨t, heq⟩
  · rwa [heq]
  · rw [heq]
    trivial

mutual

/-- **Redaction keeps the shape.** -/
theorem redactNode_sameShape : ∀ (key : Text) (v : Value), SameShape r v (redactNode r key v)
  | _, .none => by rw [redactNode, SameShape]
  | _, .bool b => by rw [redactNode, SameShape]
  | key, .int n => isLeaf_redactScalar key (v := .int n) trivial
  | key, .float x => isLeaf_redactScalar key (v := .float x) trivial
  | key, .str t => isLeaf_redactScalar key (v := .str t) trivial
  | key, .list items => ⟨_, rfl, redactItems_sameItems key items⟩
  | _, .dict members => by
    obtain ⟨members', hout, hkeys, hsame⟩ := redactMembers_sameMembers [] members List.nodup_nil
    rw [List.nil_append] at hout hkeys
    exact ⟨members', by rw [redactNode, hout], hkeys, hsame⟩

theorem redactItems_sameItems : ∀ (key : Text) (items : List Value),
    SameItems r items (redactItems r key items)
  | _, [] => rfl
  | key, v :: items => ⟨_, _, rfl, redactNode_sameShape key v, redactItems_sameItems key items⟩

theorem redactMembers_sameMembers : ∀ (out members : List (Text × Value)),
    (out.map Prod.fst).Nodup → ∃ members', redactMembers r out members = out ++ members' ∧
      ((out ++ members').map Prod.fst).Nodup ∧ SameMembers r members members'
  | out, [], hout => ⟨[], (List.append_nil out).symm, by rwa [List.append_nil], rfl⟩
  | out, (k, v) :: members, hout => by
    have hfresh := freshKey_fresh out (redactKey r k)
    have hnodup : ((out ++ [(freshKey out (redactKey r k),
        if isIdentityKey r k then .str identityMask else redactNode r k v)]).map Prod.fst).Nodup := by
      rw [List.map_append, List.map_cons, List.map_nil]
      exact hout.append (List.nodup_singleton _) (List.disjoint_singleton.mpr hfresh)
    obtain ⟨rest, hrest, hkeys, hsame⟩ := redactMembers_sameMembers _ members hnodup
    rw [List.append_assoc, List.singleton_append] at hrest hkeys
    refine ⟨_, hrest, hkeys, _, _, _, rfl, freshKey_keyOf out k, ?_, hsame⟩
    split_ifs
    · rfl
    · exact redactNode_sameShape k v

end

/-! ## What stands under identity keys -/

mutual

/-- The same value, but for what stands under identity keys. -/
def Agree (r : Runtime) : Value → Value → Prop
  | .list items, w => ∃ items', w = .list items' ∧ AgreeItems r items items'
  | .dict members, w => ∃ members', w = .dict members' ∧ AgreeMembers r members members'
  | v, w => v = w

def AgreeItems (r : Runtime) : List Value → List Value → Prop
  | [], items' => items' = []
  | v :: items, items' => ∃ w rest, items' = w :: rest ∧ Agree r v w ∧ AgreeItems r items rest

def AgreeMembers (r : Runtime) : List (Text × Value) → List (Text × Value) → Prop
  | [], members' => members' = []
  | (k, v) :: members, members' =>
    ∃ w rest, members' = (k, w) :: rest ∧ (isIdentityKey r k = true ∨ Agree r v w) ∧
      AgreeMembers r members rest

end

mutual

/-- **Nothing of it is seen.** -/
theorem redactNode_agree : ∀ (key : Text) (v : Value) {w : Value}, Agree r v w →
    redactNode r key v = redactNode r key w
  | _, .none, _, rfl => rfl
  | _, .bool _, _, rfl => rfl
  | _, .int _, _, rfl => rfl
  | _, .float _, _, rfl => rfl
  | _, .str _, _, rfl => rfl
  | key, .list items, _, ⟨_, rfl, h⟩ => by
    rw [redactNode, redactNode, redactItems_agree key items h]
  | _, .dict members, _, ⟨_, rfl, h⟩ => by
    rw [redactNode, redactNode, redactMembers_agree [] members h]

theorem redactItems_agree : ∀ (key : Text) (items : List Value) {items' : List Value},
    AgreeItems r items items' → redactItems r key items = redactItems r key items'
  | _, [], _, rfl => rfl
  | key, v :: items, _, ⟨_, _, rfl, hv, hrest⟩ => by
    rw [redactItems, redactItems, redactNode_agree key v hv, redactItems_agree key items hrest]

theorem redactMembers_agree : ∀ (out members : List (Text × Value)) {members' : List (Text × Value)},
    AgreeMembers r members members' → redactMembers r out members = redactMembers r out members'
  | _, [], _, rfl => rfl
  | out, (k, v) :: members, _, ⟨w, _, rfl, hv, hrest⟩ => by
    have hvalue : (if isIdentityKey r k then .str identityMask else redactNode r k v) =
        if isIdentityKey r k then .str identityMask else redactNode r k w := by
      split_ifs with hkey
      · rfl
      · exact redactNode_agree k v (hv.resolve_left hkey)
    rw [redactMembers, redactMembers, hvalue]
    exact redactMembers_agree _ members hrest

end

/-! ## What is written -/

mutual

/-- No infinity or `NaN` is left in the value: each is under an identity key, or `_redact_scalar`
masks it. -/
def InRange (r : Runtime) (key : Text) : Value → Prop
  | .float x => x.isFinite = true ∨ ∃ t, redactScalar r key (.float x) = .str t
  | .list items => InRangeItems r key items
  | .dict members => InRangeMembers r members
  | _ => True

def InRangeItems (r : Runtime) (key : Text) : List Value → Prop
  | [] => True
  | v :: items => InRange r key v ∧ InRangeItems r key items

def InRangeMembers (r : Runtime) : List (Text × Value) → Prop
  | [] => True
  | (k, v) :: members =>
    (isIdentityKey r k = true ∨ InRange r k v) ∧ InRangeMembers r members

end

theorem isJson_redactScalar {key : Text} {v : Value} (h : v.isJson = true) :
    (redactScalar r key v).isJson = true := by
  rcases redactScalar_cases (r := r) key v with heq | ⟨t, heq⟩
  · rwa [heq]
  · rw [heq]
    rfl

theorem isJson_redactFloat (key : Text) (x : Double) :
    (redactScalar r key (.float x)).isJson = true ↔
      x.isFinite = true ∨ ∃ t, redactScalar r key (.float x) = .str t := by
  constructor
  · intro h
    rcases redactScalar_cases (r := r) key (.float x) with heq | ⟨t, heq⟩
    · rw [heq] at h
      exact .inl h
    · exact .inr ⟨t, heq⟩
  · rintro (h | ⟨t, ht⟩)
    · exact isJson_redactScalar h
    · rw [ht]
      rfl

theorem isJsonMembers_append (ms ns : List (Text × Value)) :
    Value.isJsonMembers (ms ++ ns) = (Value.isJsonMembers ms && Value.isJsonMembers ns) := by
  rw [Bool.eq_iff_iff, Bool.and_eq_true, isJsonMembers_iff, isJsonMembers_iff, isJsonMembers_iff]
  exact List.forall_mem_append

mutual

/-- A redacted value is JSON where nothing beyond the range is left in it. -/
theorem redactNode_isJson : ∀ (key : Text) (v : Value),
    (redactNode r key v).isJson = true ↔ InRange r key v
  | _, .none => ⟨fun _ => trivial, fun _ => rfl⟩
  | _, .bool _ => ⟨fun _ => trivial, fun _ => rfl⟩
  | key, .int n => by
    rw [redactNode]
    exact ⟨fun _ => trivial, fun _ => isJson_redactScalar rfl⟩
  | key, .str t => by
    rw [redactNode]
    exact ⟨fun _ => trivial, fun _ => isJson_redactScalar rfl⟩
  | key, .float x => isJson_redactFloat key x
  | key, .list items => redactItems_isJson key items
  | _, .dict members => by
    rw [redactNode, Value.isJson, InRange, redactMembers_isJson [] members]
    exact ⟨And.right, fun h => ⟨rfl, h⟩⟩

theorem redactItems_isJson : ∀ (key : Text) (items : List Value),
    Value.isJsonList (redactItems r key items) = true ↔ InRangeItems r key items
  | _, [] => ⟨fun _ => trivial, fun _ => rfl⟩
  | key, v :: items => by
    rw [redactItems, Value.isJsonList, Bool.and_eq_true, redactNode_isJson key v,
      redactItems_isJson key items, InRangeItems]

theorem redactMembers_isJson : ∀ (out members : List (Text × Value)),
    Value.isJsonMembers (redactMembers r out members) = true ↔
      Value.isJsonMembers out = true ∧ InRangeMembers r members
  | out, [] => ⟨fun h => ⟨h, trivial⟩, And.left⟩
  | out, (k, v) :: members => by
    have hvalue : (if isIdentityKey r k then .str identityMask else redactNode r k v).isJson = true ↔
        isIdentityKey r k = true ∨ InRange r k v := by
      split_ifs with hkey
      · exact ⟨fun _ => .inl hkey, fun _ => rfl⟩
      · rw [redactNode_isJson k v]
        exact ⟨.inr, fun h => h.resolve_left hkey⟩
    rw [redactMembers, redactMembers_isJson _ members, isJsonMembers_append, Bool.and_eq_true,
      Value.isJsonMembers, Bool.and_eq_true, hvalue, InRangeMembers]
    constructor
    · rintro ⟨⟨hout, hv, -⟩, hrest⟩
      exact ⟨hout, hv, hrest⟩
    · rintro ⟨hout, hv, hrest⟩
      exact ⟨⟨hout, hv, rfl⟩, hrest⟩

end

theorem writable_redactScalar (key : Text) {depth : ℕ} {v : Value} (h : Writable depth v) :
    Writable depth (redactScalar r key v) := by
  rcases redactScalar_cases (r := r) key v with heq | ⟨t, heq⟩
  · rwa [heq]
  · rw [heq]
    cases depth <;> trivial

theorem writable_str (depth : ℕ) (t : Text) : Writable depth (.str t) := by
  cases depth <;> trivial

mutual

/-- A redacted value can be written: it is no deeper, and its integers were there before. -/
theorem redactNode_writable : ∀ (key : Text) (v : Value) {depth : ℕ}, Writable depth v →
    Writable depth (redactNode r key v)
  | _, .none, _, h => by rwa [redactNode]
  | _, .bool _, _, h => by rwa [redactNode]
  | key, .int _, _, h => by
    rw [redactNode]
    exact writable_redactScalar key h
  | key, .float _, _, h => by
    rw [redactNode]
    exact writable_redactScalar key h
  | key, .str _, _, h => by
    rw [redactNode]
    exact writable_redactScalar key h
  | _, .list _, 0, h => h.elim
  | _, .dict _, 0, h => h.elim
  | key, .list items, _ + 1, h => by
    rw [redactNode]
    exact redactItems_writable key items h
  | _, .dict members, _ + 1, h => by
    obtain ⟨members', hout, hkeys, -⟩ :=
      redactMembers_sameMembers (r := r) [] members List.nodup_nil
    rw [redactNode]
    refine ⟨by rwa [hout], ?_⟩
    exact redactMembers_writable [] members trivial h.2

theorem redactItems_writable : ∀ (key : Text) (items : List Value) {depth : ℕ},
    WritableItems depth items → WritableItems depth (redactItems r key items)
  | _, [], _, _ => trivial
  | key, v :: items, _, h => ⟨redactNode_writable key v h.1, redactItems_writable key items h.2⟩

theorem redactMembers_writable : ∀ (out members : List (Text × Value)) {depth : ℕ},
    WritableMembers depth out → WritableMembers depth members →
      WritableMembers depth (redactMembers r out members)
  | _, [], _, hout, _ => hout
  | out, (k, v) :: members, depth, hout, h => by
    rw [redactMembers]
    refine redactMembers_writable _ members (writableMembers_iff.mpr ?_) h.2
    refine List.forall_mem_append.mpr ⟨writableMembers_iff.mp hout, ?_⟩
    refine List.forall_mem_singleton.mpr ?_
    dsimp only
    split_ifs
    · exact writable_str depth identityMask
    · exact redactNode_writable k v h.1

end

/-! ## The document -/

/-- **What redacting a document is to do**: the result is JSON of the same shape, and the same for
every document that differs from it under identity keys only. -/
def KeepsShape (r : Runtime) (t : Text) (members : List (Text × Value)) : Prop :=
  ∃ out w, redactJson r t = .ok out ∧ strictLoads r.depth out = .ok w ∧
    SameShape r (.dict members) w ∧
    ∀ t' v', loads r.depth t' = .ok v' → Agree r (.dict members) v' → redactJson r t' = .ok out

theorem redactJson_of_loads {t : Text} {v : Value} (h : loads r.depth t = .ok v) :
    redactJson r t = .ok (dumpsRaw (redactNode r [] v)) := by
  rw [redactJson, h]

/-- What is written is JSON only where nothing beyond the range is left. -/
theorem strictLoads_redacted {t : Text} {members : List (Text × Value)}
    (h : loads r.depth t = .ok (.dict members)) :
    strictLoads r.depth (dumpsRaw (redactNode r [] (.dict members))) =
      if (redactNode r [] (.dict members)).isJson then .ok (redactNode r [] (.dict members))
      else .error (.decode .expectingValue) := by
  have hread := @loadsWith_dumpsRaw false _ _
    (redactNode_writable (r := r) [] _ (loads_writable h))
  rwa [Bool.false_or] at hread

/-- **Redacting a document does that unless a number beyond the range of a float is left.** -/
theorem keepsShape_iff {t : Text} {members : List (Text × Value)}
    (h : loads r.depth t = .ok (.dict members)) :
    KeepsShape r t members ↔ InRangeMembers r members := by
  have hread := strictLoads_redacted h
  have hjson : (redactNode r [] (.dict members)).isJson = true ↔ InRangeMembers r members :=
    redactNode_isJson [] (.dict members)
  rw [← hjson]
  constructor
  · rintro ⟨out, w, hout, hw, -, -⟩
    rw [redactJson_of_loads h] at hout
    obtain rfl := Except.ok.inj hout
    by_contra hnot
    rw [hread, if_neg hnot] at hw
    exact nomatch hw
  · intro hok
    rw [if_pos hok] at hread
    refine ⟨_, _, redactJson_of_loads h, hread, redactNode_sameShape [] _, fun t' v' ht' hv' => ?_⟩
    rw [redactJson_of_loads ht', redactNode_agree [] _ hv']

/-- An application of a name and an amount. -/
def namedApplication : List (Text × Value) :=
  [("name".toList, .str "Jo Smith".toList), ("amount".toList, .int 12000)]

theorem keepsShape_named :
    KeepsShape asIs (dumpsRaw (.dict namedApplication)) namedApplication := by
  refine (keepsShape_iff (loads_dumpsRaw ?_)).mpr ⟨.inl ?_, .inr trivial, trivial⟩
  · have hint : Writable 99 (.int 12000) := by
      show (Nat.digits 10 12000).length ≤ maxStrDigits
      norm_num [maxStrDigits]
    exact ⟨by decide, trivial, hint, trivial⟩
  · decide

/-- `{"amount": 1e400}` -/
def hugeText : Text := '\x7b' :: (quoted escapeRaw "amount".toList ++ ": ".toList ++ "1e400".toList ++ ['\x7d'])

theorem huge_read : scanNumber ("1e400".toList ++ ['\x7d']) =
    .ok (.float (.infinite false), ['\x7d']) := by
  have hlarge : toFloat false (((ofDigits [1] : ℕ) : ℚ) * 10 ^ (400 : ℤ)) = .infinite false := by
    have hone : ofDigits [1] = 1 := rfl
    rw [hone, Nat.cast_one, one_mul, toFloat, if_neg (by positivity)]
    refine F64.ofRat_of_large ?_
    calc (2 : ℚ) ^ (1024 : ℤ) ≤ 2 ^ (3 * 400 : ℤ) := zpow_le_zpow_right₀ (by norm_num) (by norm_num)
      _ = (2 ^ (3 : ℤ)) ^ (400 : ℤ) := zpow_mul 2 3 400
      _ ≤ 10 ^ (400 : ℤ) := zpow_le_zpow_left₀ (by norm_num) (by norm_num) (by norm_num)
  rw [← hlarge]
  simp [scanNumber, minus, wholePart, fraction, exponent, exponentDigits, digitRun, takeSign,
    isAsciiDigit, signed]
  rfl

/-- **A valid document becomes one that is not**: `{"amount": Infinity}`. -/
theorem huge_infinity :
    strictLoads asIs.depth hugeText = .ok (.dict [("amount".toList, .float (.infinite false))]) ∧
      loads asIs.depth hugeText = .ok (.dict [("amount".toList, .float (.infinite false))]) ∧
      redactJson asIs hugeText = .ok "\x7b\"amount\": Infinity\x7d".toList ∧
      ¬KeepsShape asIs hugeText [("amount".toList, .float (.infinite false))] := by
  have hbegins : Begins "1e400".toList := ⟨'1', _, rfl, by decide⟩
  have hloads : loads asIs.depth hugeText =
      .ok (.dict [("amount".toList, .float (.infinite false))]) := by
    rw [loads_eq]
    exact loadsWith_number hbegins huge_read
  have hnode : redactNode asIs [] (.dict [("amount".toList, .float (.infinite false))]) =
      .dict [("amount".toList, .float (.infinite false))] := rfl
  have hout := redactJson_of_loads hloads
  rw [hnode] at hout
  refine ⟨loadsWith_number hbegins huge_read, hloads, hout, ?_⟩
  rintro ⟨out, w, hout', hw, -, -⟩
  obtain rfl := Except.ok.inj (hout.symm.trans hout')
  have hread := strictLoads_redacted hloads
  rw [hnode, hw, if_neg (by decide)] at hread
  exact nomatch hread

end Meridian.Llm
