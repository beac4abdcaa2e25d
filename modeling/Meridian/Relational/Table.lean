import Mathlib.Data.List.Pairwise

/-!
# Tables under unique constraints

`Table α clash` is a set of rows in which no two rows clash: `clash` is a unique index (or several),
and a partial index is one whose predicate is part of `clash`. `Serial α pk clash` is a table whose
primary key is drawn from a sequence: every row's key is below `next`, so the next row's key is
new. A value of either type carries its constraints, and the only ways to make one are the ways SQL
has: insert a row no other row clashes with, or update rows by a function that makes no clash.

* `Table.insert?` is `INSERT … ON CONFLICT DO NOTHING`; `Serial.insertNext` is the same on a table
  with a sequence, which a conflicting insert advances all the same.
* `Table.update` / `Serial.update` map every row; the statement's `WHERE` is part of the function.
  `Serial.delete` drops the rows a `WHERE` picks.
* `Table.eq_of_clash`, `Serial.eq_of_pk`: two rows of one table that clash, or share the primary
  key, are one row.
* `firstBy` is `ORDER BY … LIMIT 1`.
-/

namespace Meridian.Relational

variable {α : Type} {clash : α → α → Bool} {pk : α → Int}

/-- Rows of which no two clash. -/
@[ext]
structure Table (α : Type) (clash : α → α → Bool) where
  rows : List α
  unique : rows.Pairwise fun r r' => clash r r' = false

/-- Rows of which no two clash, with a primary key drawn from a sequence. -/
@[ext]
structure Serial (α : Type) (pk : α → Int) (clash : α → α → Bool) extends Table α clash where
  next : Int
  below : ∀ r ∈ rows, pk r < next
  distinct : rows.Pairwise fun r r' => pk r ≠ pk r'

namespace Table

def empty : Table α clash := ⟨[], .nil⟩

/-- Some row clashes with `r`. -/
def conflicts (t : Table α clash) (r : α) : Bool := t.rows.any (clash r)

/-- `INSERT … ON CONFLICT DO NOTHING`: `none` when a row clashes. -/
def insert? (t : Table α clash) (r : α) : Option (Table α clash) :=
  if h : t.conflicts r = true then none
  else some ⟨r :: t.rows, List.pairwise_cons.mpr ⟨fun r' hr' => by
    simpa using fun hc => h (List.any_eq_true.mpr ⟨r', hr', hc⟩), t.unique⟩⟩

/-- `UPDATE`: every row becomes `g` of it. -/
def update (t : Table α clash) (g : α → α)
    (hg : ∀ r r', clash (g r) (g r') = true → clash r r' = true) : Table α clash :=
  ⟨t.rows.map g, List.pairwise_map.mpr (t.unique.imp fun {r r'} h => by
    cases hc : clash (g r) (g r') with
    | false => rfl
    | true => rw [hg r r' hc] at h; exact h)⟩

@[simp] theorem update_rows (t : Table α clash) (g : α → α)
    (hg : ∀ r r', clash (g r) (g r') = true → clash r r' = true) :
    (t.update g hg).rows = t.rows.map g := rfl

/-- What an insert does: nothing, past a clashing row, or add the row. -/
theorem insert?_cases (t : Table α clash) (r : α) :
    (t.insert? r = none ∧ ∃ r' ∈ t.rows, clash r r' = true) ∨
    (∃ t', t.insert? r = some t' ∧ t'.rows = r :: t.rows ∧ ∀ r' ∈ t.rows, clash r r' = false) := by
  unfold insert?
  split
  · rename_i h
    exact .inl ⟨rfl, List.any_eq_true.mp h⟩
  · rename_i h
    refine .inr ⟨_, rfl, rfl, fun r' hr' => ?_⟩
    simpa using fun hc => h (List.any_eq_true.mpr ⟨r', hr', hc⟩)

/-- Two rows that clash are one row. -/
theorem eq_of_clash (t : Table α clash) (hsymm : ∀ r r', clash r r' = clash r' r) {r r' : α}
    (hr : r ∈ t.rows) (hr' : r' ∈ t.rows) (hc : clash r r' = true) : r = r' := by
  by_contra hne
  have : Std.Symm fun r r' : α => clash r r' = false := ⟨fun a b h => by rw [hsymm]; exact h⟩
  have hfalse := t.unique.forall hr hr' hne
  rw [hc] at hfalse
  cases hfalse

/-- The rows a condition picks are one, if it is one that makes rows clash. -/
theorem filter_eq_singleton (t : Table α clash) (hsymm : ∀ r r', clash r r' = clash r' r)
    {p : α → Bool} {r : α} (hr : r ∈ t.rows) (hp : p r = true)
    (h : ∀ r' ∈ t.rows, p r' = true → clash r r' = true) : t.rows.filter p = [r] := by
  have hmem : r ∈ t.rows.filter p := List.mem_filter.mpr ⟨hr, hp⟩
  have hall : ∀ r' ∈ t.rows.filter p, r' = r := by
    intro r' hr'
    obtain ⟨hr', hp'⟩ := List.mem_filter.mp hr'
    exact (t.eq_of_clash hsymm hr hr' (h r' hr' hp')).symm
  have hpair := t.unique.filter p
  cases hrows : t.rows.filter p with
  | nil =>
    rw [hrows] at hmem
    exact absurd hmem List.not_mem_nil
  | cons a l =>
    rw [hrows] at hall hpair
    rw [hall a List.mem_cons_self] at hpair ⊢
    cases l with
    | nil => rfl
    | cons b l =>
      have hb := hall b (List.mem_cons_of_mem _ List.mem_cons_self)
      have hne := (List.pairwise_cons.mp hpair).1 b List.mem_cons_self
      rw [hb, h r hr hp] at hne
      exact Bool.noConfusion hne

end Table

namespace Serial

def empty (n : Int) : Serial α pk clash := ⟨.empty, n, by simp [Table.empty], .nil⟩

/-- The sequence moves on without a row. -/
def skip (t : Serial α pk clash) : Serial α pk clash :=
  { t with next := t.next + 1, below := fun r hr => by have := t.below r hr; omega }

/-- `INSERT … ON CONFLICT DO NOTHING RETURNING` with the primary key drawn from the sequence. -/
def insertNext (t : Serial α pk clash) (mk : Int → α) (hmk : ∀ n, pk (mk n) = n) :
    Option α × Serial α pk clash :=
  if h : t.conflicts (mk t.next) = true then (none, t.skip)
  else (some (mk t.next),
    { rows := mk t.next :: t.rows
      unique := List.pairwise_cons.mpr ⟨fun r' hr' => by
        simpa using fun hc => h (List.any_eq_true.mpr ⟨r', hr', hc⟩), t.unique⟩
      next := t.next + 1
      below := fun r hr => by
        rcases List.mem_cons.mp hr with rfl | hr
        · rw [hmk]; omega
        · have := t.below r hr; omega
      distinct := List.pairwise_cons.mpr ⟨fun r' hr' => by
        have := t.below r' hr'; rw [hmk]; omega, t.distinct⟩ })

/-- `UPDATE`: every row becomes `g` of it; the primary key stays. -/
def update (t : Serial α pk clash) (g : α → α) (hpk : ∀ r, pk (g r) = pk r)
    (hg : ∀ r r', clash (g r) (g r') = true → clash r r' = true) : Serial α pk clash :=
  { t.toTable.update g hg with
    next := t.next
    below := fun r hr => by
      obtain ⟨r', hr', rfl⟩ := List.mem_map.mp (show r ∈ t.rows.map g from hr)
      rw [hpk]
      exact t.below r' hr'
    distinct := List.pairwise_map.mpr (t.distinct.imp fun {r r'} h => by rwa [hpk, hpk]) }

/-- `DELETE`: the rows `p` picks go, and the sequence stays. -/
def delete (t : Serial α pk clash) (p : α → Bool) : Serial α pk clash where
  rows := t.rows.filter fun r => !p r
  unique := t.unique.filter _
  next := t.next
  below := fun r hr => t.below r (List.mem_filter.mp hr).1
  distinct := t.distinct.filter _

@[simp] theorem delete_rows (t : Serial α pk clash) (p : α → Bool) :
    (t.delete p).rows = t.rows.filter fun r => !p r := rfl

@[simp] theorem delete_next (t : Serial α pk clash) (p : α → Bool) :
    (t.delete p).next = t.next := rfl

@[simp] theorem skip_rows (t : Serial α pk clash) : t.skip.rows = t.rows := rfl

@[simp] theorem skip_next (t : Serial α pk clash) : t.skip.next = t.next + 1 := rfl

@[simp] theorem update_rows (t : Serial α pk clash) (g : α → α) (hpk : ∀ r, pk (g r) = pk r)
    (hg : ∀ r r', clash (g r) (g r') = true → clash r r' = true) :
    (t.update g hpk hg).rows = t.rows.map g := rfl

@[simp] theorem update_next (t : Serial α pk clash) (g : α → α) (hpk : ∀ r, pk (g r) = pk r)
    (hg : ∀ r r', clash (g r) (g r') = true → clash r r' = true) :
    (t.update g hpk hg).next = t.next := rfl

/-- What an insert does: advance the sequence past a clashing row, or add the row. -/
theorem insertNext_cases (t : Serial α pk clash) (mk : Int → α) (hmk : ∀ n, pk (mk n) = n) :
    (t.insertNext mk hmk = (none, t.skip) ∧ ∃ r' ∈ t.rows, clash (mk t.next) r' = true) ∨
    (∃ t', t.insertNext mk hmk = (some (mk t.next), t') ∧ t'.rows = mk t.next :: t.rows ∧
      t'.next = t.next + 1 ∧ ∀ r' ∈ t.rows, clash (mk t.next) r' = false) := by
  unfold insertNext
  split
  · rename_i h
    exact .inl ⟨rfl, List.any_eq_true.mp h⟩
  · rename_i h
    refine .inr ⟨_, rfl, rfl, rfl, fun r' hr' => ?_⟩
    simpa using fun hc => h (List.any_eq_true.mpr ⟨r', hr', hc⟩)

/-- Two rows with one primary key are one row. -/
theorem eq_of_pk (t : Serial α pk clash) {r r' : α} (hr : r ∈ t.rows) (hr' : r' ∈ t.rows)
    (h : pk r = pk r') : r = r' := by
  by_contra hne
  have : Std.Symm fun r r' : α => pk r ≠ pk r' := ⟨fun a b h => h.symm⟩
  exact t.distinct.forall hr hr' hne h

/-- A row is what its primary key finds. -/
theorem find_pk (t : Serial α pk clash) {r : α} (hr : r ∈ t.rows) :
    t.rows.find? (fun r' => decide (pk r' = pk r)) = some r := by
  cases hf : t.rows.find? fun r' => decide (pk r' = pk r) with
  | none =>
    have := List.find?_eq_none.mp hf r hr
    simp at this
  | some r' =>
    have hpk : pk r' = pk r := by simpa using List.find?_some hf
    rw [t.eq_of_pk (List.mem_of_find?_eq_some hf) hr hpk]

end Serial

/-! ## The first row in an order -/

section First

variable {before : α → α → Bool}

/-- `ORDER BY … LIMIT 1`: the row that comes before the others. -/
def firstBy (before : α → α → Bool) : List α → Option α
  | [] => none
  | a :: l =>
    match firstBy before l with
    | none => some a
    | some b => if before b a then some b else some a

theorem firstBy_cons (a : α) (l : List α) :
    firstBy before (a :: l) =
      (firstBy before l).elim (some a) fun b => if before b a then some b else some a := by
  rw [firstBy]
  cases firstBy before l <;> rfl

theorem firstBy_mem {l : List α} {a : α} (h : firstBy before l = some a) : a ∈ l := by
  induction l generalizing a with
  | nil => cases h
  | cons b l ih =>
    unfold firstBy at h
    split at h
    · cases h
      exact List.mem_cons_self
    · rename_i c hc
      split at h <;> cases h
      · exact List.mem_cons_of_mem _ (ih hc)
      · exact List.mem_cons_self

theorem firstBy_eq_none {l : List α} : firstBy before l = none ↔ l = [] := by
  cases l with
  | nil => exact ⟨fun _ => rfl, fun _ => rfl⟩
  | cons a l =>
    refine ⟨fun h => ?_, nofun⟩
    unfold firstBy at h
    split at h
    · cases h
    · split at h <;> cases h

/-- Nothing comes before the first row, in a strict weak order. -/
theorem not_before_firstBy (hirr : ∀ a, before a a = false)
    (hasymm : ∀ a b, before a b = true → before b a = false)
    (htrans : ∀ a b c, before b a = false → before c b = false → before c a = false)
    {l : List α} {a : α} (h : firstBy before l = some a) : ∀ b ∈ l, before b a = false := by
  induction l generalizing a with
  | nil => cases h
  | cons c l ih =>
    intro b hb
    unfold firstBy at h
    split at h
    · rename_i hnone
      cases h
      rw [firstBy_eq_none.mp hnone, List.mem_singleton] at hb
      exact hb ▸ hirr c
    · rename_i d hd
      by_cases hdc : before d c = true
      · rw [if_pos hdc] at h
        cases h
        rcases List.mem_cons.mp hb with rfl | hb
        · exact hasymm _ _ hdc
        · exact ih hd b hb
      · rw [if_neg hdc] at h
        cases h
        rcases List.mem_cons.mp hb with rfl | hb
        · exact hirr _
        · exact htrans _ _ _ (by simpa using hdc) (ih hd b hb)

end First

end Meridian.Relational
