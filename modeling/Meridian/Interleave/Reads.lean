import Meridian.Interleave.Run

/-!
# Machines with more reads

`M.withReads read` is a machine with further statements, which answer from the world and leave it as
it is. The programs of `M` are programs of it (`Prog.lift`), and what the statements of `M` keep, all
of its statements keep (`keeps_withReads`).
-/

namespace Meridian.Interleave

/-- A machine with the statements `R`, answered by `read`, added to it. -/
abbrev Machine.withReads (M : Machine) {R : Type} {A : R → Type} (read : (q : R) → M.World → A q) :
    Machine where
  World := M.World
  Stmt := M.Stmt ⊕ R
  Res := Sum.elim M.Res A
  Env := M.Env
  exec s w :=
    match s with
    | .inl s => M.exec s w
    | .inr q => some (read q w, w)
  env := M.env

variable {M : Machine} {R : Type} {A : R → Type} {read : (q : R) → M.World → A q} {α : Type}

/-- A program of the machine without the reads. -/
def Prog.lift : Prog M α → Prog (M.withReads read) α
  | .ret a => .ret a
  | .stmt s k => .stmt (.inl s) fun r => (k r).lift

/-- An executed read answers from the world and leaves it. -/
theorem exec_read {q : R} {r : A q} {w w' : M.World}
    (h : (M.withReads read).exec (.inr q) w = some (r, w')) : r = read q w ∧ w' = w := by
  cases h
  exact ⟨rfl, rfl⟩

/-- **What the statements of `M` keep**, all statements keep. -/
theorem keeps_withReads {I : M.World → Prop}
    (hexec : ∀ s w r w', I w → M.exec s w = some (r, w') → I w') :
    ∀ s w r w', I w → (M.withReads read).exec s w = some (r, w') → I w' := by
  intro s w r w' hw hx
  cases s with
  | inl s => exact hexec s w r w' hw hx
  | inr q =>
    obtain ⟨-, rfl⟩ := exec_read hx
    exact hw

end Meridian.Interleave
