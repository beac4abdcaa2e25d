import Mathlib.Logic.Function.Basic

/-!
# Programs that issue statements

A `Machine` is a shared world with a set of statements. A statement is executed in one step: it
answers and moves the world, or it is not enabled yet (`none`, a blocked wait). `Env` collects the
moves of the world no program makes (the clock, the network).

A `Prog M α` is the straight-line view one caller has of its own run: it issues a statement, gets
the answer, and goes on depending on it, until it returns. Nothing is said here about what other
callers do between two statements; `Run.lean` interleaves programs.

* `Log` is what one program has issued so far, newest first, each statement with its answer.
* `Obeys φ Q l p`: continuing `p` after the log `l`, every statement it issues satisfies `φ`
  against the log before it, and every value it returns satisfies `Q` against the log at the end.
  The answers are arbitrary, so an `Obeys` fact holds under any interference.
* `obeys_bind` composes them along `>>=`, `Obeys.mono` weakens both sides.
* `alone` runs a program that nobody interferes with.
-/

namespace Meridian.Interleave

/-- A shared world, its statements and their answers, and the moves no program makes. -/
structure Machine where
  World : Type
  Stmt : Type
  /-- The type of a statement's answer. -/
  Res : Stmt → Type
  Env : Type
  /-- Execute a statement in one step; `none` while it is blocked. -/
  exec : (s : Stmt) → World → Option (Res s × World)
  env : Env → World → World

/-- A program: return a value, or issue a statement and continue with its answer. -/
inductive Prog (M : Machine) (α : Type) : Type
  | ret (a : α)
  | stmt (s : M.Stmt) (k : M.Res s → Prog M α)

variable {M : Machine} {α β : Type}

namespace Prog

def bind : Prog M α → (α → Prog M β) → Prog M β
  | ret a, f => f a
  | stmt s k, f => stmt s fun r => bind (k r) f

instance : Monad (Prog M) where
  pure := ret
  bind := bind

/-- Issue one statement and return its answer. -/
def issue (s : M.Stmt) : Prog M (M.Res s) := stmt s ret

/-- The value a program has returned. -/
def result : Prog M α → Option α
  | ret a => some a
  | stmt _ _ => none

/-- The program run by itself: what it returns and the world it leaves, `none` when it waits. -/
def alone : Prog M α → M.World → Option (α × M.World)
  | ret a, w => some (a, w)
  | stmt s k, w => (M.exec s w).bind fun x => alone (k x.1) x.2

theorem eq_ret_of_result {p : Prog M α} {a : α} (h : p.result = some a) : p = ret a := by
  cases p with
  | ret b => exact congrArg ret (Option.some.inj h)
  | stmt s k => cases h

@[simp] theorem pure_eq (a : α) : (pure a : Prog M α) = ret a := rfl

@[simp] theorem ret_bind (a : α) (f : α → Prog M β) : (ret a : Prog M α) >>= f = f a := rfl

@[simp] theorem stmt_bind (s : M.Stmt) (k : M.Res s → Prog M α) (f : α → Prog M β) :
    stmt s k >>= f = stmt s fun r => k r >>= f := rfl

/-- Sequencing runs the second program in the world the first one leaves. -/
theorem alone_bind (p : Prog M α) (f : α → Prog M β) (w : M.World) :
    (p >>= f).alone w = (p.alone w).bind fun x => (f x.1).alone x.2 := by
  induction p generalizing w with
  | ret a => rfl
  | stmt s k ih =>
    show (M.exec s w).bind (fun x => (k x.1 >>= f).alone x.2) =
      ((M.exec s w).bind fun x => (k x.1).alone x.2).bind fun x => (f x.1).alone x.2
    cases M.exec s w with
    | none => rfl
    | some x => exact ih x.1 x.2

theorem alone_stmt {s : M.Stmt} {r : M.Res s} {w w' : M.World} (h : M.exec s w = some (r, w'))
    (k : M.Res s → Prog M α) : (stmt s k).alone w = (k r).alone w' := by
  rw [alone, h]
  rfl

@[simp] theorem issue_bind (s : M.Stmt) (f : M.Res s → Prog M β) : issue s >>= f = stmt s f := rfl

end Prog

/-- What one program has issued so far, newest first: each statement with its answer. -/
abbrev Log (M : Machine) := List ((s : M.Stmt) × M.Res s)

/-- Continuing `p` after the log `l`, every statement satisfies `φ` against the log before it and
every returned value satisfies `Q` against the log at the end, whatever the answers are. -/
def Prog.Obeys (φ : Log M → M.Stmt → Prop) (Q : Log M → α → Prop) : Log M → Prog M α → Prop
  | l, ret a => Q l a
  | l, stmt s k => φ l s ∧ ∀ r, Obeys φ Q (⟨s, r⟩ :: l) (k r)

open Prog

section Rules

variable {φ φ' : Log M → M.Stmt → Prop} {Q Q' : Log M → α → Prop} {l : Log M}

@[simp] theorem obeys_ret (a : α) : Obeys φ Q l (ret a) ↔ Q l a := Iff.rfl

@[simp] theorem obeys_stmt (s : M.Stmt) (k : M.Res s → Prog M α) :
    Obeys φ Q l (stmt s k) ↔ φ l s ∧ ∀ r, Obeys φ Q (⟨s, r⟩ :: l) (k r) := Iff.rfl

/-- Sequencing: the second program starts from whatever log the first one ends with. -/
theorem obeys_bind {R : Log M → β → Prop} (p : Prog M α) (f : α → Prog M β) :
    Obeys φ R l (p >>= f) ↔ Obeys φ (fun l a => Obeys φ R l (f a)) l p := by
  induction p generalizing l with
  | ret a => exact Iff.rfl
  | stmt s k ih => simp only [stmt_bind, obeys_stmt, ih]

theorem Prog.Obeys.mono {p : Prog M α} (h : Obeys φ Q l p) (hφ : ∀ l s, φ l s → φ' l s)
    (hQ : ∀ l a, Q l a → Q' l a) : Obeys φ' Q' l p := by
  induction p generalizing l with
  | ret a => exact hQ l a h
  | stmt s k ih => exact ⟨hφ l s h.1, fun r => ih r (h.2 r)⟩

/-- Any program obeys the trivial condition. -/
theorem obeys_true (p : Prog M α) : Obeys (fun _ _ => True) (fun _ _ => True) l p := by
  induction p generalizing l with
  | ret a => trivial
  | stmt s k ih => exact ⟨trivial, fun r => ih r⟩

/-- What holds of every log from here on is obeyed. -/
theorem obeys_of_forall (hφ : ∀ l' s, l <:+ l' → φ l' s) (hQ : ∀ l' a, l <:+ l' → Q l' a)
    (p : Prog M α) : Obeys φ Q l p := by
  induction p generalizing l with
  | ret a => exact hQ l a List.suffix_rfl
  | stmt s k ih =>
    refine ⟨hφ l s List.suffix_rfl, fun r => ih r (fun l' s' h => ?_) fun l' a h => ?_⟩
    · exact hφ l' s' ((List.suffix_cons ..).trans h)
    · exact hQ l' a ((List.suffix_cons ..).trans h)

end Rules

end Meridian.Interleave
