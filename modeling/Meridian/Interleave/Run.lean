import Mathlib.Algebra.BigOperators.Group.Finset.Piecewise
import Mathlib.Data.List.Infix
import Meridian.Interleave.Program

/-!
# Interleaved runs of any number of programs

`Config M ι α` is the shared world together with one program per caller, for an arbitrary type `ι`
of callers. A `Step` lets one caller execute its next statement, or the environment make one move;
a caller that is never picked again has stopped, so crashes need no rule of their own. `Run c₀ tr c`
collects the steps taken, newest first: `tr` is the history, and the history at the time of an
entry `e` is the `tr'` with `e :: tr' <:+ tr`.

* `Run.obeys`: what a program obeys on its own (`Obeys`) it obeys in every run, against its own
  part `own i tr` of the history.
* `Run.invariant`: a property of history and world that one step preserves holds in every run. A
  step may use what the caller's program obeys, and a condition `C` put on the run's steps
  (`Along C`).
* `Run.persist`, `Run.established`, `Run.dropped`: a property no step destroys survives; a property
  that is lost is lost at some step of the run.
* `Run.drawn_once`: a number drawn from a counter is drawn by one step.
* `sum_own`: what all callers issue adds up to what each of them issues.
* `playAll` executes a schedule, so a concrete run is obtained by evaluation.
-/

namespace Meridian.Interleave

open Prog

variable {M : Machine} {ι α : Type}

/-- The shared world and every caller's program. -/
structure Config (M : Machine) (ι α : Type) where
  world : M.World
  procs : ι → Prog M α

/-- One step of a run: a caller's statement with its answer, or a move of the environment, between
the worlds `pre` and `post`. -/
inductive Entry (M : Machine) (ι : Type) : Type
  | call (i : ι) (s : M.Stmt) (r : M.Res s) (pre post : M.World)
  | env (e : M.Env) (pre post : M.World)

namespace Entry

def pre : Entry M ι → M.World
  | call _ _ _ w _ => w
  | env _ w _ => w

def post : Entry M ι → M.World
  | call _ _ _ _ w => w
  | env _ _ w => w

end Entry

section Runs

variable [DecidableEq ι]

/-- Caller `i` goes on with `p` in world `w`. -/
def Config.advance (c : Config M ι α) (i : ι) (p : Prog M α) (w : M.World) : Config M ι α :=
  ⟨w, fun j => if j = i then p else c.procs j⟩

/-- One step: a caller executes its next statement, or the environment moves. -/
inductive Step : Config M ι α → Entry M ι → Config M ι α → Prop
  | call {c : Config M ι α} {i : ι} {s : M.Stmt} {k : M.Res s → Prog M α} {r : M.Res s}
      {w : M.World} (hi : c.procs i = stmt s k) (hx : M.exec s c.world = some (r, w)) :
      Step c (.call i s r c.world w) (c.advance i (k r) w)
  | env {c : Config M ι α} (e : M.Env) :
      Step c (.env e c.world (M.env e c.world)) ⟨M.env e c.world, c.procs⟩

/-- A run from `c₀`, with its history newest first. -/
inductive Run (c₀ : Config M ι α) : List (Entry M ι) → Config M ι α → Prop
  | nil : Run c₀ [] c₀
  | cons {tr c e c'} (h : Run c₀ tr c) (hs : Step c e c') : Run c₀ (e :: tr) c'

/-- The statements of one caller in a history, newest first. -/
def own (i : ι) : List (Entry M ι) → Log M
  | [] => []
  | .call j s r _ _ :: tr => if j = i then ⟨s, r⟩ :: own i tr else own i tr
  | .env _ _ _ :: tr => own i tr

/-- The statements of all callers in a history, newest first. -/
def statements : List (Entry M ι) → Log M
  | [] => []
  | .call _ s r _ _ :: tr => ⟨s, r⟩ :: statements tr
  | .env _ _ _ :: tr => statements tr

/-- The steps since a caller's own last one, newest first. -/
def since (i : ι) : List (Entry M ι) → List (Entry M ι)
  | [] => []
  | .call j s r w w' :: tr => if j = i then [] else .call j s r w w' :: since i tr
  | .env e w w' :: tr => .env e w w' :: since i tr

/-- The steps since a caller last issued a statement that `p` picks, newest first. -/
def after (i : ι) (p : M.Stmt → Bool) : List (Entry M ι) → List (Entry M ι)
  | [] => []
  | .call j s r w w' :: tr =>
    if j = i ∧ p s = true then [] else .call j s r w w' :: after i p tr
  | .env e w w' :: tr => .env e w w' :: after i p tr

/-- Every step of the history satisfies `C` against the history before it. -/
def Along (C : List (Entry M ι) → Entry M ι → Prop) : List (Entry M ι) → Prop
  | [] => True
  | e :: tr => C tr e ∧ Along C tr

variable {c₀ c c' : Config M ι α} {tr tr' : List (Entry M ι)} {e : Entry M ι}

theorem after_isPrefix (i : ι) (p : M.Stmt → Bool) : ∀ tr : List (Entry M ι), after i p tr <+: tr
  | [] => List.prefix_rfl
  | .env e w w' :: tr => List.cons_prefix_cons.mpr ⟨rfl, after_isPrefix i p tr⟩
  | .call j s r w w' :: tr => by
    unfold after
    split
    · exact List.nil_prefix
    · exact List.cons_prefix_cons.mpr ⟨rfl, after_isPrefix i p tr⟩

@[simp] theorem own_nil (i : ι) : own i ([] : List (Entry M ι)) = [] := rfl

@[simp] theorem own_env (i : ι) (e : M.Env) (w w' : M.World) :
    own i (.env e w w' :: tr) = own i tr := rfl

theorem own_call (i j : ι) (s : M.Stmt) (r : M.Res s) (w w' : M.World) :
    own i (.call j s r w w' :: tr) = if j = i then ⟨s, r⟩ :: own i tr else own i tr := rfl

@[simp] theorem own_call_self (i : ι) (s : M.Stmt) (r : M.Res s) (w w' : M.World) :
    own i (.call i s r w w' :: tr) = ⟨s, r⟩ :: own i tr := if_pos rfl

theorem own_call_ne {i j : ι} (h : j ≠ i) (s : M.Stmt) (r : M.Res s) (w w' : M.World) :
    own i (.call j s r w w' :: tr) = own i tr := if_neg h

@[simp] theorem since_call_self (i : ι) (s : M.Stmt) (r : M.Res s) (w w' : M.World) :
    since i (.call i s r w w' :: tr) = [] := if_pos rfl

theorem since_call_ne {i j : ι} (h : j ≠ i) (s : M.Stmt) (r : M.Res s) (w w' : M.World) :
    since i (.call j s r w w' :: tr) = .call j s r w w' :: since i tr := if_neg h

/-- Summing over the callers' own statements is summing over all of them. -/
theorem sum_own [Fintype ι] {A : Type} [AddCommMonoid A] (f : ((s : M.Stmt) × M.Res s) → A) :
    ∀ tr : List (Entry M ι), ∑ i, ((own i tr).map f).sum = ((statements tr).map f).sum
  | [] => by simp [statements]
  | .env _ _ _ :: tr => sum_own f tr
  | .call j s r w w' :: tr => by
    have hj (i : ι) : ((own i (.call j s r w w' :: tr)).map f).sum =
        (if j = i then f ⟨s, r⟩ else 0) + ((own i tr).map f).sum := by
      rw [own_call]
      split <;> simp
    simp only [hj, Finset.sum_add_distrib, sum_own f tr, statements, List.map_cons, List.sum_cons,
      Finset.sum_ite_eq, Finset.mem_univ, if_true]

@[simp] theorem advance_world (i : ι) (p : Prog M α) (w : M.World) :
    (c.advance i p w).world = w := rfl

@[simp] theorem advance_self (i : ι) (p : Prog M α) (w : M.World) :
    (c.advance i p w).procs i = p := if_pos rfl

theorem advance_ne {i j : ι} (h : j ≠ i) (p : Prog M α) (w : M.World) :
    (c.advance i p w).procs j = c.procs j := if_neg h

omit [DecidableEq ι] in
theorem Along.suffix {C : List (Entry M ι) → Entry M ι → Prop} (h : Along C tr)
    (hs : tr' <:+ tr) : Along C tr' := by
  obtain ⟨pre, rfl⟩ := hs
  induction pre with
  | nil => exact h
  | cons e pre ih => exact ih h.2

/-! ## Splitting a history -/

theorem Step.pre_eq (h : Step c e c') : e.pre = c.world := by cases h <;> rfl

theorem Step.post_eq (h : Step c e c') : e.post = c'.world := by cases h <;> rfl

theorem Run.uncons (h : Run c₀ (e :: tr) c') : ∃ c, Run c₀ tr c ∧ Step c e c' := by
  cases h with
  | cons h hs => exact ⟨_, h, hs⟩

theorem Run.split {tr₁ tr₂ : List (Entry M ι)} (h : Run c₀ (tr₂ ++ tr₁) c) :
    ∃ c', Run c₀ tr₁ c' ∧ Run c' tr₂ c := by
  induction tr₂ generalizing c with
  | nil => exact ⟨c, h, .nil⟩
  | cons e tr₂ ih =>
    obtain ⟨c₂, h₂, hs⟩ := h.uncons
    obtain ⟨c', h₁, hr⟩ := ih h₂
    exact ⟨c', h₁, hr.cons hs⟩

/-- A run goes on from where another one ended. -/
theorem Run.trans {c₁ : Config M ι α} {tr₁ tr₂ : List (Entry M ι)} (h₁ : Run c₀ tr₁ c₁)
    (h₂ : Run c₁ tr₂ c) : Run c₀ (tr₂ ++ tr₁) c := by
  induction h₂ with
  | nil => exact h₁
  | cons _ hs ih => exact ih.cons hs

/-- The run up to an earlier history. -/
theorem Run.suffix (h : Run c₀ tr c) (hs : tr' <:+ tr) : ∃ c', Run c₀ tr' c' := by
  obtain ⟨pre, rfl⟩ := hs
  obtain ⟨c', h', -⟩ := h.split
  exact ⟨c', h'⟩

/-- An entry of the history is one step, after the history before it. -/
theorem Run.entry (h : Run c₀ tr c) (hs : e :: tr' <:+ tr) :
    ∃ c₁ c₂, Run c₀ tr' c₁ ∧ Step c₁ e c₂ := by
  obtain ⟨c₂, h₂⟩ := h.suffix hs
  obtain ⟨c₁, h₁, hst⟩ := h₂.uncons
  exact ⟨c₁, c₂, h₁, hst⟩

/-- What a step is: an executed statement or a move of the environment. -/
theorem Step.cases_on (h : Step c e c') :
    (∃ i s r, e = .call i s r e.pre e.post ∧ M.exec s e.pre = some (r, e.post)) ∨
    ∃ v, e = .env v e.pre e.post ∧ e.post = M.env v e.pre := by
  cases h with
  | @call i s k r w hi hx => exact .inl ⟨i, s, r, rfl, hx⟩
  | env v => exact .inr ⟨v, rfl, rfl⟩

/-- A caller that has issued nothing is where it was. -/
theorem Run.untouched (h : Run c₀ tr c) {i : ι} (hown : own i tr = []) :
    c.procs i = c₀.procs i := by
  induction h with
  | nil => rfl
  | cons h hs ih =>
    cases hs with
    | env e => exact ih hown
    | @call j s k r w hj hx =>
      by_cases hij : j = i
      · subst hij
        rw [own_call_self] at hown
        cases hown
      · rw [own_call_ne hij] at hown
        rw [advance_ne (Ne.symm hij)]
        exact ih hown

/-- A statement in the history was executed in its `pre` world. -/
theorem Run.exec {i : ι} {s : M.Stmt} {r : M.Res s} {w w' : M.World} (h : Run c₀ tr c)
    (hs : .call i s r w w' :: tr' <:+ tr) : M.exec s w = some (r, w') := by
  obtain ⟨c₁, c₂, -, hst⟩ := h.entry hs
  cases hst with
  | call hi hx => exact hx

/-- An entry of a caller's own log is an entry of the history, with the same log before it. -/
theorem exists_of_own {i : ι} {s : M.Stmt} {r : M.Res s} {l : Log M}
    (h : (⟨s, r⟩ :: l) <:+ own i tr) :
    ∃ w w' tr', .call i s r w w' :: tr' <:+ tr ∧ own i tr' = l := by
  induction tr with
  | nil => exact absurd (List.suffix_nil.mp h) (by simp)
  | cons e tr ih =>
    have older : (⟨s, r⟩ :: l) <:+ own i tr →
        ∃ w w' tr', Entry.call i s r w w' :: tr' <:+ e :: tr ∧ own i tr' = l := fun h => by
      obtain ⟨w, w', tr', hs, hl⟩ := ih h
      exact ⟨w, w', tr', hs.trans (List.suffix_cons e tr), hl⟩
    cases e with
    | env e w w' => exact older h
    | call j s' r' w w' =>
      by_cases hj : j = i
      · subst hj
        rw [own_call_self, List.suffix_cons_iff] at h
        rcases h with h | h
        · obtain ⟨hr, hl⟩ := List.cons.inj h
          cases hr
          exact ⟨w, w', tr, List.suffix_rfl, hl.symm⟩
        · exact older h
      · rw [own_call_ne hj] at h
        exact older h

theorem exists_of_own_eq {i : ι} {s : M.Stmt} {r : M.Res s} {l : Log M}
    (h : own i tr = ⟨s, r⟩ :: l) :
    ∃ w w' tr', .call i s r w w' :: tr' <:+ tr ∧ own i tr' = l :=
  exists_of_own (h.symm ▸ List.suffix_rfl)

theorem exists_of_mem_own {i : ι} {s : M.Stmt} {r : M.Res s} (h : ⟨s, r⟩ ∈ own i tr) :
    ∃ w w' tr', .call i s r w w' :: tr' <:+ tr := by
  obtain ⟨a, b, hab⟩ := List.append_of_mem h
  obtain ⟨w, w', tr', hs, -⟩ := exists_of_own ⟨a, hab.symm⟩
  exact ⟨w, w', tr', hs⟩

theorem mem_own_of_suffix {i : ι} {s : M.Stmt} {r : M.Res s} {w w' : M.World}
    (h : .call i s r w w' :: tr' <:+ tr) : ⟨s, r⟩ ∈ own i tr := by
  obtain ⟨pre, rfl⟩ := h
  induction pre with
  | nil => simp
  | cons e pre ih =>
    rw [List.cons_append]
    cases e with
    | env e w w' => exact ih
    | call j s' r' w w' =>
      rw [own_call]
      split
      · exact List.mem_cons_of_mem _ ih
      · exact ih

theorem own_suffix (i : ι) (h : tr' <:+ tr) : own i tr' <:+ own i tr := by
  obtain ⟨pre, rfl⟩ := h
  induction pre with
  | nil => exact List.suffix_rfl
  | cons e pre ih =>
    cases e with
    | env e w w' => exact ih
    | call j s r w w' =>
      rw [List.cons_append, own_call]
      split
      · exact ih.trans (List.suffix_cons ..)
      · exact ih

/-! ## What programs obey, they obey in every run -/

section Obeys

variable {φ : ι → Log M → M.Stmt → Prop} {Q : ι → Log M → α → Prop}

/-- **A program's discipline survives interleaving.** -/
theorem Run.obeys (h0 : ∀ i, Obeys (φ i) (Q i) [] (c₀.procs i)) (h : Run c₀ tr c) (i : ι) :
    Obeys (φ i) (Q i) (own i tr) (c.procs i) := by
  induction h with
  | nil => exact h0 i
  | cons _ hs ih =>
    cases hs with
    | env e => exact ih
    | @call j s k r w hj hx =>
      by_cases hij : i = j
      · subst hij
        rw [own_call_self, advance_self]
        rw [hj] at ih
        exact ih.2 r
      · rw [own_call_ne (Ne.symm hij), advance_ne hij]
        exact ih

/-- A caller that has returned did so with a value `Q` allows. -/
theorem Run.returned (h0 : ∀ i, Obeys (φ i) (Q i) [] (c₀.procs i)) (h : Run c₀ tr c) {i : ι}
    {a : α} (ha : c.procs i = ret a) : Q i (own i tr) a := by
  have := h.obeys h0 i
  rwa [ha] at this

/-- A statement in the history kept to what its caller's program obeys. -/
theorem Run.issued (h0 : ∀ i, Obeys (φ i) (Q i) [] (c₀.procs i)) (h : Run c₀ tr c) {i : ι}
    {s : M.Stmt} {r : M.Res s} {w w' : M.World} (hs : .call i s r w w' :: tr' <:+ tr) :
    φ i (own i tr') s := by
  obtain ⟨c₁, c₂, h₁, hst⟩ := h.entry hs
  have hobeys := h₁.obeys h0 i
  cases hst with
  | call hi hx =>
    rw [hi] at hobeys
    exact hobeys.1

/-- **The invariant rule.** What one step preserves holds at the end of every run whose steps all
satisfy `C`; a step may use the run before it, and what its caller's program obeys. -/
theorem Run.invariant {C : List (Entry M ι) → Entry M ι → Prop}
    {I : List (Entry M ι) → M.World → Prop} (hφ : ∀ i, Obeys (φ i) (Q i) [] (c₀.procs i))
    (hI : I [] c₀.world)
    (hcall : ∀ tr c i s r w, Run c₀ tr c → I tr c.world → φ i (own i tr) s →
      M.exec s c.world = some (r, w) → C tr (.call i s r c.world w) →
      I (.call i s r c.world w :: tr) w)
    (henv : ∀ tr c e, Run c₀ tr c → I tr c.world → C tr (.env e c.world (M.env e c.world)) →
      I (.env e c.world (M.env e c.world) :: tr) (M.env e c.world))
    (h : Run c₀ tr c) (hC : Along C tr) : I tr c.world := by
  induction h with
  | nil => exact hI
  | @cons tr c e c' h hs ih =>
    have hI := ih hC.2
    have hO := h.obeys hφ
    cases hs with
    | env e => exact henv _ _ _ h hI hC.1
    | @call i s k r w hi hx =>
      have hO := hO i
      rw [hi] at hO
      exact hcall _ _ _ _ _ _ h hI hO.1 hx hC.1

end Obeys

instance Along.decidable {C : List (Entry M ι) → Entry M ι → Prop}
    [∀ tr e, Decidable (C tr e)] : ∀ tr, Decidable (Along C tr)
  | [] => .isTrue trivial
  | e :: tr =>
    have := Along.decidable (C := C) tr
    inferInstanceAs (Decidable (C tr e ∧ Along C tr))

omit [DecidableEq ι] in
theorem along_true : ∀ tr : List (Entry M ι), Along (fun _ _ => True) tr
  | [] => trivial
  | _ :: tr => ⟨trivial, along_true tr⟩

/-- The invariant rule for a property of the world that needs no discipline and no condition. -/
theorem Run.always {I : M.World → Prop} (hI : I c₀.world)
    (hexec : ∀ s w r w', I w → M.exec s w = some (r, w') → I w')
    (henv : ∀ e w, I w → I (M.env e w)) (h : Run c₀ tr c) : I c.world :=
  Run.invariant (φ := fun _ _ _ => True) (Q := fun _ _ _ => True) (C := fun _ _ => True)
    (I := fun _ w => I w) (fun _ => obeys_true _) hI
    (fun _ c _ s r w _ hw _ hx _ => hexec s c.world r w hw hx)
    (fun _ c e _ hw _ => henv e c.world hw) h (along_true tr)

/-- **What no step destroys survives** from any point of the history to its end. -/
theorem Run.persist {P : M.World → Prop}
    (hexec : ∀ s w r w', P w → M.exec s w = some (r, w') → P w')
    (henv : ∀ e w, P w → P (M.env e w)) (h : Run c₀ tr c) (hs : e :: tr' <:+ tr)
    (hp : P e.post) : P c.world := by
  obtain ⟨pre, rfl⟩ := hs
  obtain ⟨c', h₁, h₂⟩ := h.split
  obtain ⟨c₁, -, hst⟩ := h₁.uncons
  rw [hst.post_eq] at hp
  exact h₂.always hp hexec henv

/-- What no step within `C` destroys survives in a run whose steps all are. -/
theorem Run.kept {C : List (Entry M ι) → Entry M ι → Prop} {P : M.World → Prop}
    (hcall : ∀ tr i s r w w', P w → M.exec s w = some (r, w') → C tr (.call i s r w w') → P w')
    (henv : ∀ e w, P w → P (M.env e w)) (h : Run c₀ tr c) (hC : Along C tr) (hs : e :: tr' <:+ tr)
    (hp : P e.post) : P c.world := by
  induction h with
  | nil => exact absurd (List.suffix_nil.mp hs) (by simp)
  | @cons tr c e₁ c' h hstep ih =>
    rcases List.suffix_cons_iff.mp hs with hlast | hs
    · rw [(List.cons.inj hlast).1, hstep.post_eq] at hp
      exact hp
    · have hw := ih hC.2 hs
      cases hstep with
      | env v => exact henv v _ hw
      | call hi hx => exact hcall _ _ _ _ _ _ hw hx hC.1

/-- What a caller's own statement established, and no step destroys, still holds. -/
theorem Run.established {P : M.World → Prop} (h : Run c₀ tr c) {i : ι} {s : M.Stmt} {r : M.Res s}
    (hmem : ⟨s, r⟩ ∈ own i tr) (hpost : ∀ w w', M.exec s w = some (r, w') → P w')
    (hexec : ∀ s w r w', P w → M.exec s w = some (r, w') → P w')
    (henv : ∀ e w, P w → P (M.env e w)) : P c.world := by
  obtain ⟨w, w', tr', hs⟩ := exists_of_mem_own hmem
  exact h.persist hexec henv hs (hpost w w' (h.exec hs))

/-- **What a read established and every later step carries on**, with the steps since the read. -/
theorem Run.window {P : List (Entry M ι) → M.World → Prop} {i : ι} {p : M.Stmt → Bool}
    (h : Run c₀ tr c) (hread : ∃ x ∈ own i tr, p x.1 = true)
    (hpost : ∀ x ∈ own i tr, p x.1 = true → ∀ w w', M.exec x.1 w = some (x.2, w') → P [] w')
    (hstep : ∀ seg e c c', Step (ι := ι) (α := α) c e c' → P seg c.world → P (e :: seg) c'.world) :
    P (after i p tr) c.world := by
  induction h with
  | nil =>
    obtain ⟨x, hx, -⟩ := hread
    cases hx
  | @cons tr c e c' h hs ih =>
    cases hs with
    | env v => exact hstep _ _ _ _ (.env v) (ih hread hpost)
    | @call j s k r w hj hx =>
      by_cases hji : j = i ∧ p s = true
      · obtain ⟨rfl, hp⟩ := hji
        rw [after, if_pos ⟨rfl, hp⟩]
        exact hpost ⟨s, r⟩ (by rw [own_call_self]; exact List.mem_cons_self) hp _ _ hx
      · have hsub : ∀ x ∈ own i tr, x ∈ own i (.call j s r c.world w :: tr) := by
          intro x hx
          rw [own_call]
          split
          · exact List.mem_cons_of_mem _ hx
          · exact hx
        rw [after, if_neg hji]
        refine hstep _ _ _ _ (.call hj hx) (ih ?_ fun x hx => hpost x (hsub x hx))
        obtain ⟨x, hx, hp⟩ := hread
        rw [own_call] at hx
        split at hx
        · rename_i hji'
          rcases List.mem_cons.mp hx with rfl | hx
          · exact absurd ⟨hji', hp⟩ hji
          · exact ⟨x, hx, hp⟩
        · exact ⟨x, hx, hp⟩

/-- **A property that is lost is lost at some step.** -/
theorem Run.dropped {P : M.World → Prop} (h : Run c₀ tr c) (h0 : P c₀.world) (hn : ¬ P c.world) :
    ∃ e tr', e :: tr' <:+ tr ∧ P e.pre ∧ ¬ P e.post := by
  induction h with
  | nil => exact absurd h0 hn
  | @cons tr c e c' h hs ih =>
    by_cases hp : P c.world
    · exact ⟨e, tr, List.suffix_rfl, by rwa [hs.pre_eq], by rwa [hs.post_eq]⟩
    · obtain ⟨e', tr', hsuf, h1, h2⟩ := ih hp
      exact ⟨e', tr', hsuf.trans (List.suffix_cons e tr), h1, h2⟩

/-- **A number is drawn once**: when a step never lowers a counter, two steps that raise it from the
same number are one step of the history. -/
theorem Run.drawn_once {N : Type} [LinearOrder N] (counter : M.World → N)
    (hexec : ∀ s w r w', M.exec s w = some (r, w') → counter w ≤ counter w')
    (henv : ∀ e w, counter w ≤ counter (M.env e w)) (h : Run c₀ tr c) {e₁ e₂ : Entry M ι}
    {t₁ t₂ : List (Entry M ι)} (h₁ : e₁ :: t₁ <:+ tr) (h₂ : e₂ :: t₂ <:+ tr)
    (hraise₁ : counter e₁.pre < counter e₁.post) (hraise₂ : counter e₂.pre < counter e₂.post)
    (heq : counter e₁.pre = counter e₂.pre) : e₁ :: t₁ = e₂ :: t₂ := by
  have earlier : ∀ {e e' : Entry M ι} {t t' : List (Entry M ι)}, e' :: t' <:+ tr → e :: t <:+ t' →
      counter e.pre < counter e.post → counter e.pre < counter e'.pre := by
    intro e e' t t' h' hs hraise
    obtain ⟨c₁, c₂, hrun, hst⟩ := h.entry h'
    rw [hst.pre_eq]
    obtain ⟨front, rfl⟩ := hs
    obtain ⟨c₃, hfront, hback⟩ := hrun.split
    obtain ⟨c₄, -, hst'⟩ := hfront.uncons
    rw [hst'.post_eq] at hraise
    exact hback.always (I := fun w => counter e.pre < counter w) hraise
      (fun s w r w' hw hx => lt_of_lt_of_le hw (hexec s w r w' hx))
      fun e w hw => lt_of_lt_of_le hw (henv e w)
  rcases List.suffix_or_suffix_of_suffix h₁ h₂ with hs | hs
  · rcases List.suffix_cons_iff.mp hs with hsame | hs
    · exact hsame
    · exact absurd heq (earlier h₂ hs hraise₁).ne
  · rcases List.suffix_cons_iff.mp hs with hsame | hs
    · exact hsame.symm
    · exact absurd heq (earlier h₁ hs hraise₂).ne'

/-! ## Executing a schedule -/

/-- What the schedule picks: a caller to move, or a move of the environment. -/
inductive Pick (M : Machine) (ι : Type) : Type
  | call (i : ι)
  | env (e : M.Env)

/-- Execute one pick; `none` when the caller has returned or is blocked. -/
def Config.play (c : Config M ι α) : Pick M ι → Option (Entry M ι × Config M ι α)
  | .call i =>
    match c.procs i with
    | .ret _ => none
    | .stmt s k =>
      match M.exec s c.world with
      | none => none
      | some (r, w) => some (.call i s r c.world w, c.advance i (k r) w)
  | .env e => some (.env e c.world (M.env e c.world), ⟨M.env e c.world, c.procs⟩)

/-- Execute a schedule from a history and its configuration. -/
def playAll : List (Pick M ι) → List (Entry M ι) × Config M ι α →
    Option (List (Entry M ι) × Config M ι α)
  | [], x => some x
  | p :: ps, x =>
    match x.2.play p with
    | none => none
    | some (e, c) => playAll ps (e :: x.1, c)

theorem Config.play_step {p : Pick M ι} (h : c.play p = some (e, c')) : Step c e c' := by
  unfold Config.play at h
  split at h
  · split at h
    · cases h
    · rename_i hp
      split at h
      · cases h
      · rename_i hx
        cases h
        exact .call hp hx
  · cases h
    exact .env _

/-- A schedule that executes is a run. -/
theorem playAll_run : ∀ {ps : List (Pick M ι)} {x y : List (Entry M ι) × Config M ι α},
    Run c₀ x.1 x.2 → playAll ps x = some y → Run c₀ y.1 y.2
  | [], x, y, h, hp => by cases hp; exact h
  | p :: ps, x, y, h, hp => by
    unfold playAll at hp
    split at hp
    · cases hp
    · rename_i hstep
      exact playAll_run (x := (_ :: x.1, _)) (h.cons (Config.play_step hstep)) hp

/-- The run a schedule executes from `c₀`, when it executes at all. -/
theorem run_of_playAll (ps : List (Pick M ι)) (h : (playAll ps ([], c₀)).isSome) :
    Run c₀ ((playAll ps ([], c₀)).get h).1 ((playAll ps ([], c₀)).get h).2 :=
  playAll_run .nil (Option.some_get h).symm

/-- What a schedule executes satisfies `p`. -/
def plays (ps : List (Pick M ι)) (c₀ : Config M ι α)
    (p : List (Entry M ι) × Config M ι α → Prop) [DecidablePred p] : Bool :=
  match playAll ps ([], c₀) with
  | none => false
  | some x => p x

/-- A run with a property, from one evaluation of a schedule. -/
theorem exists_run (ps : List (Pick M ι)) (c₀ : Config M ι α)
    (p : List (Entry M ι) × Config M ι α → Prop) [DecidablePred p] (h : plays ps c₀ p = true) :
    ∃ tr c, Run c₀ tr c ∧ p (tr, c) := by
  unfold plays at h
  split at h
  · cases h
  · rename_i x hx
    exact ⟨x.1, x.2, playAll_run .nil hx, of_decide_eq_true h⟩

end Runs

end Meridian.Interleave
