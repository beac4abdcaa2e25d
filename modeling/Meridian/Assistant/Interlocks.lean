import Meridian.Assistant.Run
import Meridian.Decisioning.Keyed

/-!
# The assistant's interlocks

Whatever the provider completes, the tools raise and the framework hands back, a run posts decision
requests for the officer's application and under the run's one request id only, none on the explain
path, searches at most once, and stops within its steps.

* `invoke_cases`: what one tool call can do.
* `Inv`: what the run has done before a node, against the steps it has taken; `agent_keeps` carries
  it over every node.
* **`assistant_bounded`**: the bounds on a run, and, with the calls of `decide` its requests lead to,
  the one event they can put on record among any other calls.
-/

namespace Meridian.Assistant

open Python Workflow

variable {O : Outside} {F : Framework} {r : Request} {s : State}

/-! ## One tool call -/

/-- The effects of a tool call that asks nothing of others. -/
structure Quiet (s s' : State) : Prop where
  effects : s'.effects = s.effects
  searches : s'.searches = s.searches

/-- One decision request for the officer's application, under the run's request id. -/
structure Posts (r : Request) (s s' : State) : Prop where
  task : r.task ≠ "explain".toList
  effects : ∃ p : Payload, p.applicationId = r.applicationId ∧ p.requestId = some r.requestId ∧
    s'.effects = { s.effects with posts := s.effects.posts ++ [p] }
  searches : s'.searches = s.searches

/-- The first search of a run, which answers or raises. -/
structure Searches (s s' : State) (result : Except Raised Value) : Prop where
  first : s.searches = []
  effects : ∃ query, s'.effects = { s.effects with queries := s.effects.queries ++ [query] }
  searches : s'.searches.length = 1 ∨
    s'.searches = [] ∧ ∃ cause, result = .error (.retrieval cause)

theorem payload_applicationId {applicationId : Int} {row : Except Text (Option Row)} {p : Payload}
    (h : decisionRequestPayload applicationId row = .ok p) : p.applicationId = applicationId := by
  unfold decisionRequestPayload at h
  split at h
  · cases h
  · cases h
  · split at h
    · cases h
    · cases h
      rfl

theorem scoreApplication_cases (htask : r.task ≠ "explain".toList) :
    Quiet s (scoreApplication O r s).2 ∨ Posts r s (scoreApplication O r s).2 := by
  unfold scoreApplication
  split
  · exact .inl ⟨rfl, rfl⟩
  · rename_i payload hpayload
    split
    · exact .inl ⟨rfl, rfl⟩
    · have happ : payload.applicationId = r.applicationId := payload_applicationId hpayload
      exact .inr ⟨htask, ⟨{ payload with requestId := some r.requestId }, happ, rfl, rfl⟩, rfl⟩

theorem score_cases : Quiet s (score O r s).2 ∨ Posts r s (score O r s).2 := by
  unfold score
  split
  · exact .inl ⟨rfl, rfl⟩
  · rename_i htask
    split
    · exact .inl ⟨rfl, rfl⟩
    · have hcases := scoreApplication_cases (O := O) (s := s) htask
      cases hres : scoreApplication O r s with
      | mk result s' =>
        rw [hres] at hcases
        cases result with
        | error e => exact hcases
        | ok v =>
          rcases hcases with hquiet | hposts
          · exact .inl ⟨hquiet.effects, hquiet.searches⟩
          · exact .inr ⟨hposts.task, hposts.effects, hposts.searches⟩

theorem policy_cases (query : Text) : Quiet s (policy O r query s).2 ∨
    Searches s (policy O r query s).2 (policy O r query s).1 := by
  unfold policy
  split
  · exact .inl ⟨rfl, rfl⟩
  · rename_i hnone
    have hfirst : s.searches = [] := List.getLast?_eq_none_iff.mp hnone
    cases hres : searchPolicy O r query s with
    | ok answer =>
      refine .inr ⟨hfirst, ⟨query, rfl⟩, .inl ?_⟩
      simp [State.found, State.searched, hfirst]
    | error e =>
      refine .inr ⟨hfirst, ⟨query, rfl⟩, .inr ⟨hfirst, ?_⟩⟩
      unfold searchPolicy at hres
      split at hres
      · cases hres
      · split at hres
        · cases hres
        · rename_i cause _
          cases hres
          exact ⟨cause, rfl⟩

/-- **What one tool call can do.** -/
theorem invoke_cases (call : ToolCall) : Quiet s (invoke O r call s).2 ∨
    Posts r s (invoke O r call s).2 ∨ Searches s (invoke O r call s).2 (invoke O r call s).1 := by
  unfold invoke
  split
  · exact score_cases.imp_right .inl
  · split
    · exact .inl ⟨rfl, rfl⟩
    · split
      · split
        · exact .inl ⟨rfl, rfl⟩
        · rename_i query _
          exact (policy_cases query).imp_right .inr
      · exact .inl ⟨rfl, rfl⟩

/-! ## What a run has done -/

/-- The decision requests of a run. -/
structure Pinned (r : Request) (e : Effects) : Prop where
  posts : ∀ p ∈ e.posts, p.applicationId = r.applicationId ∧ p.requestId = some r.requestId
  explain : r.task = "explain".toList → e.posts = []

/-- Every search has answered, at most one of them. -/
structure OneSearch (s : State) : Prop where
  answered : s.effects.queries.length = s.searches.length
  once : s.searches.length ≤ 1

/-- A search that raises ends the run. -/
def SearchRaises (F : Framework) : Prop := ∀ cause, F.handsBack (.retrieval cause) = false

theorem Pinned.of_quiet {s' : State} (h : Pinned r s.effects) (hq : Quiet s s') :
    Pinned r s'.effects := by
  rw [hq.effects]
  exact h

theorem Pinned.of_posts {s' : State} (h : Pinned r s.effects) (hp : Posts r s s') :
    Pinned r s'.effects := by
  obtain ⟨p, happ, hrid, heff⟩ := hp.effects
  rw [heff]
  refine ⟨?_, fun htask => absurd htask hp.task⟩
  rintro q hq
  rcases List.mem_append.mp hq with hq | hq
  · exact h.posts q hq
  · obtain rfl := List.mem_singleton.mp hq
    exact ⟨happ, hrid⟩

theorem Pinned.of_searches {s' : State} {result : Except Raised Value} (h : Pinned r s.effects)
    (hs : Searches s s' result) : Pinned r s'.effects := by
  obtain ⟨query, heff⟩ := hs.effects
  rw [heff]
  exact ⟨h.posts, h.explain⟩

theorem Pinned.invoke (h : Pinned r s.effects) (call : ToolCall) :
    Pinned r (invoke O r call s).2.effects := by
  rcases invoke_cases (O := O) (r := r) (s := s) call with hq | hp | hs
  · exact h.of_quiet hq
  · exact h.of_posts hp
  · exact h.of_searches hs

/-- A tool call takes no step and calls no model. -/
theorem invoke_steps (call : ToolCall) : (invoke O r call s).2.effects.steps = s.effects.steps ∧
    (invoke O r call s).2.effects.completions = s.effects.completions := by
  rcases invoke_cases (O := O) (r := r) (s := s) call with hq | hp | hs
  · rw [hq.effects]
    exact ⟨rfl, rfl⟩
  · obtain ⟨p, -, -, heff⟩ := hp.effects
    rw [heff]
    exact ⟨rfl, rfl⟩
  · obtain ⟨query, heff⟩ := hs.effects
    rw [heff]
    exact ⟨rfl, rfl⟩

/-- After a tool call at most one search has run; every one has answered but one that raised. -/
theorem OneSearch.invoke (h : OneSearch s) (call : ToolCall) :
    (invoke O r call s).2.effects.queries.length ≤ 1 ∧
    (OneSearch (invoke O r call s).2 ∨
      ∃ cause, (invoke O r call s).1 = .error (.retrieval cause)) := by
  have hle : s.effects.queries.length ≤ 1 := by
    rw [h.answered]
    exact h.once
  rcases invoke_cases (O := O) (r := r) (s := s) call with hq | hp | hs
  · refine ⟨by rwa [hq.effects], .inl ⟨?_, ?_⟩⟩
    · rw [hq.effects, hq.searches]
      exact h.answered
    · rw [hq.searches]
      exact h.once
  · obtain ⟨p, -, -, heff⟩ := hp.effects
    refine ⟨by rwa [heff], .inl ⟨?_, ?_⟩⟩
    · rw [heff, hp.searches]
      exact h.answered
    · rw [hp.searches]
      exact h.once
  · obtain ⟨query, heff⟩ := hs.effects
    have hzero : s.effects.queries.length = 0 := by
      rw [h.answered, hs.first]
      rfl
    have hone : (Assistant.invoke O r call s).2.effects.queries.length = 1 := by
      rw [heff, List.length_append, hzero]
      rfl
    refine ⟨hone.le, ?_⟩
    rcases hs.searches with hlen | ⟨-, hcause⟩
    · exact .inl ⟨hone.trans hlen.symm, hlen.le⟩
    · exact .inr hcause

/-! ## The tools' node -/

/-- What holds of the effects wherever a run stops. -/
structure Bounded (F : Framework) (r : Request) (e : Effects) : Prop where
  pinned : Pinned r e
  queries : SearchRaises F → e.queries.length ≤ 1
  steps : e.steps ≤ recursionLimit
  completions : e.completions ≤ maxSteps

/-- What holds of a state the loop goes on from, with its steps and model calls. -/
structure Inv (F : Framework) (r : Request) (steps completions : ℕ) (s : State) : Prop where
  pinned : Pinned r s.effects
  search : SearchRaises F → OneSearch s
  steps : s.effects.steps = steps
  completions : s.effects.completions = completions

theorem Inv.push {steps completions : ℕ} (h : Inv F r steps completions s) (m : Message) :
    Inv F r steps completions (s.push m) :=
  ⟨h.pinned, fun hF => ⟨(h.search hF).answered, (h.search hF).once⟩, h.steps, h.completions⟩

theorem Inv.bounded {steps completions : ℕ} (h : Inv F r steps completions s)
    (hs : steps ≤ recursionLimit) (hc : completions ≤ maxSteps) : Bounded F r s.effects where
  pinned := h.pinned
  queries hF := (h.search hF).answered.le.trans (h.search hF).once
  steps := h.steps.le.trans hs
  completions := h.completions.le.trans hc

/-- A node leaves the invariant, or the bounds where it raises. -/
def Leaves (F : Framework) (r : Request) (steps completions : ℕ) :
    Except (Raised × State) State → Prop
  | .ok s => Inv F r steps completions s
  | .error e => Bounded F r e.2.effects

/-- **The tools' node keeps the invariant.** -/
theorem runCalls_spec {steps completions : ℕ} (hs : steps ≤ recursionLimit)
    (hc : completions ≤ maxSteps) : ∀ (calls : List ToolCall) {s : State},
      Inv F r steps completions s → Leaves F r steps completions (runCalls O F r calls s)
  | [], s, h => h
  | call :: calls, s, h => by
    have hpinned := h.pinned.invoke (O := O) call
    have hsteps := invoke_steps (O := O) (r := r) (s := s) call
    have hsearch := fun hF => (h.search hF).invoke (O := O) (r := r) call
    rw [runCalls]
    cases hres : invoke O r call s with
    | mk result s' =>
      rw [hres] at hpinned hsteps hsearch
      have hsteps' : s'.effects.steps = steps := hsteps.1.trans h.steps
      have hcompl' : s'.effects.completions = completions := hsteps.2.trans h.completions
      cases result with
      | ok v =>
        have hinv : Inv F r steps completions s' := by
          refine ⟨hpinned, fun hF => ?_, hsteps', hcompl'⟩
          rcases (hsearch hF).2 with hone | ⟨cause, hcause⟩
          · exact hone
          · cases hcause
        exact runCalls_spec hs hc calls (hinv.push _)
      | error e =>
        by_cases hback : F.handsBack e = true
        · have hinv : Inv F r steps completions s' := by
            refine ⟨hpinned, fun hF => ?_, hsteps', hcompl'⟩
            rcases (hsearch hF).2 with hone | ⟨cause, hcause⟩
            · exact hone
            · cases hcause
              rw [hF cause] at hback
              cases hback
          simp only [hback, if_true]
          exact runCalls_spec hs hc calls (hinv.push _)
        · simp only [hback]
          exact ⟨hpinned, fun hF => (hsearch hF).1, hsteps'.le.trans hs, hcompl'.le.trans hc⟩

/-! ## The loop -/

/-- Before a node: the steps are counted, and every other one was a model call. -/
def Before (F : Framework) (r : Request) (n : Node) (s : State) : Prop :=
  ∃ steps completions, Inv F r steps completions s ∧ steps ≤ recursionLimit ∧
    2 * completions = steps + (if n = .tools then 1 else 0)

def assertions (F : Framework) (r : Request) : Graph.Assertions Node State (Raised × State) where
  before _ n s := Before F r n s
  after _ s := Bounded F r s.effects
  raised _ e := Bounded F r e.2.effects

theorem modelNode_spec {steps completions : ℕ} (remaining : ℕ) (minted : Text)
    (h : Inv F r steps completions s) (hs : steps < recursionLimit)
    (hc : completions < maxSteps) :
    Leaves F r (steps + 1) (completions + 1) (modelNode O F r remaining minted s.stepped) := by
  have hinv : Inv F r (steps + 1) (completions + 1) s.stepped.asked :=
    ⟨⟨h.pinned.posts, h.pinned.explain⟩,
      fun hF => ⟨(h.search hF).answered, (h.search hF).once⟩,
      congrArg (· + 1) h.steps, congrArg (· + 1) h.completions⟩
  unfold modelNode
  cases generate O r minted s.stepped with
  | error e => exact hinv.bounded hs hc
  | ok m =>
    cases m with
    | calls calls => exact hinv.push _
    | human | action _ | apology | tool _ _ _ => exact hinv.push _

theorem toolsNode_spec {steps completions : ℕ} (h : Inv F r steps completions s)
    (hs : steps < recursionLimit) (hc : completions ≤ maxSteps) :
    Leaves F r (steps + 1) completions (runCalls O F r s.pending s.stepped) := by
  have hinv : Inv F r (steps + 1) completions s.stepped :=
    ⟨⟨h.pinned.posts, h.pinned.explain⟩,
      fun hF => ⟨(h.search hF).answered, (h.search hF).once⟩,
      congrArg (· + 1) h.steps, h.completions⟩
  exact runCalls_spec hs hc s.pending hinv

/-- One step more was taken within the bounds, and the node that follows may be visited. -/
def Visited (F : Framework) (r : Request) (next : State → Option Node) (s : State) :
    Except (Raised × State) State → Prop
  | .ok s' => Bounded F r s'.effects ∧ s'.effects.steps = s.effects.steps + 1 ∧
    ∀ n', next s' = some n' → Before F r n' s'
  | .error e => Bounded F r e.2.effects

/-- What a visit leaves, and which node follows. -/
theorem visit_spec (mint : ℕ → Text) (past : List (Node × State)) {n : Node} (h : Before F r n s) :
    Visited F r ((graph O F r mint).next n) s ((graph O F r mint).visit past n s) := by
  obtain ⟨steps, completions, hinv, hle, hcount⟩ := h
  have hlimit : recursionLimit = 12 := rfl
  have hmax : maxSteps = 6 := rfl
  by_cases hend : recursionLimit - s.effects.steps = 0
  · have hbound : Bounded F r s.effects := by
      refine hinv.bounded hle ?_
      split at hcount <;> omega
    simpa only [graph, hend, if_true, Visited] using hbound
  · have hs : steps < recursionLimit := by
      rw [hinv.steps] at hend
      omega
    simp only [graph, hend, if_false]
    cases n with
    | model =>
      simp only [reduceCtorEq, if_false] at hcount
      have hleaves := modelNode_spec (O := O) (recursionLimit - s.effects.steps)
        (mint s.effects.steps) hinv hs (by omega)
      cases hv : modelNode O F r (recursionLimit - s.effects.steps) (mint s.effects.steps)
        s.stepped with
      | error e =>
        rw [hv] at hleaves
        exact hleaves
      | ok s' =>
        rw [hv] at hleaves
        have hleaves : Inv F r (steps + 1) (completions + 1) s' := hleaves
        refine ⟨hleaves.bounded hs (by omega), by rw [hleaves.steps, hinv.steps], fun n' hn => ?_⟩
        dsimp only at hn
        split at hn
        · cases hn
        · obtain rfl := Option.some.inj hn
          refine ⟨_, _, hleaves, hs, ?_⟩
          rw [if_pos rfl]
          omega
    | tools =>
      simp only [if_true] at hcount
      have hleaves := toolsNode_spec (O := O) hinv hs (by omega)
      cases hv : runCalls O F r s.pending s.stepped with
      | error e =>
        rw [hv] at hleaves
        exact hleaves
      | ok s' =>
        rw [hv] at hleaves
        have hleaves : Inv F r (steps + 1) completions s' := hleaves
        refine ⟨hleaves.bounded hs (by omega), by rw [hleaves.steps, hinv.steps], fun n' hn => ?_⟩
        obtain rfl := Option.some.inj hn
        refine ⟨_, _, hleaves, hs, ?_⟩
        rw [if_neg (by decide)]
        omega

theorem agent_keeps (O : Outside) (F : Framework) (r : Request) (mint : ℕ → Text) :
    (graph O F r mint).Keeps (assertions F r) where
  on {past n s s' n'} h hv hn := by
    have hspec := visit_spec (O := O) mint past h
    rw [hv] at hspec
    exact hspec.2.2 n' hn
  ends {past n s s'} h hv hn := by
    have hspec := visit_spec (O := O) mint past h
    rw [hv] at hspec
    exact hspec.1
  raises {past n s e} h hv := by
    have hspec := visit_spec (O := O) mint past h
    rw [hv] at hspec
    exact hspec

theorem before_start (F : Framework) (r : Request) :
    Before F r .model { messages := [.human] } := by
  refine ⟨0, 0, ⟨⟨?_, fun _ => rfl⟩, fun _ => ⟨rfl, Nat.zero_le 1⟩, rfl, rfl⟩, Nat.zero_le _, rfl⟩
  intro p hp
  cases hp

/-- The loop ends, within the bounds. -/
theorem agent_spec (O : Outside) (F : Framework) (r : Request) (mint : ℕ → Text) :
    (agent O F r mint).outcome.isSome = true ∧ (assertions F r).Holds (agent O F r mint) := by
  have hkeeps := agent_keeps O F r mint
  constructor
  · refine Graph.run_ends hkeeps (fun _ s => recursionLimit - s.effects.steps) ?_ _
      (before_start F r) ?_
    · intro past n s s' n' h hv hn
      have hspec := visit_spec (O := O) mint past h
      rw [hv] at hspec
      obtain ⟨hbound, hsteps, -⟩ := hspec
      have hle := hbound.steps
      omega
    · exact Nat.lt_succ_of_le (Nat.sub_le _ _)
  · exact (Graph.run_spec hkeeps _ (before_start F r)).1

/-- **What a run has done when it ends.** -/
theorem run_bounded (O : Outside) (F : Framework) (r : Request) (mint : ℕ → Text) :
    ∃ answer e, run O F r mint = some (answer, e) ∧ Bounded F r e := by
  unfold run
  split
  · refine ⟨_, _, rfl, ⟨⟨?_, fun _ => rfl⟩, fun _ => Nat.zero_le _, Nat.zero_le _, Nat.zero_le _⟩⟩
    intro p hp
    cases hp
  · obtain ⟨hsome, hholds⟩ := agent_spec O F r mint
    obtain ⟨outcome, hout⟩ := Option.isSome_iff_exists.mp hsome
    rw [Graph.Assertions.Holds, hout] at hholds
    rw [hout]
    cases outcome with
    | ok s => exact ⟨_, _, rfl, hholds⟩
    | error e =>
      obtain ⟨raised, s⟩ := e
      cases raised <;> exact ⟨_, _, rfl, hholds⟩

/-! ## With the calls its requests lead to -/

/-- A call of `decide` that one of the requests led to. -/
def Serves (posts : List Payload) (call : Decisioning.Call) : Prop :=
  ∃ p ∈ posts, call.application.appId = p.applicationId ∧ call.application.requestId = p.requestId

theorem key_of_requestId {a : Decisioning.Application} {rid : Text} (h : a.requestId = some rid)
    (hne : rid ≠ []) : a.key = some rid := by
  unfold Decisioning.Application.key
  rw [h]
  cases rid with
  | nil => exact absurd rfl hne
  | cons c rid => rfl

/-- **The assistant cannot over-decide.** -/
theorem assistant_bounded (O : Outside) (F : Framework) (hF : SearchRaises F) (r : Request)
    (mint : ℕ → Text) : ∃ answer e, run O F r mint = some (answer, e) ∧
      e.steps ≤ recursionLimit ∧ e.completions ≤ maxSteps ∧ e.queries.length ≤ 1 ∧
      (∀ p ∈ e.posts, p.applicationId = r.applicationId ∧ p.requestId = some r.requestId) ∧
      (r.task = "explain".toList → e.posts = []) ∧
      -- whatever calls of `decide` the requests lead to, among any others
      ∀ (ι : Type) [DecidableEq ι] (D : Decisioning.Deployment) (calls : ι → Decisioning.Call)
        (w : Decisioning.World ι) tr c, Interleave.Run (Decisioning.start D calls w) tr c →
        ∀ i row j row', Serves e.posts (calls i) → Serves e.posts (calls j) →
          Decisioning.RecordedBy tr i row → Decisioning.RecordedBy tr j row' →
          row = row' ∧ row.event.appId = r.applicationId := by
  obtain ⟨answer, e, hrun, hbound⟩ := run_bounded O F r mint
  refine ⟨answer, e, hrun, hbound.steps, hbound.completions, hbound.queries hF,
    hbound.pinned.posts, hbound.pinned.explain, ?_⟩
  intro ι _ D calls w tr c h i row j row' hi hj hrow hrow'
  have served : ∀ i row, Serves e.posts (calls i) → Decisioning.RecordedBy tr i row →
      row ∈ c.world.events.rows ∧ row.event.appId = r.applicationId ∧
        row.event.requestId = some r.requestId := by
    rintro i row ⟨p, hp, happ, hrid⟩ hrow
    obtain ⟨hmem, happ', hkey⟩ := Decisioning.recordedBy_spec h hrow
    obtain ⟨hpapp, hprid⟩ := hbound.pinned.posts p hp
    refine ⟨hmem, happ'.trans (happ.trans hpapp), hkey.trans ?_⟩
    exact key_of_requestId (hrid.trans hprid) r.requestId_ne
  obtain ⟨hmem, happ, hrid⟩ := served i row hi hrow
  obtain ⟨hmem', happ', hrid'⟩ := served j row' hj hrow'
  exact ⟨Decisioning.event_unique hmem hmem' ⟨happ, hrid⟩ ⟨happ', hrid'⟩, happ⟩

/-- The framework as it comes: only a call it does not accept goes back to the model. -/
def sampleFramework : Framework where
  handsBack e := e = .invalidCall
  needMoreSteps remaining := remaining < 2

/-- A provider that asks to score over and over, without ever answering. -/
def sampleOutside : Outside where
  complete _ := .ok (.toolUse [.dict [("name".toList, .str scoreTool), ("input".toList, .none),
    ("id".toList, .str "t1".toList)]])
  row _ := .ok (some ⟨some 1, some (.ofRat 15000), some 36, some (.ofRat 100000), some (.ofRat 0),
    some (.ofRat 5), some "A".toList, some "123456782".toList⟩)
  kyc _ := .ok ()
  post _ := .ok (.dict [("outcome".toList, .str "approve".toList), ("score".toList, .int 738),
    ("policy_band".toList, .str "approve".toList), ("principal_reasons".toList, .list [])])
  record _ := .ok none
  search _ _ := .error []

def sampleRequest : Request where
  applicationId := 11
  task := "decision".toList
  requestId := "r1".toList
  policyTopic := none
  requestId_ne := by decide

theorem assistant_bounded_sample :
    ((run sampleOutside sampleFramework sampleRequest fun _ => "t".toList).map fun x =>
      (x.2.steps, x.2.completions, x.2.posts.length)) = some (12, 6, 1) ∧
    ∃ answer e, run sampleOutside sampleFramework sampleRequest (fun _ => "t".toList) =
      some (answer, e) ∧ e.steps ≤ recursionLimit ∧ e.completions ≤ maxSteps ∧
      e.queries.length ≤ 1 ∧ ∀ p ∈ e.posts, p.applicationId = 11 := by
  refine ⟨by decide +kernel, ?_⟩
  obtain ⟨answer, e, hrun, hsteps, hcompl, hqueries, hposts, -⟩ :=
    assistant_bounded sampleOutside sampleFramework (fun _ => rfl) sampleRequest fun _ => "t".toList
  exact ⟨answer, e, hrun, hsteps, hcompl, hqueries, fun p hp => (hposts p hp).1⟩

end Meridian.Assistant
