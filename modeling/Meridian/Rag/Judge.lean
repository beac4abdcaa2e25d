import Meridian.Python.JsonCut
import Meridian.Rag.Evaluation

/-!
# The judge

`BedrockEvaluator` of the harness: `_invoke` with its one retry, the spent cases of `grade`, and
what a reply is read as. A `Provider` is the client, which may go by everything sent to it before;
what was sent is kept in the state, oldest first.

* `gradeAll_sampled`: over any sequence of calls an id is sent to the model once, or twice where
  the first call raised.
* `firstJsonObject_eq`: the object a reply is read as stands at the first opening brace where one
  can be read, which need not be the brace the reply opens with.
* `truncated_reply_iff`: a reply cut off by the token cap is no grade unless an object inside it is
  complete and gives a state; `truncated_reply_graded` is one that is a grade.
* `grade_agrees`: a call is what the run takes it for.

Out of scope: the body of the request, and the texts of the errors.
-/

namespace Meridian.Rag

open Python Python.Json

/-! ## What a reply holds -/

/-- `_first_json_object`. The decoder raises a `ValueError`, or a `RecursionError`, which is not
one. -/
def firstJsonObject (depth : ℕ) : Text → Except Fault (Option (List (Text × Value)))
  | [] => .ok none
  | c :: t =>
    if c ≠ '{' then firstJsonObject depth t
    else
      match scanOnce depth (c :: t) with
      | .ok (.dict obj, _) => .ok (some obj)
      | .error .recursion => .error .recursion
      | _ => firstJsonObject depth t

/-- What `invoke_model` returned. -/
inductive Response
  /-- its body, decoded -/
  | body (t : Text)
  /-- reading the body raises an error that `grade` catches -/
  | malformed
  /-- reading the body raises another error -/
  | broken

inductive GradeError
  | alreadyGraded (id : Text)
  | provider
  | recursion
  | unread
  deriving DecidableEq

/-- `["content"][0]["text"]`, where none of the three raises and the text is one. -/
def innerText : Value → Option Text
  | .dict ms =>
    match ms.lookup "content".toList with
    | some (.list (.dict inner :: _)) =>
      match inner.lookup "text".toList with
      | some (.str t) => some t
      | _ => none
    | _ => none
  | _ => none

/-- The text of a reply; none where `grade` catches what was raised. -/
def replyText (depth : ℕ) : Response → Except GradeError (Option Text)
  | .broken => .error .unread
  | .malformed => .ok none
  | .body t =>
    match loads depth t with
    | .ok v => .ok (innerText v)
    | .error .recursion => .error .recursion
    | .error _ => .ok none

/-- `payload` -/
def payloadOf (depth : ℕ) (r : Response) : Except GradeError (Option (List (Text × Value))) := do
  match ← replyText depth r with
  | none => pure none
  | some t => (firstJsonObject depth t).mapError fun _ => .recursion

/-! ## The evaluator -/

/-- A call of `invoke_model`. -/
structure Call where
  case : GradingCase
  raised : Bool

/-- The client: it raises, or returns. -/
abbrev Provider := List Call → GradingCase → Option Response

structure BedrockEvaluator where
  graded : List Text
  calls : ℕ
  retries : ℕ
  sent : List Call

/-- `__init__` -/
def BedrockEvaluator.init : BedrockEvaluator := ⟨[], 0, 0, []⟩

/-- `_MAX_ATTEMPTS` -/
def maxAttempts : ℕ := 2

namespace BedrockEvaluator

variable (P : Provider) (c : GradingCase)

/-- The loop of `_invoke`, with so many attempts left. -/
def attempts : ℕ → BedrockEvaluator → BedrockEvaluator × Option Response
  | 0, e => (e, none)
  | n + 1, e =>
    match P e.sent c with
    | some response =>
      ({ e with calls := e.calls + 1, sent := e.sent ++ [⟨c, false⟩] }, some response)
    | none =>
      attempts n
        { e with
          calls := e.calls + 1
          retries := if n = 0 then e.retries else e.retries + 1
          sent := e.sent ++ [⟨c, true⟩] }

/-- `_invoke` -/
def invoke (e : BedrockEvaluator) : BedrockEvaluator × Option Response :=
  attempts P c maxAttempts e

/-- `grade`: the case is spent before the call. -/
def grade (depth : ℕ) (e : BedrockEvaluator) : BedrockEvaluator × Except GradeError Verdicts :=
  if c.queryId ∈ e.graded then (e, .error (.alreadyGraded c.queryId))
  else
    let (e, response) := invoke P c { e with graded := c.queryId :: e.graded }
    match response with
    | none => (e, .error .provider)
    | some r => (e, (payloadOf depth r).map readReply)

/-- The evaluator after a sequence of calls, however each of them ends. -/
def gradeAll (depth : ℕ) (e : BedrockEvaluator) (cases : List GradingCase) : BedrockEvaluator :=
  cases.foldl (fun e c => (grade P c depth e).1) e

/-! ## One sample -/

variable {P} {c} {e : BedrockEvaluator} {depth : ℕ} {id : Text}

/-- The calls for an id. -/
def callsFor (id : Text) (sent : List Call) : List Call :=
  sent.filter fun call => call.case.queryId = id

/-- The id was sent once at most, or a second time after the first call raised. -/
def Sampled (id : Text) (sent : List Call) : Prop :=
  (callsFor id sent).length ≤ 2 ∧
    ∀ first second, callsFor id sent = [first, second] → first.raised = true

/-- **What `_invoke` sends**: one call, or two of which the first raised. -/
theorem invoke_cases (P : Provider) (c : GradingCase) (e : BedrockEvaluator) :
    (invoke P c e).1.graded = e.graded ∧
      ((invoke P c e).1.sent = e.sent ++ [⟨c, false⟩] ∨
        ∃ raised, (invoke P c e).1.sent = e.sent ++ [⟨c, true⟩, ⟨c, raised⟩]) := by
  unfold invoke maxAttempts attempts
  cases P e.sent c with
  | some r => exact ⟨rfl, .inl rfl⟩
  | none =>
    unfold attempts
    dsimp only
    cases P (e.sent ++ [⟨c, true⟩]) c with
    | some r => exact ⟨rfl, .inr ⟨false, by simp⟩⟩
    | none => exact ⟨rfl, .inr ⟨true, by simp [attempts]⟩⟩

/-- **What `grade` does to the evaluator**: nothing where the case is spent. -/
theorem grade_cases (P : Provider) (c : GradingCase) (depth : ℕ) (e : BedrockEvaluator) :
    (c.queryId ∈ e.graded ∧ (grade P c depth e).1 = e) ∨
      (c.queryId ∉ e.graded ∧
        (grade P c depth e).1 = (invoke P c { e with graded := c.queryId :: e.graded }).1) := by
  by_cases hspent : c.queryId ∈ e.graded
  · exact .inl ⟨hspent, by simp [grade, hspent]⟩
  · refine .inr ⟨hspent, ?_⟩
    simp only [grade, hspent, if_false]
    split <;> rfl

/-- What is sent is spent, and each id is sampled once. -/
structure Bounded (e : BedrockEvaluator) : Prop where
  spent : ∀ id, id ∉ e.graded → callsFor id e.sent = []
  sampled : ∀ id, Sampled id e.sent

theorem callsFor_append (id : Text) (sent more : List Call) :
    callsFor id (sent ++ more) = callsFor id sent ++ callsFor id more :=
  List.filter_append ..

theorem callsFor_of_ne (hid : c.queryId ≠ id) (raised : List Bool) :
    callsFor id (raised.map fun r => ⟨c, r⟩) = [] := by
  refine List.filter_eq_nil_iff.mpr fun call hcall => ?_
  obtain ⟨r, -, rfl⟩ := List.mem_map.mp hcall
  simpa using hid

theorem callsFor_self (c : GradingCase) (raised : List Bool) :
    callsFor c.queryId (raised.map fun r => ⟨c, r⟩) = raised.map fun r => ⟨c, r⟩ := by
  refine List.filter_eq_self.mpr fun call hcall => ?_
  obtain ⟨r, -, rfl⟩ := List.mem_map.mp hcall
  simp

theorem bounded_init : Bounded BedrockEvaluator.init :=
  ⟨fun _ _ => rfl, fun _ => ⟨Nat.zero_le _, nofun⟩⟩

/-- One call keeps the bound. -/
theorem grade_bounded (h : Bounded e) : Bounded (grade P c depth e).1 := by
  obtain ⟨-, heq⟩ | ⟨hfresh, heq⟩ := grade_cases P c depth e
  · rw [heq]
    exact h
  · obtain ⟨hgraded, hsent⟩ := invoke_cases P c { e with graded := c.queryId :: e.graded }
    obtain ⟨raised, hsent, hshape⟩ : ∃ raised : List Bool,
        (grade P c depth e).1.sent = e.sent ++ raised.map (fun r => ⟨c, r⟩) ∧
          (raised = [false] ∨ ∃ r, raised = [true, r]) := by
      rw [heq]
      obtain hsent | ⟨r, hsent⟩ := hsent
      · exact ⟨[false], hsent, .inl rfl⟩
      · exact ⟨[true, r], hsent, .inr ⟨r, rfl⟩⟩
    refine ⟨fun id hid => ?_, fun id => ?_⟩
    · rw [heq, hgraded, List.mem_cons, not_or] at hid
      rw [hsent, callsFor_append, h.spent id hid.2, callsFor_of_ne (Ne.symm hid.1)]
      rfl
    · by_cases hid : c.queryId = id
      · subst hid
        rw [Sampled, hsent, callsFor_append, h.spent _ hfresh, List.nil_append, callsFor_self]
        obtain rfl | ⟨r, rfl⟩ := hshape
        · exact ⟨by simp, fun first second hcalls => absurd (congrArg List.length hcalls) (by simp)⟩
        · refine ⟨by simp, fun first second hcalls => ?_⟩
          rw [← (List.cons.inj hcalls).1]
      · rw [Sampled, hsent, callsFor_append, callsFor_of_ne hid, List.append_nil]
        exact h.sampled id

/-- **No case is sampled twice**, whatever the provider does. -/
theorem gradeAll_sampled (P : Provider) (depth : ℕ) (cases : List GradingCase) :
    Bounded (gradeAll P depth BedrockEvaluator.init cases) := by
  unfold gradeAll
  refine List.foldlRecOn cases _ bounded_init fun e he c _ => ?_
  exact grade_bounded he

end BedrockEvaluator

open BedrockEvaluator (Sampled gradeAll gradeAll_sampled)

/-! ## The object of a reply -/

section Objects

variable {depth i : ℕ} {c : Char} {t pre cut whole : Text} {obj : List (Text × Value)}

/-- The decoder raises a `ValueError` at a place. -/
def RefusedAt (depth : ℕ) (t : Text) (i : ℕ) : Prop :=
  ∃ e, scanOnce depth (t.drop i) = .error e ∧ e ≠ .recursion

/-- The first opening brace at which an object is read stands at a place. -/
structure FirstObjectAt (depth : ℕ) (t : Text) (i : ℕ) (obj : List (Text × Value)) : Prop where
  read : ∃ r, scanOnce depth (t.drop i) = .ok (.dict obj, r)
  refused : ∀ j < i, t[j]? = some '{' → RefusedAt depth t j

theorem firstObjectAt_zero :
    FirstObjectAt depth t 0 obj ↔ ∃ r, scanOnce depth t = .ok (.dict obj, r) :=
  ⟨fun h => h.read, fun h => ⟨h, nofun⟩⟩

theorem firstObjectAt_succ :
    FirstObjectAt depth (c :: t) (i + 1) obj ↔
      (c = '{' → RefusedAt depth (c :: t) 0) ∧ FirstObjectAt depth t i obj := by
  constructor
  · intro h
    refine ⟨fun hc => h.refused 0 (Nat.succ_pos i) (by rw [hc]; rfl), h.read, fun j hj hbrace => ?_⟩
    exact h.refused (j + 1) (Nat.succ_lt_succ hj) hbrace
  · rintro ⟨hc, hread, hrefused⟩
    refine ⟨hread, fun j hj hbrace => ?_⟩
    cases j with
    | zero => exact hc (Option.some.inj hbrace)
    | succ j => exact hrefused j (Nat.lt_of_succ_lt_succ hj) hbrace

/-- A text without an opening brace before it is read as it is. -/
theorem firstJsonObject_append (hpre : '{' ∉ pre) (t : Text) :
    firstJsonObject depth (pre ++ t) = firstJsonObject depth t := by
  induction pre with
  | nil => rfl
  | cons c pre ih =>
    rw [List.mem_cons, not_or] at hpre
    rw [List.cons_append, firstJsonObject, if_pos (Ne.symm hpre.1), ih hpre.2]

/-- **The object of a text** stands at the first opening brace where one is read. -/
theorem firstJsonObject_eq :
    firstJsonObject depth t = .ok (some obj) ↔ ∃ i, FirstObjectAt depth t i obj := by
  induction t with
  | nil =>
    refine ⟨nofun, fun ⟨i, h⟩ => ?_⟩
    obtain ⟨r, hr⟩ := h.read
    rw [List.drop_nil] at hr
    obtain ⟨u, hu⟩ := brace_of_scanOnce hr
    exact nomatch hu
  | cons c t ih =>
    have hsplit : (∃ i, FirstObjectAt depth (c :: t) i obj) ↔
        (∃ r, scanOnce depth (c :: t) = .ok (.dict obj, r)) ∨
          ((c = '{' → RefusedAt depth (c :: t) 0) ∧ ∃ i, FirstObjectAt depth t i obj) := by
      constructor
      · rintro ⟨i, h⟩
        cases i with
        | zero => exact .inl h.read
        | succ i =>
          obtain ⟨hc, h⟩ := firstObjectAt_succ.mp h
          exact .inr ⟨hc, i, h⟩
      · rintro (h | ⟨hc, i, h⟩)
        · exact ⟨0, firstObjectAt_zero.mpr h⟩
        · exact ⟨i + 1, firstObjectAt_succ.mpr ⟨hc, h⟩⟩
    rw [hsplit, ← ih, firstJsonObject]
    by_cases hc : c = '{'
    · subst hc
      simp only [ne_eq, not_true_eq_false, if_false, RefusedAt, List.drop_zero, forall_const]
      cases hscan : scanOnce depth ('{' :: t) with
      | ok read =>
        obtain ⟨v, r⟩ := read
        obtain ⟨ms, rfl⟩ := scanOnce_brace hscan
        simp
      | error e => cases e <;> simp
    · have hread : ∀ r, scanOnce depth (c :: t) ≠ .ok (.dict obj, r) := by
        intro r hr
        obtain ⟨u, hu⟩ := brace_of_scanOnce hr
        exact hc (List.cons.inj hu).1
      simp [hc, hread]

/-- The object that is left of one whose end is cut off stands inside it. -/
theorem FirstObjectAt.pos (h : FirstObjectAt depth cut i obj) (hwhole : ObjectText whole)
    (hcut : cut <+: whole) (hne : cut ≠ whole) : 0 < i := by
  obtain ⟨r, hr⟩ := h.read
  refine Nat.pos_of_ne_zero ?_
  rintro rfl
  exact scanOnce_cut hwhole hcut hne depth obj r hr

end Objects

/-! ## A call of the run -/

/-- The call a run makes of the judge in a state. -/
def asInvoke (P : Provider) (depth : ℕ) (e : BedrockEvaluator) : Invoke := fun c =>
  (BedrockEvaluator.invoke P c { e with graded := c.queryId :: e.graded }).2.bind fun r =>
    (payloadOf depth r).toOption

/-- **A call is what the run takes it for**: the same verdicts, and the same spent cases. -/
theorem grade_agrees (P : Provider) (c : GradingCase) (depth : ℕ) (e : BedrockEvaluator)
    (v : Verdicts) (graded : List Text) :
    Rag.grade (asInvoke P depth e) e.graded c = .ok (v, graded) ↔
      (BedrockEvaluator.grade P c depth e).2 = .ok v ∧
        c.queryId ∉ e.graded ∧ c.queryId :: e.graded = graded := by
  unfold Rag.grade BedrockEvaluator.grade asInvoke
  by_cases hspent : c.queryId ∈ e.graded
  · simp [hspent]
  · simp only [List.contains_iff_mem, hspent, if_false]
    cases (BedrockEvaluator.invoke P c { e with graded := c.queryId :: e.graded }).2 with
    | none => simp
    | some r =>
      cases hpayload : payloadOf depth r with
      | error err => simp [hpayload, Except.toOption, Except.map]
      | ok payload => simp [hpayload, Except.toOption, Except.map]

/-! ## A reply that was cut off -/

/-- The keys of a reply, with the states that grade. -/
def axes : List (Text × List Verdict) :=
  [("conclusion_verdict".toList, [.supported, .unsupported]),
    ("summary_verdict".toList, [.supported, .unsupported]),
    ("prohibited_verdict".toList, [.avoided, .asserted])]

/-- The object gives a state of its own axis under one of the keys. -/
def GivesState (obj : List (Text × Value)) : Prop :=
  ∃ axis ∈ axes, ∃ s ∈ axis.2, obj.lookup axis.1 = some (.str s.text)

/-- All three verdicts are for a human to find. -/
def Verdicts.Ungraded (v : Verdicts) : Prop :=
  v.conclusion = .humanReview ∧ v.summary = .humanReview ∧ v.prohibited = .humanReview

theorem Verdict.text_injective : Function.Injective Verdict.text := by
  intro a b h
  cases a <;> cases b <;> first | rfl | exact absurd h (by decide)

/-- A value is for a human to find unless it is the text of one of the other states. -/
theorem stateOrHumanReview_eq (states : List Verdict) (hstates : .humanReview ∉ states)
    (v : Option Value) :
    stateOrHumanReview v (states ++ [.humanReview]) = .humanReview ↔
      ∀ s ∈ states, v ≠ some (.str s.text) := by
  by_cases hv : ∃ t, v = some (.str t)
  · obtain ⟨t, rfl⟩ := hv
    have htext : ∀ s : Verdict, some (Value.str t) ≠ some (.str s.text) ↔ ¬s.text = t := by
      simp [eq_comm]
    simp only [stateOrHumanReview, List.find?_append, htext]
    cases hfind : states.find? fun s => s.text = t with
    | none =>
      refine ⟨fun _ s hs => by simpa using List.find?_eq_none.mp hfind s hs, fun _ => ?_⟩
      by_cases ht : Verdict.humanReview.text = t
      · simp [ht]
      · simp [ht]
    | some s =>
      have hs := List.mem_of_find?_eq_some hfind
      have ht := List.find?_some hfind
      refine ⟨fun h => absurd hs ?_, fun h => absurd (by simpa using ht) (h s hs)⟩
      simp only [Option.some_or, Option.getD_some] at h
      rw [h]
      exact hstates
  · have hstr : ∀ t, v ≠ some (.str t) := fun t ht => hv ⟨t, ht⟩
    refine iff_of_true ?_ fun s _ => hstr s.text
    unfold stateOrHumanReview
    split
    · exact absurd rfl (hstr _)
    · rfl

theorem readReply_ungraded (obj : List (Text × Value)) :
    (readReply (some obj)).Ungraded ↔ ¬GivesState obj := by
  have hcase : ∀ v, stateOrHumanReview v [.supported, .unsupported, .humanReview] = .humanReview ↔
      ∀ s ∈ [Verdict.supported, .unsupported], v ≠ some (.str s.text) :=
    stateOrHumanReview_eq [.supported, .unsupported] (by decide)
  have hprohibited : ∀ v, stateOrHumanReview v [.avoided, .asserted, .humanReview] = .humanReview ↔
      ∀ s ∈ [Verdict.avoided, .asserted], v ≠ some (.str s.text) :=
    stateOrHumanReview_eq [.avoided, .asserted] (by decide)
  simp only [Verdicts.Ungraded, readReply, hcase, hprohibited, GivesState, axes]
  simp

/-- The text that the reply to a call of `grade` holds. -/
def received (P : Provider) (c : GradingCase) (depth : ℕ) (e : BedrockEvaluator) : Option Text := do
  if c.queryId ∈ e.graded then none
  let r ← (BedrockEvaluator.invoke P c { e with graded := c.queryId :: e.graded }).2
  ((replyText depth r).toOption).join

/-- What a call returns is what the text it received is read as. -/
theorem grade_of_received {P : Provider} {c : GradingCase} {depth : ℕ} {e : BedrockEvaluator}
    {t : Text} (h : received P c depth e = some t) :
    (BedrockEvaluator.grade P c depth e).2 =
      ((firstJsonObject depth t).mapError fun _ => GradeError.recursion).map readReply := by
  unfold received at h
  by_cases hspent : c.queryId ∈ e.graded
  · simp [hspent] at h
  · simp only [hspent, if_false] at h
    obtain ⟨-, r, hr, htext⟩ : ∃ u : Unit, ∃ r,
        (BedrockEvaluator.invoke P c { e with graded := c.queryId :: e.graded }).2 = some r ∧
          (replyText depth r).toOption.join = some t := by
      simpa [Option.bind_eq_some_iff] using h
    have htext : replyText depth r = .ok (some t) := by
      cases hreply : replyText depth r with
      | error e => simp [hreply, Except.toOption] at htext
      | ok text => simpa [hreply, Except.toOption] using htext
    simp only [BedrockEvaluator.grade, hspent, if_false, hr, payloadOf, htext]
    rfl

/-- **What is left of a reply that was cut off is no grade** just where the object that is read of
it, if one inside it is complete, gives no state. -/
theorem ungraded_iff_of_cut {P : Provider} {c : GradingCase} {depth : ℕ} {e : BedrockEvaluator}
    {pre cut whole : Text} (h : received P c depth e = some (pre ++ cut)) (hpre : '{' ∉ pre)
    (hwhole : ObjectText whole) (hcut : cut <+: whole) (hne : cut ≠ whole) :
    (∀ v, (BedrockEvaluator.grade P c depth e).2 = .ok v → v.Ungraded) ↔
      ∀ i obj, 0 < i → FirstObjectAt depth cut i obj → ¬GivesState obj := by
  rw [grade_of_received h, firstJsonObject_append hpre]
  constructor
  · intro hungraded i obj _ hfirst
    rw [← readReply_ungraded]
    refine hungraded _ ?_
    rw [firstJsonObject_eq.mpr ⟨i, hfirst⟩]
    rfl
  · intro hstates v hv
    obtain ⟨payload, hpayload, rfl⟩ := of_map_ok hv
    cases hobject : firstJsonObject depth cut with
    | error e => simp [hobject, Except.mapError] at hpayload
    | ok read =>
      rw [hobject] at hpayload
      cases hpayload
      cases payload with
      | none => exact ⟨rfl, rfl, rfl⟩
      | some obj =>
        obtain ⟨i, hfirst⟩ := firstJsonObject_eq.mp hobject
        exact (readReply_ungraded obj).mpr
          (hstates i obj (hfirst.pos hwhole hcut hne) hfirst)

/-- A client that replies with the text. -/
def replying (t : Text) : Provider := fun _ _ =>
  some (.body (dumps (.dict [("content".toList, .list [.dict [("text".toList, .str t)]])])))

/-- **No case is sampled twice, and a reply that was cut off is a grade only by an object inside
it**: over every sequence of calls an id is sent once, or a second time after the first call
raised; and the three verdicts of a reply that is a part of an object's text are for a human to find
just where no object that is complete in it, and the first to be, gives a state. -/
theorem truncated_reply_iff (P : Provider) (depth : ℕ) :
    (∀ cases id, Sampled id (gradeAll P depth .init cases).sent) ∧
      ∀ (e : BedrockEvaluator) (c : GradingCase) (pre cut whole : Text),
        received P c depth e = some (pre ++ cut) → '{' ∉ pre → ObjectText whole → cut <+: whole →
          cut ≠ whole →
            ((∀ v, (BedrockEvaluator.grade P c depth e).2 = .ok v → v.Ungraded) ↔
              ∀ i obj, 0 < i → FirstObjectAt depth cut i obj → ¬GivesState obj) :=
  ⟨fun cases id => (gradeAll_sampled P depth cases).sampled id,
    fun _ _ _ _ _ h hpre hwhole hcut hne => ungraded_iff_of_cut h hpre hwhole hcut hne⟩

/-- The verdict stands in an object of its own. -/
def nestedReply : Text :=
  '{' :: "\"verdicts\": \x7b\"conclusion_verdict\": \"supported\"\x7d\x7d".toList

def blankCase : GradingCase := ⟨[], [], [], [], [], []⟩

/-- **A reply that was cut off is graded by the object inside it**, here without its last brace. -/
theorem truncated_reply_graded :
    ObjectText nestedReply ∧ nestedReply.dropLast <+: nestedReply ∧
      nestedReply.dropLast ≠ nestedReply ∧
      received (replying nestedReply.dropLast) blankCase 4 .init = some nestedReply.dropLast ∧
      (BedrockEvaluator.grade (replying nestedReply.dropLast) blankCase 4 .init).2 =
        .ok ⟨.supported, .humanReview, .humanReview, []⟩ :=
  ⟨objectText_of_returns 4 (by decide +kernel), List.dropLast_prefix _, by decide +kernel,
    by decide +kernel, by decide +kernel⟩

/-- The verdict of this one is not complete. -/
def flatReply : Text := '{' :: "\"conclusion_verdict\": \"supported\"\x7d".toList

/-- No object is left of it, and a human decides on all three axes. -/
theorem truncated_reply_flat :
    (∀ v, (BedrockEvaluator.grade (replying ("So: ".toList ++ flatReply.dropLast)) blankCase 4
        .init).2 = .ok v → v.Ungraded) ∧
      (BedrockEvaluator.grade (replying ("So: ".toList ++ flatReply.dropLast)) blankCase 4 .init).2 =
        .ok ⟨.humanReview, .humanReview, .humanReview,
          "evaluator reply could not be parsed".toList⟩ := by
  have hnone : (firstJsonObject 4 flatReply.dropLast).toOption.map Option.isSome = some false := by
    decide +kernel
  have hiff := (truncated_reply_iff (replying ("So: ".toList ++ flatReply.dropLast)) 4).2 .init
    blankCase "So: ".toList flatReply.dropLast flatReply (by decide +kernel) (by decide)
    (objectText_of_returns 4 (by decide +kernel)) (List.dropLast_prefix _) (by decide +kernel)
  refine ⟨hiff.mpr fun i obj _ hfirst => ?_, by decide +kernel⟩
  rw [firstJsonObject_eq.mpr ⟨i, hfirst⟩] at hnone
  cases hnone

end Meridian.Rag
