import Meridian.Assistant.Run
import Meridian.Llm.Client
import Meridian.Llm.Pairing
import Meridian.Python.JsonPrefix

/-!
# Tool calls written as text

On a request that carries tools `complete` refuses a text that `json.loads` reads as a tool action.
It reads the text as it is, and `validate_structured` reads what is left of it without a code fence
and without any white space around it. So a tool action goes through where only the second reading
finds it: inside a fence, or between white space that JSON does not have (`text_call_iff`).

`actionOf_seen` connects `complete` to the completions the agent loop is modelled with.
-/

namespace Meridian.Assistant

open Python Json

/-- An object whose action is `tool`. -/
def isToolAction : Value → Bool
  | .dict members => Llm.claimsTool members
  | _ => false

/-- The message `_generate` makes of what `complete` returns. -/
def generated (r : Llm.Runtime) (x : Llm.Inputs)
    (transport : Llm.CompletionRequest → Except Llm.Raised Llm.Completion) (applicationId : Int)
    (task : Text) (scored : Bool) (minted : Text) : Except Raised Message :=
  match Llm.complete r x transport none with
  | .ok action => toMessage applicationId task scored minted action
  | .error _ => .error .llm

/-- The completion of the agent loop that a text is: its two readings. -/
def seen (r : Llm.Runtime) (text : Text) : Completion :=
  match Llm.isTextToolAction r.depth text with
  | .error _ => .text none none
  | .ok _ =>
    .text (if (strip text).isEmpty then none else (loads r.depth text).toOption)
      (Llm.validated r (some Llm.decisionAssistantSchema) text).toOption

/-- The text stands in a code fence, or in white space JSON does not have. -/
def wrapped (text : Text) : Bool :=
  (Llm.fence.isPrefixOf? (strip text)).isSome ||
    (leading text ++ trailing text).any fun c => !isBlank c

/-- Without its fence and the white space around it the text is a tool action the guards and the
schema accept. -/
def ToolText (r : Llm.Runtime) (text : Text) : Prop :=
  Llm.guardOutput r.toGuard text = .ok () ∧
    ∃ members, loads r.depth (Llm.cleaned text) = .ok (.dict members) ∧
      Llm.claimsTool members = true ∧
      Llm.guardOutput r.toGuard (dumpsRaw (.dict members)) = .ok () ∧
      Llm.validateSchema (.dict members) Llm.decisionAssistantSchema = .ok ()

variable {r : Llm.Runtime} {text : Text}

/-! ## The two readings -/

/-- A fence starts no value, and neither does white space JSON does not have. -/
theorem loads_of_fence {depth : ℕ} {u v : Text}
    (h : leading text ++ (Llm.fence ++ u ++ v) = text) :
    ∃ e, loads depth text = .error (.decode e) := by
  obtain ⟨c, w, hskip, hc⟩ : ∃ c w, skipBlanks text = c :: w ∧ startsValue c = false := by
    by_cases hl : ∀ c ∈ leading text, isBlank c = true
    · refine ⟨Char.ofNat 0x60, Llm.fence.tail ++ u ++ v, ?_, by decide⟩
      rw [← h, skipBlanks_of_all hl]
      rfl
    · have hskip : skipBlanks (leading text) ≠ [] := fun hnil => hl (skipBlanks_eq_nil.mp hnil)
      obtain ⟨c, w, hcw⟩ := List.exists_cons_of_ne_nil hskip
      have hmem : c ∈ skipBlanks (leading text) := by rw [hcw]; exact List.mem_cons_self
      refine ⟨c, w ++ (Llm.fence ++ u ++ v), ?_, not_startsValue_of_isSpace
        (isSpace_of_mem_leading ((List.dropWhile_suffix _).subset hmem))⟩
      rw [← h, skipBlanks_append hskip, hcw]
      rfl
  exact loads_of_startsValue hskip hc

/-- **Where the first reading does not find the action of the second**: exactly in a wrapping. -/
theorem isTextToolAction_eq (h : ToolText r text) :
    Llm.isTextToolAction r.depth text = .ok (!wrapped text) := by
  obtain ⟨hguard, members, hloads, hclaims, -, -⟩ := h
  have hblank : (strip text).isEmpty = false := by
    by_contra hempty
    have hempty : (strip text).isEmpty = true := by simpa using hempty
    rw [Llm.guardOutput, if_pos hempty] at hguard
    exact nomatch hguard
  have hread : loads r.depth text = .ok (.dict members) →
      Llm.isTextToolAction r.depth text = .ok true := by
    intro hloads
    rw [Llm.isTextToolAction, if_neg (by rw [hblank]; exact Bool.false_ne_true), hloads]
    exact congrArg Except.ok hclaims
  have hfail : (∃ e, loads r.depth text = .error (.decode e)) →
      Llm.isTextToolAction r.depth text = .ok false := by
    rintro ⟨e, he⟩
    rw [Llm.isTextToolAction, if_neg (by rw [hblank]; exact Bool.false_ne_true), he]
  have htext := leading_append_strip text
  by_cases hfence : (Llm.fence.isPrefixOf? (strip text)).isSome = true
  · rw [wrapped, hfence]
    obtain ⟨u, hu⟩ := Option.isSome_iff_exists.mp hfence
    rw [isPrefixOf?_iff.mp hu] at htext
    rw [Bool.true_or]
    exact hfail (loads_of_fence htext)
  · have hclean : Llm.cleaned text = strip text := if_neg hfence
    rw [hclean] at hloads
    by_cases hpad : ∀ c ∈ leading text ++ trailing text, isBlank c = true
    · have hw : wrapped text = false := by
        simp only [wrapped, hfence, Bool.false_or, List.any_eq_false, Bool.not_eq_true',
          Bool.not_eq_false]
        exact hpad
      rw [hw]
      refine hread ?_
      rw [← htext]
      exact loads_padded hloads (fun c hc => hpad c (List.mem_append_left _ hc))
        fun c hc => hpad c (List.mem_append_right _ hc)
    · have hw : wrapped text = true := by
        by_contra hne
        refine hpad fun c hc => ?_
        simp only [wrapped, hfence, Bool.false_or, Bool.not_eq_true, List.any_eq_false,
          Bool.not_eq_true', Bool.not_eq_false] at hne
        exact hne c hc
      rw [hw]
      refine hfail ?_
      rw [← htext]
      exact loads_surrounded hloads (fun c hc => isSpace_of_mem_leading hc) hpad

/-! ## What `complete` returns -/

theorem textResult_bound {system : Text} {tools : List Llm.Tool} (htools : tools ≠ []) :
    Llm.textResult r (Llm.decisionAssistant system) tools none text =
      Llm.isTextToolAction r.depth text >>= fun refused =>
        if refused then Llm.refuse .textToolCall
        else Llm.validated r (some Llm.decisionAssistantSchema) text := by
  rw [Llm.textResult, if_neg (by simpa using htools)]
  simp only [Llm.orFallback_none]
  rfl

/-- `_is_text_tool_action` is the test of the agent loop on the first reading. -/
theorem isTextToolAction_of_ok {refused : Bool}
    (h : Llm.isTextToolAction r.depth text = .ok refused) :
    (if (strip text).isEmpty then none else (loads r.depth text).toOption).any isTextToolAction =
      refused := by
  unfold Llm.isTextToolAction at h
  by_cases hempty : (strip text).isEmpty = true
  · rw [if_pos hempty] at h ⊢
    exact Except.ok.inj h
  · rw [if_neg hempty] at h ⊢
    rcases hread : loads r.depth text with (_ | _) | (_ | _ | _ | _ | _ | _ | _) <;>
      rw [hread] at h <;> first | exact Except.ok.inj h | exact nomatch h

/-- **The agent loop is handed what `complete` returns.** -/
theorem actionOf_seen {system : Text} {tools : List Llm.Tool} (htools : tools ≠ []) {v : Value} :
    actionOf (.ok (seen r text)) = .ok v ↔
      Llm.textResult r (Llm.decisionAssistant system) tools none text = .ok v := by
  rw [textResult_bound htools, seen]
  rcases hrefused : Llm.isTextToolAction r.depth text with e | refused
  · constructor <;> intro h <;> exact nomatch h
  · have hparsed := isTextToolAction_of_ok hrefused
    cases refused with
    | true =>
      simp only [actionOf, hparsed, if_true]
      constructor <;> intro h <;> exact nomatch h
    | false =>
      simp only [actionOf, hparsed, Bool.false_eq_true, if_false]
      rcases hvalid : Llm.validated r (some Llm.decisionAssistantSchema) text with e | u
      · constructor <;> intro h
        · exact nomatch h
        · rw [bind_of_ok rfl, if_neg Bool.false_ne_true] at h
          exact nomatch h
      · rw [bind_of_ok rfl, if_neg Bool.false_ne_true]
        simp only [Except.toOption, Except.ok.injEq]

theorem validated_ok {v : Value} :
    Llm.validated r (some Llm.decisionAssistantSchema) text = .ok v ↔
      ∃ members, v = .dict members ∧
        Llm.validateStructured r.toGuard r.depth text Llm.decisionAssistantSchema = .ok members := by
  unfold Llm.validated
  constructor
  · intro h
    obtain ⟨members, hmembers, hv⟩ := of_map_ok h
    exact ⟨members, hv.symm, hmembers⟩
  · rintro ⟨members, rfl, hmembers⟩
    exact map_of_ok hmembers

/-- A text comes out as a tool action exactly if it is one, in a wrapping. -/
theorem textResult_tool {system : Text} {tools : List Llm.Tool} (htools : tools ≠ []) :
    (∃ v, Llm.textResult r (Llm.decisionAssistant system) tools none text = .ok v ∧
        isToolAction v = true) ↔ ToolText r text ∧ wrapped text = true := by
  rw [textResult_bound htools]
  constructor
  · rintro ⟨v, hv, htool⟩
    obtain ⟨refused, hrefused, hv⟩ := of_bind_ok hv
    cases refused with
    | true => exact nomatch hv
    | false =>
      obtain ⟨members, rfl, hmembers⟩ := validated_ok.mp hv
      obtain ⟨hguard, hloads, hdecoded, hschema⟩ := Llm.validateStructured_ok.mp hmembers
      have htext : ToolText r text := ⟨hguard, members, hloads, htool, hdecoded, hschema⟩
      rw [isTextToolAction_eq htext] at hrefused
      exact ⟨htext, by simpa using hrefused⟩
  · rintro ⟨htext, hw⟩
    have hrefused := isTextToolAction_eq htext
    obtain ⟨hguard, members, hloads, hclaims, hdecoded, hschema⟩ := htext
    have hvalid : Llm.validated r (some Llm.decisionAssistantSchema) text = .ok (.dict members) :=
      validated_ok.mpr ⟨members, rfl,
        Llm.validateStructured_ok.mpr ⟨hguard, hloads, hdecoded, hschema⟩⟩
    refine ⟨.dict members, ?_, hclaims⟩
    rw [hw] at hrefused
    rw [bind_of_ok hrefused]
    exact hvalid

/-- A message of tool calls comes from a tool action. -/
theorem isToolAction_of_toMessage {applicationId : Int} {task minted : Text} {scored : Bool}
    {action : Value} {calls : List ToolCall}
    (h : toMessage applicationId task scored minted action = .ok (.calls calls)) :
    isToolAction action = true := by
  unfold toMessage at h
  split at h
  · rename_i members
    dsimp only at h
    split at h
    · rename_i htool
      exact htool
    · split at h <;> exact nomatch h
  · exact nomatch h

/-- **When a text becomes a tool call**: on a request that carries tools, a text that is a tool
action in a wrapping comes out as one, and no other text does. -/
theorem text_call_iff {x : Llm.Inputs} {system : Text}
    (hx : x.template = Llm.decisionAssistant system) {built : Llm.BuiltRequest}
    (hbuilt : Llm.buildRequest r x = .ok built) (htools : built.request.tools ≠ [])
    {transport : Llm.CompletionRequest → Except Llm.Raised Llm.Completion}
    (hreply : transport built.request = .ok ⟨text, []⟩) :
    ((∀ v, Llm.complete r x transport none = .ok v → isToolAction v = false) ∧
      ∀ applicationId task scored minted calls,
        generated r x transport applicationId task scored minted ≠ .ok (.calls calls)) ↔
    ¬(ToolText r text ∧ wrapped text = true) := by
  have hcomplete : Llm.complete r x transport none =
      Llm.textResult r (Llm.decisionAssistant system) built.request.tools none text := by
    rw [Llm.complete, bind_of_ok hbuilt, bind_of_ok hreply, hx]
    rfl
  constructor
  · rintro ⟨hnone, -⟩ hcall
    obtain ⟨v, hv, htool⟩ := (textResult_tool htools).mpr hcall
    rw [hnone v (hcomplete.trans hv)] at htool
    exact Bool.noConfusion htool
  · intro hcall
    have hnone : ∀ v, Llm.complete r x transport none = .ok v → isToolAction v = false := by
      intro v hv
      by_contra htool
      exact hcall ((textResult_tool htools).mp ⟨v, hcomplete.symm.trans hv, by simpa using htool⟩)
    refine ⟨hnone, fun applicationId task scored minted calls h => ?_⟩
    unfold generated at h
    split at h
    · rename_i action haction
      have htool := isToolAction_of_toMessage h
      rw [hnone action haction] at htool
      exact Bool.noConfusion htool
    · exact nomatch h

/-! ## A fenced call -/

/-- An officer's request with one tool bound. -/
def boundRequest : Llm.Inputs where
  template := Llm.decisionAssistant "Report the recorded decision.".toList
  vars := [("request_json".toList, .str "\x7b\"application_id\": 7, \"task\": \"explain\"\x7d".toList)]
  history := []
  tools := .list [.dict [("name".toList, .str "search_policy".toList),
    ("description".toList, .str "Look up the written policy.".toList),
    ("input_schema".toList, .dict [("type".toList, .str "object".toList)])]]
  maxTokens := 10
  tokenBudget := 1000

/-- A provider that answers with a text. -/
def replying (text : Text) : Llm.CompletionRequest → Except Llm.Raised Llm.Completion :=
  fun _ => .ok ⟨text, []⟩

def plainAnswer : Text := "\x7b\"action\": \"final\", \"outcome\": \"approve\"\x7d".toList

def fencedCall : Text :=
  ("```json\n\x7b\"action\": \"tool\", \"tool\": \"search_policy\", " ++
    "\"input\": \x7b\"query\": \"fees\"\x7d\x7d\n```").toList

theorem plainAnswer_call_iff : ∃ built, Llm.buildRequest Llm.asIs boundRequest = .ok built ∧
    built.request.tools ≠ [] ∧
    (((∀ v, Llm.complete Llm.asIs boundRequest (replying plainAnswer) none = .ok v →
          isToolAction v = false) ∧
        ∀ applicationId task scored minted calls,
          generated Llm.asIs boundRequest (replying plainAnswer) applicationId task scored minted ≠
            .ok (.calls calls)) ↔
      ¬(ToolText Llm.asIs plainAnswer ∧ wrapped plainAnswer = true)) := by
  obtain ⟨built, hbuilt, htools⟩ := exists_ok (x := Llm.buildRequest Llm.asIs boundRequest)
    (p := fun b => b.request.tools.length = 1) (by decide +kernel)
  have htools : built.request.tools ≠ [] := by
    intro hnil
    rw [hnil] at htools
    exact absurd htools (by decide)
  exact ⟨built, hbuilt, htools, text_call_iff rfl hbuilt htools rfl⟩

/-- The tools a message calls. -/
def calledTools : Message → List Text
  | .calls calls => calls.map ToolCall.name
  | _ => []

/-- The call in the fence is returned as an action and becomes a call of the policy search. -/
theorem fencedCall_runs :
    (∃ built, Llm.buildRequest Llm.asIs boundRequest = .ok built ∧ built.request.tools.length = 1) ∧
    (∃ v, Llm.complete Llm.asIs boundRequest (replying fencedCall) none = .ok v ∧
      isToolAction v = true) ∧
    ∃ m, generated Llm.asIs boundRequest (replying fencedCall) 7 "explain".toList false
        "call_1".toList = .ok m ∧ calledTools m = [searchTool] :=
  ⟨exists_ok (by decide +kernel), exists_ok (by decide +kernel), exists_ok (by decide +kernel)⟩

end Meridian.Assistant
