import Meridian.Python.Value
import Meridian.Workflow.Graph

/-!
# The officer's assistant

`assistant.run` with its three tool functions, the chat model that turns a completion into one tool
call or a final answer, and the two nodes of the agent loop, up to the read that validates the final
answer.

What comes from outside is an `Outside`: the provider's completions, the database, the identity
gate, decision-service and the policy search. Each answers from everything the run has done so far,
and each may raise. `Framework` is what the agent framework decides: which exceptions of a tool go
back to the model as an error message, and when the model's node stops short of a tool call because
too few steps remain.

`Effects` collects what a run does: its steps, its calls of the model, the decision requests it
posts and the policy queries it runs.
-/

namespace Meridian.Assistant

open Python Workflow

/-! ## What is exchanged -/

/-- What ends a run without an answer. -/
inductive Raised
  /-- `ApplicationNotFound` -/
  | applicationNotFound
  /-- `AssistantError` -/
  | assistantError
  /-- `LLMError` -/
  | llm
  /-- a tool call whose name or arguments the framework does not accept -/
  | invalidCall
  /-- an exception of the database, of the identity gate or of decision-service -/
  | service (cause : Text)
  /-- an exception of the policy search -/
  | retrieval (cause : Text)
  /-- `GraphRecursionError` -/
  | recursionLimit
  | misread (m : Misread)
  deriving DecidableEq

/-- The columns `decision_request_payload` selects of an application. -/
structure Row where
  applicantId : Option Int
  amount : Option Double
  termMonths : Option Int
  income : Option Double
  monthlyDebt : Option Double
  employmentYears : Option Double
  name : Option Text
  ssn : Option Text
  deriving DecidableEq

/-- The body of `POST /decisions`. -/
structure Payload where
  applicationId : Int
  applicantId : Option Int
  name : Option Text
  ssn : Text
  requestedAmount : Option Double
  termMonths : Option Int
  annualIncome : Double
  monthlyDebt : Double
  employmentYears : Double
  requestId : Option Text
  deriving DecidableEq

/-- A tool call in an assistant message. -/
structure ToolCall where
  name : Text
  args : Value
  id : Text

/-- The messages of a run; an assistant message has an action as its content, or tool calls. -/
inductive Message
  | human
  | action (content : Value)
  | calls (calls : List ToolCall)
  /-- `Sorry, need more steps to process this request.` -/
  | apology
  | tool (name : Text) (result : Value) (callId : Text)

/-- `PolicyAnswer` -/
structure PolicyAnswer where
  isHit : Bool
  score : Double
  chunkId : Text
  text : Text
  reason : Text
  deriving DecidableEq

/-- A provider completion: `tool_use` blocks, or a text. What the text is to `json.loads` and what
it is to `validate_structured`, which strips a code fence first, need not be the same. -/
inductive Completion
  | toolUse (blocks : List Value)
  | text (parsed validated : Option Value)

/-- What a run has done and asked of others, oldest first. -/
structure Effects where
  /-- the nodes the agent loop has run -/
  steps : ℕ := 0
  /-- the calls of the model -/
  completions : ℕ := 0
  /-- the requests to decide -/
  posts : List Payload := []
  /-- the calls of `_search_policy` -/
  queries : List Text := []

/-- The messages, the `state` the tools share, and the effects so far. -/
structure State where
  messages : List Message
  score : Option Value := none
  citations : List PolicyAnswer := []
  searches : List PolicyAnswer := []
  effects : Effects := {}

/-- An officer's request; `requestId` is the caller's key or a fresh one. -/
structure Request where
  applicationId : Int
  task : Text
  requestId : Text
  policyTopic : Option Text
  requestId_ne : requestId ≠ []

/-- The world around a run. -/
structure Outside where
  complete : State → Except Text Completion
  row : State → Except Text (Option Row)
  /-- `require_kyc_passed` -/
  kyc : State → Except Text Unit
  post : State → Except Text Value
  /-- `GET /decisions/{app_id}/record`; `none` is a 404 -/
  record : State → Except Text (Option Value)
  search : State → Text → Except Text PolicyAnswer

/-- What the agent framework decides. -/
structure Framework where
  /-- `handle_tool_errors`: the exception goes back to the model as a message -/
  handsBack : Raised → Bool
  /-- with this many steps left, a completion with tool calls becomes the apology -/
  needMoreSteps : ℕ → Bool

/-- `_MAX_STEPS` -/
def maxSteps : ℕ := 6

/-- `_RECURSION_LIMIT` -/
def recursionLimit : ℕ := 2 * maxSteps

def scoreTool : Text := "score_application".toList
def recordTool : Text := "get_decision_record".toList
def searchTool : Text := "search_policy".toList

/-! ## The tools -/

/-- `decision_request_payload` -/
def decisionRequestPayload (applicationId : Int) : Except Text (Option Row) → Except Raised Payload
  | .error cause => .error (.service cause)
  | .ok none => .error .applicationNotFound
  | .ok (some r) =>
    match r.monthlyDebt with
    | none => .error (.service "monthly_debt is not recorded".toList)
    | some debt => .ok {
        applicationId := applicationId
        applicantId := r.applicantId
        name := r.name
        ssn := r.ssn.getD []
        requestedAmount := r.amount
        termMonths := r.termMonths
        annualIncome := r.income.getD (.finite .zero)
        monthlyDebt := debt
        employmentYears := r.employmentYears.getD (.finite .zero)
        requestId := none }

/-- `[r["code"] for r in reasons or []]` -/
def reasonCodes (reasons : Value) : Except Misread Value :=
  match reasons.orElse (.list []) with
  | .list items => (items.mapM (Value.item "code".toList)).map .list
  | _ => .error .typeError

/-- The projection of a decision the score tool returns. -/
def scoreResult (resp : Value) : Except Misread Value := do
  let outcome ← resp.get "outcome".toList
  let score ← resp.get "score".toList
  let band ← resp.get "policy_band".toList
  let codes ← reasonCodes (← resp.get "principal_reasons".toList)
  pure (.dict [("status".toList, .str "recorded".toList), ("outcome".toList, outcome),
    ("score".toList, score), ("policy_band".toList, band), ("reason_codes".toList, codes)])

/-- The projection of a record the record tool returns. -/
def recordResult : Option Value → Except Misread Value
  | none => .ok (.dict [("status".toList, .str "not_found".toList)])
  | some body => do
    let status ← body.get "status".toList
    let outcome ← body.get "outcome".toList
    let band ← body.get "policy_band".toList
    let drivers ← body.get "drivers".toList
    let score ← (drivers.orElse (.dict [])).get "model_score".toList
    let codes ← reasonCodes (← body.get "principal_reasons".toList)
    pure (.dict [("status".toList, status), ("outcome".toList, outcome),
      ("policy_band".toList, band), ("score".toList, score), ("reason_codes".toList, codes)])

def reading {α : Type} : Except Misread α → Except Raised α
  | .ok a => .ok a
  | .error m => .error (.misread m)

def fromService {α : Type} : Except Text α → Except Raised α
  | .ok a => .ok a
  | .error cause => .error (.service cause)

/-- A tool's answer, and the state it leaves, also when it raises. -/
abbrev Answered := Except Raised Value × State

def State.posted (s : State) (p : Payload) : State :=
  { s with effects := { s.effects with posts := s.effects.posts ++ [p] } }

def State.searched (s : State) (query : Text) : State :=
  { s with effects := { s.effects with queries := s.effects.queries ++ [query] } }

variable (O : Outside) (F : Framework) (r : Request)

/-- `_score_application` -/
def scoreApplication (s : State) : Answered :=
  match decisionRequestPayload r.applicationId (O.row s) with
  | .error e => (.error e, s)
  | .ok payload =>
    match O.kyc s with
    | .error cause => (.error (.service cause), s)
    | .ok () =>
      (do reading (scoreResult (← fromService (O.post s))),
        s.posted { payload with requestId := some r.requestId })

/-- `_get_decision_record` -/
def getDecisionRecord (s : State) : Except Raised Value := do
  reading (recordResult (← fromService (O.record s)))

/-- `_score`: the record on the explain path, and one decision in a run. -/
def score (s : State) : Answered :=
  if r.task = "explain".toList then (getDecisionRecord O s, s)
  else
    match s.score with
    | some result => (.ok result, s)
    | none =>
      match scoreApplication O r s with
      | (.error e, s) => (.error e, s)
      | (.ok result, s) => (.ok result, { s with score := some result })

/-- `abstain(policy_retrieval.DECISION_TASK)` -/
def abstained : PolicyAnswer where
  isHit := false
  score := .finite .zero
  chunkId := []
  text := []
  reason := "refused_on_decision_task".toList

/-- `_search_policy` -/
def searchPolicy (query : Text) (s : State) : Except Raised PolicyAnswer :=
  if r.task = "decision".toList then .ok abstained
  else
    match O.search s query with
    | .ok answer => .ok answer
    | .error cause => .error (.retrieval cause)

/-- `_policy_result` -/
def policyResult (answer : PolicyAnswer) : Value :=
  .dict ([("status".toList,
      .str (if answer.isHit then "policy_hit".toList else "policy_abstain".toList)),
    ("score".toList, .float answer.score)] ++
    match r.policyTopic with
    | none => []
    | some topic => [("policy_topic".toList, .str topic)])

/-- The answer among the searches, and among the citations when it is a new hit. -/
def State.found (s : State) (answer : PolicyAnswer) : State :=
  { s with
    searches := s.searches ++ [answer]
    citations :=
      if answer.isHit ∧ s.citations.all (·.chunkId ≠ answer.chunkId) then s.citations ++ [answer]
      else s.citations }

/-- `_policy`: one search in a run. -/
def policy (query : Text) (s : State) : Answered :=
  match s.searches.getLast? with
  | some answer => (.ok (policyResult r answer), s)
  | none =>
    match searchPolicy O r query s with
    | .error e => (.error e, s.searched query)
    | .ok answer => (.ok (policyResult r answer), (s.searched query).found answer)

/-- The `query` of a `_PolicyQuery`; a text that is too long or no text is refused. -/
def queryOf : Value → Option Text
  | .dict members =>
    match members.lookup "query".toList with
    | none => some []
    | some (.str query) => if query.length ≤ 200 then some query else none
    | some _ => none
  | _ => none

/-- One tool call through the registered functions; `_NoArgs` takes any arguments. -/
def invoke (call : ToolCall) (s : State) : Answered :=
  if call.name = scoreTool then score O r s
  else if call.name = recordTool then (getDecisionRecord O s, s)
  else if call.name = searchTool then
    match queryOf call.args with
    | none => (.error .invalidCall, s)
    | some query => policy O r query s
  else (.error .invalidCall, s)

/-! ## The chat model -/

/-- `_tool_action`: one block, naming a bound tool, as an action. -/
def toolAction : List Value → Except Raised Value
  | [block] => do
    let name ← reading (block.get "name".toList)
    if [scoreTool, recordTool, searchTool].any name.isStr = false then .error .llm
    else
      let input ← reading (block.get "input".toList)
      let id ← reading (block.get "id".toList)
      pure (.dict [("action".toList, .str "tool".toList), ("tool".toList, name),
        ("input".toList, input.orElse (.dict [])), ("tool_use_id".toList, id)])
  | _ => .error .llm

/-- `_is_text_tool_action`, of what the text parses to. -/
def isTextToolAction : Value → Bool
  | .dict members => ((members.lookup "action".toList).getD .none).isStr "tool".toList
  | _ => false

/-- `ClaudeClient.complete` on a tool-bound request: what a completion is turned into. -/
def actionOf : Except Text Completion → Except Raised Value
  | .error _ => .error .llm
  | .ok (.toolUse blocks) => toolAction blocks
  | .ok (.text parsed validated) =>
    if parsed.any isTextToolAction then .error .llm
    else
      match validated with
      | some v => .ok v
      | none => .error .llm

/-- `_already_scored` -/
def alreadyScored (messages : List Message) : Bool :=
  messages.any fun
    | .tool name _ _ => name = scoreTool
    | _ => false

def textOf : Value → Option Text
  | .str t => some t
  | _ => none

/-- The name and the arguments of the tool call an action becomes. -/
def toolTarget (applicationId : Int) (task : Text) (scored : Bool) (name : Text) (input : Value) :
    Except Raised (Text × Value) :=
  if name = searchTool then
    .ok (name, match input with
      | .dict members => .dict members
      | _ => .dict [])
  else if name = scoreTool ∨ name = recordTool then
    .ok (if name = scoreTool ∧ (task = "explain".toList ∨ scored = true) then recordTool else name,
      .dict [("application_id".toList, .int applicationId)])
  else .error .llm

/-- `_to_message`; `minted` is the id of a call that comes without one. -/
def toMessage (applicationId : Int) (task : Text) (scored : Bool) (minted : Text) (action : Value) :
    Except Raised Message :=
  match action with
  | .dict members =>
    let key (k : String) : Value := (members.lookup k.toList).getD .none
    if (key "action").isStr "tool".toList then
      match textOf (key "tool") with
      | none | some [] => .error .llm
      | some name => do
        let (name, args) ← toolTarget applicationId task scored name (key "input")
        let id := match textOf (key "tool_use_id") with
          | none | some [] => minted
          | some id => id
        pure (.calls [⟨name, args, id⟩])
    else if (key "action").isStr "final".toList then .ok (.action action)
    else .error .llm
  | _ => .error .llm

/-- `_generate` -/
def generate (minted : Text) (s : State) : Except Raised Message := do
  let action ← actionOf (O.complete s)
  toMessage r.applicationId r.task (alreadyScored s.messages) minted action

/-! ## The agent loop -/

inductive Node
  | model
  | tools
  deriving DecidableEq

def State.push (s : State) (m : Message) : State := { s with messages := s.messages ++ [m] }

/-- One more step. -/
def State.stepped (s : State) : State :=
  { s with effects := { s.effects with steps := s.effects.steps + 1 } }

/-- One more call of the model. -/
def State.asked (s : State) : State :=
  { s with effects := { s.effects with completions := s.effects.completions + 1 } }

/-- The calls of the last message. -/
def State.pending (s : State) : List ToolCall :=
  match s.messages.getLast? with
  | some (.calls calls) => calls
  | _ => []

/-- The model's node, with `remaining` steps left. -/
def modelNode (remaining : ℕ) (minted : Text) (s : State) : Except (Raised × State) State :=
  match generate O r minted s with
  | .error e => .error (e, s.asked)
  | .ok (.calls calls) =>
    .ok (s.asked.push (if F.needMoreSteps remaining then .apology else .calls calls))
  | .ok m => .ok (s.asked.push m)

/-- The tools' node: one call after the other. -/
def runCalls : List ToolCall → State → Except (Raised × State) State
  | [], s => .ok s
  | call :: calls, s =>
    match invoke O r call s with
    | (.ok result, s) => runCalls calls (s.push (.tool call.name result call.id))
    | (.error e, s) =>
      if F.handsBack e then runCalls calls (s.push (.tool call.name .none call.id))
      else .error (e, s)

/-- The nodes of `create_react_agent`, none of which runs past the limit; `mint` is a fresh id for
each step. -/
def graph (mint : ℕ → Text) : Graph Node State (Raised × State) where
  visit _ n s :=
    let remaining := recursionLimit - s.effects.steps
    if remaining = 0 then .error (.recursionLimit, s)
    else
      match n with
      | .model => modelNode O F r remaining (mint s.effects.steps) s.stepped
      | .tools => runCalls O F r s.pending s.stepped
  next n s :=
    match n with
    | .model => if s.pending.isEmpty then none else some .tools
    | .tools => some .model

/-- `agent.invoke` -/
def agent (mint : ℕ → Text) : Result Node State (Raised × State) :=
  (graph O F r mint).run (recursionLimit + 1) [] .model { messages := [.human] }

/-! ## The run -/

/-- `_terminal_action` -/
def terminalAction (messages : List Message) : Except Raised Value :=
  match messages.getLast? with
  | some (.action content) => .ok content
  | _ => .error .assistantError

/-- The final answer, before it is validated against the record. -/
def finalAnswer (s : State) : Except Raised Value := do
  let action ← terminalAction s.messages
  if r.policyTopic.isSome ∧ r.task = "explain".toList ∧ s.searches = [] then
    .error .assistantError
  else pure action

/-- `POLICY_TOPICS` -/
def policyTopics : List Text :=
  ["fee_schedule".toList, "apr_finance_charge".toList, "interest_rate".toList,
    "eligibility_rules".toList, "credit_decisioning".toList, "adverse_action".toList,
    "debt_to_income".toList, "records_retention".toList]

/-- `run` up to the final answer, with what it has done; the rest only reads the record. `none` is a
run that does not end. -/
def run (mint : ℕ → Text) : Option (Except Raised Value × Effects) :=
  if r.policyTopic.any (fun t => !policyTopics.contains t) then some (.error .assistantError, {})
  else
    (agent O F r mint).outcome.map fun
      | .error (.recursionLimit, s) => (.error .assistantError, s.effects)
      | .error (e, s) => (.error e, s.effects)
      | .ok s => (finalAnswer r s, s.effects)

end Meridian.Assistant
