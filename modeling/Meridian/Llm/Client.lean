import Meridian.Llm.Request

/-!
# The client

`ClaudeClient.complete` from the built request to the validated result, and the two templates whose
results the services act on. The transport, which retries, is a function of the request. The system
prompts are long texts nothing but their length is read of; a template takes its own.
-/

namespace Meridian.Llm

open Python Json

/-! ## Templates -/

/-- A string of an enumeration. -/
def enumOf (allowed : List String) : Schema := .string none (some (allowed.map String.toList)) none

/-- `OUTPUT_SCHEMA` of `decision_assistant` -/
def decisionAssistantSchema : Schema :=
  .object ["action".toList]
    [("action".toList, enumOf ["tool", "final"]),
      ("tool".toList, enumOf ["score_application", "get_decision_record", "search_policy"]),
      ("input".toList, .object []
        [("application_id".toList, .integer), ("query".toList, .string none none (some 200))] true),
      ("outcome".toList, enumOf ["approve", "refer", "deny", "counteroffer"]),
      ("reason_codes".toList, .array (some (enumOf ["R01", "R02", "R03", "R04"]))),
      ("summary".toList, .string none none none)]
    true

/-- `decision_assistant` -/
def decisionAssistant (system : Text) : PromptTemplate where
  name := "decision_assistant".toList
  version := "2026-08-24".toList
  system := system
  userTemplate := [.text "Officer request (JSON):\n".toList, .field "request_json".toList,
    .text ("\n\nFollow the protocol: call a tool, or reply with one JSON final object.").toList]
  requiredVars := ["request_json".toList]
  jsonVars := ["request_json".toList]
  outputSchema := some decisionAssistantSchema

/-- `{"type": "string", "maxLength": max, "pattern": r"^\D*$"}` -/
def proseOf (max : ℕ) : Schema := .string (some .digitFree) none (some max)

/-- The schema of `figures`: strings of any spelling. -/
def figuresSchema : Schema :=
  .object
    (["apr", "finance_charge", "amount_financed", "total_of_payments", "monthly_payment"].map
      String.toList)
    [("apr".toList, .string none none none), ("finance_charge".toList, .string none none none),
      ("amount_financed".toList, .string none none none),
      ("total_of_payments".toList, .string none none none),
      ("monthly_payment".toList, .string none none none)]
    true

/-- `OUTPUT_SCHEMA` of `disclosure_assemble` -/
def disclosureAssembleSchema : Schema :=
  .object (["heading", "figures", "payment_terms", "prepayment"].map String.toList)
    [("heading".toList, proseOf 120), ("figures".toList, figuresSchema),
      ("payment_terms".toList, proseOf 600), ("prepayment".toList, proseOf 300)]
    true

/-! ## Completing -/

/-- A `tool_use` block of a completion, as the adapter reads it. -/
structure ToolCall where
  id : Text
  name : Text
  input : List (Text × Value)

/-- `Completion` -/
structure Completion where
  text : Text
  toolCalls : List ToolCall

/-- An object that claims to be a tool action. -/
def claimsTool (members : List (Text × Value)) : Bool :=
  ((members.lookup "action".toList).getD .none).isStr "tool".toList

/-- `_is_text_tool_action`; a text at the recursion limit raises. -/
def isTextToolAction (depth : ℕ) (text : Text) : Except Raised Bool :=
  if (strip text).isEmpty then .ok false
  else
    match loads depth text with
    | .ok (.dict members) => .ok (claimsTool members)
    | .error .recursion => .error .recursionError
    | _ => .ok false

/-- `_tool_action` -/
def toolAction (calls : List ToolCall) (sentTools : List Tool) : Except Raised Value :=
  match calls with
  | [call] =>
    let bound := sentTools.map Tool.name
    if bound.contains call.name then
      .ok (.dict [("action".toList, .str "tool".toList), ("tool".toList, .str call.name),
        ("input".toList, .dict call.input), ("tool_use_id".toList, .str call.id)])
    else refuse (.unboundTool call.name (sortBy id bound))
  | _ => refuse (.parallelCalls calls.length)

variable (r : Runtime)

/-- The validated result of a text. -/
def validated (schema : Option Schema) (text : Text) : Except Raised Value :=
  match schema with
  | some schema => (validateStructured r.toGuard r.depth text schema).map .dict
  | none => (failing (guardOutput r.toGuard text)).map fun _ => .str text

/-- A fallback is served in the place of a text that is not valid, and of nothing else. -/
def orFallback (fallback : Option Value) : Except Raised Value → Except Raised Value
  | .error (.validationFailed f) =>
    match fallback with
    | some v => .ok v
    | none => .error (.validationFailed f)
  | result => result

@[simp] theorem orFallback_none (result : Except Raised Value) : orFallback none result = result := by
  rcases result with (_ | _ | _ | _ | _ | _ | _) | _ <;> rfl

/-- What `complete` makes of a text, under the tools the request carries. -/
def textResult (template : PromptTemplate) (tools : List Tool) (fallback : Option Value)
    (text : Text) : Except Raised Value := do
  let refused ← if tools.isEmpty then pure false else isTextToolAction r.depth text
  if refused then refuse .textToolCall
  else orFallback fallback (validated r template.outputSchema text)

/-- `complete` -/
def complete (x : Inputs) (transport : CompletionRequest → Except Raised Completion)
    (fallback : Option Value) : Except Raised Value := do
  let built ← buildRequest r x
  let completion ← transport built.request
  if completion.toolCalls.isEmpty then
    textResult r x.template built.request.tools fallback completion.text
  else toolAction completion.toolCalls built.request.tools

end Meridian.Llm
