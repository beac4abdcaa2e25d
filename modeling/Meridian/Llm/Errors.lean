import Meridian.Python.JsonText

/-!
# What the language-model client raises

`errors.py` with the messages its exceptions are raised with: an exception is a constructor, which
carries what its message interpolates.
-/

namespace Meridian.Llm

open Python

/-- The name a schema's `type` gives a kind of value. -/
inductive Kind
  | object
  | array
  | string
  | number
  | integer
  | boolean
  deriving DecidableEq

/-- A `pattern` of a schema; the prompts have the one, `^\D*$`. -/
inductive Pattern
  | digitFree
  deriving DecidableEq

/-- `ValidationFailed` -/
inductive Failure
  /-- `model output is empty` -/
  | empty
  /-- `model output too long ({length} > {max} chars)` -/
  | tooLong (length max : ℕ)
  /-- `model output contains PII (leak guard tripped)` -/
  | pii
  /-- `model output contains a street address (identity guard)` -/
  | streetAddress
  /-- `model output contains a labeled personal name (identity guard)` -/
  | labeledName
  /-- `model output is not valid JSON: {msg}` -/
  | notJson (msg : Text)
  /-- `model output JSON is not an object` -/
  | notObject
  /-- `{path}: expected {kind}` -/
  | expected (path : Text) (kind : Kind)
  /-- `{path}: missing required key {key!r}` -/
  | missingKey (path key : Text)
  /-- `{path}: {count} unexpected key(s); allowed: {allowed}` -/
  | unexpectedKeys (path : Text) (count : ℕ) (allowed : List Text)
  /-- `{path}: does not match required pattern {expected}` -/
  | pattern (path : Text) (expected : Pattern)
  /-- `{path}: value not in allowed enum {allowed}` -/
  | notInEnum (path : Text) (allowed : List Text)
  deriving DecidableEq

/-- A role of the chat API. -/
inductive Role
  | user
  | assistant
  deriving DecidableEq

/-- `LLMError` of the request builder and of the client. -/
inductive Refusal
  /-- `{name} must be a JSON object: ...` -/
  | jsonVar (name : Text)
  /-- `history turn must be a dict with a 'content' key` -/
  | turnShape
  /-- `history turn 'content' must be a string, or a list of ... content blocks` -/
  | turnContent
  /-- `history turn 'content' must be a JSON object ...` -/
  | turnProse
  /-- `history turn 'role' must be 'user' or 'assistant'; ...` -/
  | turnRole
  /-- `a content-block turn must carry at least one block` -/
  | noBlocks
  /-- `content block must be an object; ...` -/
  | blockShape
  /-- `a {role!r} turn carries {expected!r} blocks; ...` -/
  | blockType (role : Role)
  /-- `{expected} block carries unsupported key(s) {unknown!r}; ...` -/
  | blockKeys (role : Role) (unknown : List Text)
  /-- `tool_use block 'id' must be a provider id ...` -/
  | toolUseId
  /-- `tool_use block 'name' must match the provider tool-name contract ...` -/
  | toolUseName
  /-- `tool_use block 'input' must be a JSON object ...` -/
  | toolUseInput
  /-- `tool_result block 'tool_use_id' must be a provider id ...` -/
  | toolResultId
  /-- `tool_result 'content' must be a JSON object ...; prose ... is refused ...` -/
  | toolResultProse
  /-- `tool_result 'content' must be a JSON object (or its JSON string); ...` -/
  | toolResultContent
  /-- `tool_result 'is_error' must be a bool when present` -/
  | isError
  /-- `tools must be a list; ...` -/
  | toolsShape
  /-- `each tool must be an object; ...` -/
  | toolShape
  /-- `tool schema carries unsupported key(s) {unknown!r}; ...` -/
  | toolKeys (unknown : List Text)
  /-- `each tool needs a 'name' matching the provider tool-name contract ...` -/
  | toolName
  /-- `duplicate tool name {name!r}: ...` -/
  | duplicateTool (name : Text)
  /-- `tool {name!r} needs a non-empty string 'description'` -/
  | toolDescription (name : Text)
  /-- `tool {name!r} needs an 'input_schema' object` -/
  | toolSchema (name : Text)
  /-- `tool {name!r} 'input_schema' must be a JSON Schema of type 'object' ...` -/
  | toolSchemaType (name : Text)
  /-- `the provider returned {calls} tool calls in one turn; ...` -/
  | parallelCalls (calls : ℕ)
  /-- `the provider asked for tool {name!r}, which this request did not bind (bound: {bound!r})` -/
  | unboundTool (name : Text) (bound : List Text)
  /-- `the model wrote a tool call as text on a tool-bound request; ...` -/
  | textToolCall
  /-- `decision_assistant returned {type}, not an object` -/
  | actionShape
  /-- `a tool action must name a tool` -/
  | unnamedTool
  /-- `decision_assistant requested unknown tool {name!r}` -/
  | unknownTool (name : Text)
  /-- `decision_assistant returned unknown action {kind!r}` -/
  | unknownAction
  deriving DecidableEq

/-- What a call of the client ends with. -/
inductive Raised
  | validationFailed (f : Failure)
  | llmError (r : Refusal)
  /-- `Request needs ~{fixed} input + {reserved} reserved answer tokens, over the {budget} budget` -/
  | tokenBudgetExceeded (fixed reserved budget : ℤ)
  /-- an error of the transport, by its class -/
  | transport (name : Text)
  /-- `json.loads` of an integer that is too long -/
  | valueError
  /-- `json.loads` at the recursion limit -/
  | recursionError
  /-- a variable the template needs is not there -/
  | keyError
  deriving DecidableEq

end Meridian.Llm
