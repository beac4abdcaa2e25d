import Meridian.Grouping.Suffix
import Meridian.Llm.Redaction

/-!
# The request

`build_request`: history turns and tool schemas are validated and redacted, the user message is
rendered, and the oldest turns are dropped until the estimate fits the budget.

A turn, a block and a tool as a caller gives them are values; what the builder makes of them is
typed (`Turn`, `Block`, `Tool`), and `toValue` is the object that goes on the wire.
-/

namespace Meridian.Llm

open Python Json Grouping

/-! ## Templates -/

/-- A part of a `str.format` template. -/
inductive TemplatePart
  | text (t : Text)
  | field (name : Text)

/-- `PromptTemplate` -/
structure PromptTemplate where
  name : Text
  version : Text
  system : Text
  userTemplate : List TemplatePart
  requiredVars : List Text := []
  jsonVars : List Text := []
  /-- The pairs of `user` and `assistant` texts. -/
  examples : List (Text × Text) := []
  outputSchema : Option Schema := none

/-! ## What a request carries -/

/-- A validated and redacted content block. -/
inductive Block
  | toolUse (id name : Text) (input : Value)
  | toolResult (toolUseId content : Text) (isError : Option Bool)

def Block.toValue : Block → Value
  | toolUse id name input =>
    .dict [("type".toList, .str "tool_use".toList), ("id".toList, .str id),
      ("name".toList, .str name), ("input".toList, input)]
  | toolResult toolUseId content isError =>
    .dict ([("type".toList, .str "tool_result".toList), ("tool_use_id".toList, .str toolUseId),
      ("content".toList, .str content)] ++
      match isError with
      | some b => [("is_error".toList, .bool b)]
      | none => [])

inductive Content
  | text (t : Text)
  | blocks (bs : List Block)

structure Turn where
  role : Role
  content : Content

/-- An authored tool schema. -/
structure Tool where
  name : Text
  description : Text
  inputSchema : List (Text × Value)

def Tool.toValue (t : Tool) : Value :=
  .dict [("name".toList, .str t.name), ("description".toList, .str t.description),
    ("input_schema".toList, .dict t.inputSchema)]

/-- `CompletionRequest`, as far as it depends on what the builder is given. -/
structure CompletionRequest where
  system : Text
  messages : List Turn
  maxTokens : ℤ
  prompt : Text
  promptVersion : Text
  tools : List Tool

/-- `BuiltRequest` -/
structure BuiltRequest where
  request : CompletionRequest
  estimatedInputTokens : ℤ
  trimmedHistoryTurns : ℕ

/-! ## Tokens -/

/-- `_CHARS_PER_TOKEN` -/
def charsPerToken : ℕ := 4

/-- `estimate_tokens`: the ceiling of the quotient. -/
def estimateTokens (t : Text) : ℕ := (t.length + (charsPerToken - 1)) / charsPerToken

/-- `_content_tokens` -/
def contentTokens : Content → ℕ
  | .text t => estimateTokens t
  | .blocks bs => estimateTokens (dumpsRaw (.list (bs.map Block.toValue)))

def toolTokens (t : Tool) : ℕ := estimateTokens (dumpsRaw t.toValue)

/-! ## Turns -/

/-- `[A-Za-z0-9_-]{1,max}` between `^` and `$`, which also stands before a final newline. -/
def isProviderName (max : ℕ) (t : Text) : Bool :=
  let body := if t.getLast? = some '\n' then t.dropLast else t
  1 ≤ body.length && body.length ≤ max && body.all isTagChar

/-- `_TOOL_USE_ID` -/
def isToolUseId (t : Text) : Bool := isProviderName 128 t

/-- `_TOOL_NAME` -/
def isToolName (t : Text) : Bool := isProviderName 64 t

def refuse {α : Type} (e : Refusal) : Except Raised α := .error (.llmError e)

/-- `_turn_role` -/
def turnRole (turn : List (Text × Value)) : Except Raised Role :=
  let role := (turn.lookup "role".toList).getD (.str "user".toList)
  if role.isStr "user".toList then .ok .user
  else if role.isStr "assistant".toList then .ok .assistant
  else refuse .turnRole

/-- A key of a block that has to be a text of a kind. -/
def needText (block : List (Text × Value)) (key : String) (p : Text → Bool) (e : Refusal) :
    Except Raised Text :=
  match block.lookup key.toList with
  | some (.str t) => if p t then .ok t else refuse e
  | _ => refuse e

variable (r : Runtime)

/-- `_redacted_tool_use` -/
def redactedToolUse (block : List (Text × Value)) : Except Raised Block := do
  let id ← needText block "id" isToolUseId .toolUseId
  let name ← needText block "name" isToolName .toolUseName
  match (block.lookup "input".toList).getD (.dict []) with
  | .dict input => pure (.toolUse id name (redactNode r [] (.dict input)))
  | _ => refuse .toolUseInput

/-- The content of a `tool_result` block as an object. -/
def resultContent (content : Value) : Except Raised (List (Text × Value)) :=
  match content with
  | .str t => do
    match ← requireJsonObject r t with
    | some members => pure members
    | none => refuse .toolResultProse
  | .dict members => .ok members
  | _ => refuse .toolResultContent

/-- `_redacted_tool_result` -/
def redactedToolResult (block : List (Text × Value)) : Except Raised Block := do
  let id ← needText block "tool_use_id" isToolUseId .toolResultId
  let content ← resultContent r ((block.lookup "content".toList).getD .none)
  let out := dumpsRaw (redactNode r [] (.dict content))
  match block.lookup "is_error".toList with
  | none => pure (.toolResult id out none)
  | some (.bool b) => pure (.toolResult id out (some b))
  | some _ => refuse .isError

/-- `_BLOCK_TYPE_BY_ROLE` -/
def blockType : Role → Text
  | .assistant => "tool_use".toList
  | .user => "tool_result".toList

/-- `_BLOCK_KEYS` -/
def blockKeys : Role → List Text
  | .assistant => ["type", "id", "name", "input"].map String.toList
  | .user => ["type", "tool_use_id", "content", "is_error"].map String.toList

/-- One block of `_redacted_blocks`. -/
def redactedBlock (role : Role) (block : Value) : Except Raised Block :=
  match block with
  | .dict members =>
    if (members.lookup "type".toList).any (·.isStr (blockType role)) = false then
      refuse (.blockType role)
    else
      match (members.map Prod.fst).filter fun k => !(blockKeys role).contains k with
      | [] =>
        match role with
        | .assistant => redactedToolUse r members
        | .user => redactedToolResult r members
      | unknown => refuse (.blockKeys role (sortBy id unknown))
  | _ => refuse .blockShape

/-- `_redacted_blocks` -/
def redactedBlocks (role : Role) (blocks : List Value) : Except Raised (List Block) :=
  if blocks.isEmpty then refuse .noBlocks else blocks.mapM (redactedBlock r role)

/-- `_redacted_turn` -/
def redactedTurn (turn : Value) : Except Raised Turn :=
  match turn with
  | .dict members =>
    match members.lookup "content".toList with
    | none => refuse .turnShape
    | some (.list blocks) => do
      let role ← turnRole members
      let out ← redactedBlocks r role blocks
      pure ⟨role, .blocks out⟩
    | some (.str content) => do
      match ← requireJsonObject r content with
      | none => refuse .turnProse
      | some _ => do
        let role ← turnRole members
        let out ← redactJson r content
        pure ⟨role, .text out⟩
    | some _ => refuse .turnContent
  | _ => refuse .turnShape

/-! ## Tools -/

/-- One schema of `_validated_tools`, after the names seen before it. -/
def validatedTool (seen : List Text) (tool : Value) : Except Raised Tool :=
  match tool with
  | .dict members =>
    match (members.map Prod.fst).filter
        fun k => !(["name", "description", "input_schema"].map String.toList).contains k with
    | [] => do
      let name ← needText members "name" isToolName .toolName
      if seen.contains name then refuse (.duplicateTool name)
      else
        let description ← needText members "description" (fun t => !(strip t).isEmpty)
          (.toolDescription name)
        match members.lookup "input_schema".toList with
        | some (.dict schema) =>
          if (schema.lookup "type".toList).any (·.isStr "object".toList) then
            pure ⟨name, description, schema⟩
          else refuse (.toolSchemaType name)
        | _ => refuse (.toolSchema name)
    | unknown => refuse (.toolKeys (sortBy id unknown))
  | _ => refuse .toolShape

def validatedToolsFrom (seen : List Text) : List Value → Except Raised (List Tool)
  | [] => .ok []
  | tool :: rest => do
    let t ← validatedTool seen tool
    let ts ← validatedToolsFrom (seen ++ [t.name]) rest
    pure (t :: ts)

/-- `_validated_tools` -/
def validatedTools (tools : Value) : Except Raised (List Tool) :=
  match tools with
  | .none => .ok []
  | .list ts => validatedToolsFrom [] ts
  | _ => refuse .toolsShape

/-! ## The user message -/

/-- `str(value)` -/
def strOf : Value → Text
  | .none => "None".toList
  | .bool b => if b then "True".toList else "False".toList
  | .int n => Item.intText n
  | .float x => x.repr
  | .str t => t
  | v => r.containerText v

/-- `self.user_template.format(**vars)` -/
def format (vars : List (Text × Value)) : List TemplatePart → Except Raised Text
  | [] => .ok []
  | .text t :: rest => do
    let out ← format vars rest
    pure (t ++ out)
  | .field name :: rest => do
    match vars.lookup name with
    | some v => do
      let out ← format vars rest
      pure (strOf r v ++ out)
    | none => .error .keyError

/-- `render_user` -/
def renderUser (template : PromptTemplate) (vars : List (Text × Value)) : Except Raised Text :=
  if template.requiredVars.all (hasKey vars) then format r vars template.userTemplate
  else .error .keyError

/-- The vars with the declared JSON documents among them redacted. -/
def redactedVariables (vars : List (Text × Value)) :
    List Text → Except Raised (List (Text × Value))
  | [] => .ok vars
  | var :: rest =>
    match vars.lookup var with
    | none => redactedVariables vars rest
    | some value => do
      let text ← redactJsonVar r var
        (match value with
        | .str t => t
        | v => dumps v)
      redactedVariables (setItem vars var (.str text)) rest

/-! ## Building -/

/-- `_expand_examples` -/
def expandExamples (examples : List (Text × Text)) : List Turn :=
  examples.flatMap fun ex => [⟨.user, .text ex.1⟩, ⟨.assistant, .text ex.2⟩]

/-- The token estimate of some turns. -/
def turnTokens (turns : List Turn) : ℕ := (turns.map fun t => contentTokens t.content).sum

/-- What `build_request` is given. -/
structure Inputs where
  template : PromptTemplate
  vars : List (Text × Value)
  history : List Value
  tools : Value
  maxTokens : ℤ
  tokenBudget : ℤ

/-- The parts of a request that are never dropped. -/
structure FixedParts where
  tools : List Tool
  userMessage : Turn

/-- The tokens of the parts that are never dropped. -/
def fixedTokens (template : PromptTemplate) (p : FixedParts) : ℤ :=
  estimateTokens template.system + turnTokens (expandExamples template.examples) +
    contentTokens p.userMessage.content + (p.tools.map toolTokens).sum

/-- The parts of a request that are never dropped, validated and redacted. -/
def fixedParts (x : Inputs) : Except Raised FixedParts := do
  let tools ← validatedTools x.tools
  let vars ← redactedVariables r x.vars x.template.jsonVars
  let rendered ← renderUser r x.template vars
  pure ⟨tools, ⟨.user, .text (r.redact rendered)⟩⟩

/-- `fixed_tokens + hist_tokens + reserved <= token_budget` -/
def fitsBudget (x : Inputs) (fixed : ℤ) (history : List Turn) : Bool :=
  fixed + turnTokens history + x.maxTokens ≤ x.tokenBudget

/-- `build_request` -/
def buildRequest (x : Inputs) : Except Raised BuiltRequest := do
  let history ← x.history.mapM (redactedTurn r)
  let parts ← fixedParts r x
  let fixed := fixedTokens x.template parts
  if x.tokenBudget < fixed + x.maxTokens then
    .error (.tokenBudgetExceeded fixed x.maxTokens x.tokenBudget)
  else
    let kept := trim (fitsBudget x fixed) history
    pure
      { request :=
          { system := x.template.system
            messages := expandExamples x.template.examples ++ kept.1 ++ [parts.userMessage]
            maxTokens := x.maxTokens
            prompt := x.template.name
            promptVersion := x.template.version
            tools := parts.tools }
        estimatedInputTokens := fixed + turnTokens kept.1
        trimmedHistoryTurns := kept.2 }

end Meridian.Llm
