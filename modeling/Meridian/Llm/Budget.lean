import Meridian.Llm.Pairing

/-!
# What a request costs

`build_request` either raises or returns a request that fits. It raises where a turn, a tool or a
variable is refused (`Refused`), or where the parts that are never dropped are over the budget
(`Overspent`). A request it returns is `Fitting`: nothing is missing but the oldest turns, no fewer
of them could have been dropped, and the estimate is that of the request itself.
-/

namespace Meridian.Llm

open Python Json Grouping

variable {r : Runtime} {x : Inputs}

/-! ## Raising -/

/-- The declared JSON variables are redacted, and the message is rendered from them. -/
def renderedMessage (r : Runtime) (x : Inputs) : Except Raised Text := do
  let vars ← redactedVariables r x.vars x.template.jsonVars
  renderUser r x.template vars

/-- A turn, a tool or a variable is one `build_request` does not take. -/
def Refused (r : Runtime) (x : Inputs) : Prop :=
  (∃ turn ∈ x.history, Raises (redactedTurn r turn)) ∨ Raises (validatedTools x.tools) ∨
    Raises (renderedMessage r x)

/-- System, examples, message, tools and the room for the answer are over the budget. -/
def Overspent (r : Runtime) (x : Inputs) : Prop :=
  ∃ parts, fixedParts r x = .ok parts ∧
    x.tokenBudget < fixedTokens x.template parts + x.maxTokens

theorem fixedParts_ok {parts : FixedParts} (h : fixedParts r x = .ok parts) :
    validatedTools x.tools = .ok parts.tools ∧ ∃ rendered,
      renderedMessage r x = .ok rendered ∧
        parts.userMessage = ⟨.user, .text (r.redact rendered)⟩ := by
  obtain ⟨tools, htools, h⟩ := of_bind_ok h
  obtain ⟨vars, hvars, h⟩ := of_bind_ok h
  obtain ⟨rendered, hrendered, h⟩ := of_bind_ok h
  cases h
  refine ⟨htools, rendered, ?_, rfl⟩
  rw [renderedMessage, bind_of_ok hvars, hrendered]

theorem raises_fixedParts :
    Raises (fixedParts r x) ↔ Raises (validatedTools x.tools) ∨ Raises (renderedMessage r x) := by
  have hparts : fixedParts r x = (validatedTools x.tools >>= fun tools =>
      renderedMessage r x >>= fun rendered =>
        pure ⟨tools, ⟨.user, .text (r.redact rendered)⟩⟩) := by
    simp only [fixedParts, renderedMessage, bind_assoc]
  rw [hparts, raises_bind]
  refine or_congr_right' fun htools => ?_
  obtain ⟨tools, htools⟩ := not_raises_iff.mp htools
  constructor
  · rintro ⟨_, _, h⟩
    refine (raises_bind.mp h).resolve_right ?_
    rintro ⟨_, _, _, h⟩
    exact nomatch h
  · exact fun h => ⟨tools, htools, raises_bind.mpr (.inl h)⟩

/-- **When `build_request` raises.** -/
theorem raises_buildRequest : Raises (buildRequest r x) ↔ Refused r x ∨ Overspent r x := by
  rw [buildRequest, raises_bind, raises_mapM, Refused, or_assoc]
  refine or_congr_right' fun hturns => ?_
  obtain ⟨history, hhistory⟩ := not_raises_iff.mp (mt raises_mapM.mp hturns)
  rw [← raises_fixedParts]
  constructor
  · rintro ⟨_, _, h⟩
    rcases raises_bind.mp h with h | ⟨parts, hparts, h⟩
    · exact .inl h
    · dsimp only at h
      split at h
      · exact .inr ⟨parts, hparts, by assumption⟩
      · exact absurd h (not_raises_ok _)
  · rintro (h | ⟨parts, hparts, hover⟩)
    · exact ⟨history, hhistory, raises_bind.mpr (.inl h)⟩
    · refine ⟨history, hhistory, raises_bind.mpr (.inr ⟨parts, hparts, ?_⟩)⟩
      dsimp only
      rw [if_pos hover]
      exact raises_error _

/-! ## What is sent -/

/-- A schema is sent as it was authored: its three values, and there were no others. -/
def Carries (authored : Value) (sent : Tool) : Prop :=
  ∃ members, authored = .dict members ∧
    members.lookup "name".toList = some (.str sent.name) ∧
    members.lookup "description".toList = some (.str sent.description) ∧
    members.lookup "input_schema".toList = some (.dict sent.inputSchema) ∧
    ∀ member ∈ members,
      member.1 ∈ ["name", "description", "input_schema"].map String.toList

theorem validatedTool_carries {seen : List Text} {tool : Value} {t : Tool}
    (h : validatedTool seen tool = .ok t) : Carries tool t := by
  unfold validatedTool at h
  split at h
  · rename_i members
    split at h
    · rename_i hkeys
      obtain ⟨name, hname, h⟩ := of_bind_ok h
      split at h
      · exact nomatch h
      · obtain ⟨description, hdescription, h⟩ := of_bind_ok h
        split at h
        · rename_i schema hschema
          split at h
          · cases h
            refine ⟨members, rfl, needText_ok hname, needText_ok hdescription, hschema, ?_⟩
            intro member hmember
            have hkey := (List.filter_eq_nil_iff.mp hkeys) member.1 (List.mem_map_of_mem hmember)
            rw [Bool.not_eq_true', Bool.not_eq_false] at hkey
            exact List.contains_iff_mem.mp hkey
          · exact nomatch h
        · exact nomatch h
    · exact nomatch h
  · exact nomatch h

theorem validatedToolsFrom_carry {seen : List Text} {tools : List Value} {ts : List Tool}
    (h : validatedToolsFrom seen tools = .ok ts) : List.Forall₂ Carries tools ts := by
  induction tools generalizing seen ts with
  | nil =>
    cases h
    exact .nil
  | cons tool tools ih =>
    obtain ⟨t, ht, h⟩ := of_bind_ok h
    obtain ⟨ts, hts, h⟩ := of_bind_ok h
    cases h
    exact .cons (validatedTool_carries ht) (ih hts)

/-- The schemas among `build_request`'s arguments: none, or a list. -/
def authored : Value → List Value
  | .list tools => tools
  | _ => []

theorem validatedTools_carry {tools : Value} {ts : List Tool} (h : validatedTools tools = .ok ts) :
    List.Forall₂ Carries (authored tools) ts := by
  unfold validatedTools at h
  split at h
  · cases h
    exact .nil
  · exact validatedToolsFrom_carry h
  · exact nomatch h

/-- What the estimate is of: the whole request, as it is sent. -/
def requestTokens (q : CompletionRequest) : ℕ :=
  estimateTokens q.system + turnTokens q.messages + (q.tools.map toolTokens).sum

theorem turnTokens_append (turns turns' : List Turn) :
    turnTokens (turns ++ turns') = turnTokens turns + turnTokens turns' := by
  rw [turnTokens, List.map_append, List.sum_append]
  rfl

/-- A request with the redacted history `kept` in it. -/
def requestWith (x : Inputs) (parts : FixedParts) (kept : List Turn) : CompletionRequest where
  system := x.template.system
  messages := expandExamples x.template.examples ++ kept ++ [parts.userMessage]
  maxTokens := x.maxTokens
  prompt := x.template.name
  promptVersion := x.template.version
  tools := parts.tools

theorem requestTokens_requestWith (parts : FixedParts) (kept : List Turn) :
    (requestTokens (requestWith x parts kept) : ℤ) =
      fixedTokens x.template parts + turnTokens kept := by
  have hmessage : turnTokens [parts.userMessage] = contentTokens parts.userMessage.content := by
    rw [turnTokens_cons]
    rfl
  rw [requestTokens, requestWith, fixedTokens]
  dsimp only
  rw [turnTokens_append, turnTokens_append, hmessage]
  push_cast
  ring

/-- A request on the redacted `history` that lacks nothing the budget has room for. -/
structure Fitting (r : Runtime) (x : Inputs) (history : List Turn) (b : BuiltRequest) : Prop where
  system : b.request.system = x.template.system
  /-- The examples, a suffix of the history, and the message rendered from the variables. -/
  messages : ∃ rendered, renderedMessage r x = .ok rendered ∧
    b.request.messages = expandExamples x.template.examples ++
      history.drop b.trimmedHistoryTurns ++ [⟨.user, .text (r.redact rendered)⟩]
  tools : List.Forall₂ Carries (authored x.tools) b.request.tools
  /-- As many turns were dropped as are counted. -/
  trimmed : b.trimmedHistoryTurns ≤ history.length
  estimate : b.estimatedInputTokens = requestTokens b.request
  within : b.estimatedInputTokens + x.maxTokens ≤ x.tokenBudget
  /-- With any longer suffix the request is over the budget. -/
  longest : ∀ kept parts, kept <:+ history → fixedParts r x = .ok parts →
    requestTokens (requestWith x parts kept) + x.maxTokens ≤ x.tokenBudget →
    kept.length ≤ history.length - b.trimmedHistoryTurns

/-- **Nothing is dropped that fits.** -/
theorem buildRequest_trims (r : Runtime) (x : Inputs) :
    ((∃ e, buildRequest r x = .error e) ↔ Refused r x ∨ Overspent r x) ∧
      ∀ b, buildRequest r x = .ok b →
        ∃ history, x.history.mapM (redactedTurn r) = .ok history ∧ Fitting r x history b := by
  refine ⟨raises_buildRequest, fun b h => ?_⟩
  obtain ⟨history, hhistory, h⟩ := of_bind_ok h
  obtain ⟨parts, hparts, h⟩ := of_bind_ok h
  dsimp only at h
  split at h
  · exact nomatch h
  rename_i hroom
  have hroom := not_lt.mp hroom
  generalize hfixed : fixedTokens x.template parts = fixed at h hroom
  have hnil : fitsBudget x fixed [] = true := by
    refine fitsBudget_eq_true.mpr ?_
    simpa [turnTokens] using hroom
  obtain ⟨htools, rendered, hrendered, hmessage⟩ := fixedParts_ok hparts
  obtain rfl : b = ⟨requestWith x parts (trim (fitsBudget x fixed) history).1,
      fixed + turnTokens (trim (fitsBudget x fixed) history).1,
      (trim (fitsBudget x fixed) history).2⟩ := by
    cases h
    rfl
  refine ⟨history, hhistory, ?_⟩
  constructor
  case system => rfl
  case messages =>
    refine ⟨rendered, hrendered, ?_⟩
    rw [← hmessage]
    dsimp only [requestWith]
    rw [trim_eq_drop]
  case tools => exact validatedTools_carry htools
  case trimmed => exact trim_le_length history
  case estimate =>
    dsimp only
    rw [requestTokens_requestWith, hfixed]
  case within => exact fitsBudget_eq_true.mp (fits_trim hnil history)
  case longest =>
    rintro kept parts' ⟨front, rfl⟩ hparts' hkept
    obtain rfl : parts = parts' := Except.ok.inj (hparts ▸ hparts')
    rw [requestTokens_requestWith, hfixed] at hkept
    have hfits : fitsBudget x fixed ((front ++ kept).drop front.length) = true := by
      rw [List.drop_left]
      exact fitsBudget_eq_true.mpr hkept
    have hle := trim_le_of_fits hfits
    rw [List.length_append]
    dsimp only
    omega

end Meridian.Llm
