import Meridian.Llm.Request

/-!
# Tool calls and their results in a request

An assistant turn of `tool_use` blocks is answered by the user turn of `tool_result` blocks after it.
`paired` says that of a whole history: each of the two stands next to the other, with the same ids.

`build_request` drops single turns, so a pair is cut where its first turn is the last one dropped:
where the turns from it on are over the room that is left, and the turns after it within
(`CutsPair`). Nowhere else is a pair lost (`history_paired_iff`).
-/

namespace Meridian.Llm

open Python Json Grouping

/-! ## Pairs -/

/-- What a turn has to do with tool calls. -/
inductive Calls
  /-- `tool_use` blocks, by their ids -/
  | uses (ids : List Text)
  /-- `tool_result` blocks, by the ids they answer -/
  | answers (ids : List Text)
  | neither
  deriving DecidableEq

/-- The same ids, in any order. -/
def sameIds (ids ids' : List Text) : Bool :=
  ids.all (ids'.contains ·) && ids'.all (ids.contains ·)

/-- Every call is answered by the turn after it, and every answer is one to the turn before it. -/
def paired : List Calls → Bool
  | [] => true
  | .neither :: rest => paired rest
  | .uses ids :: .answers ids' :: rest => sameIds ids ids' && paired rest
  | _ => false

/-- **Where a paired history may be cut**: not behind a call. -/
theorem paired_drop {l : List Calls} (h : paired l = true) (n : ℕ) :
    paired (l.drop n) = true ↔ ∀ i ids, n = i + 1 → l[i]? ≠ some (.uses ids) := by
  fun_induction paired l generalizing n with
  | case1 => simp [paired]
  | case2 rest ih =>
    cases n with
    | zero => simpa [paired] using h
    | succ n =>
      rw [List.drop_succ_cons, ih h]
      constructor
      · rintro hcut (_ | i) ids hn
        · simp
        · rw [List.getElem?_cons_succ]
          exact hcut i ids (by omega)
      · intro hcut i ids hn
        have := hcut (i + 1) ids (by omega)
        rwa [List.getElem?_cons_succ] at this
  | case3 ids ids' rest ih =>
    obtain ⟨hsame, hrest⟩ := Bool.and_eq_true_iff.mp h
    cases n with
    | zero => simpa [paired] using h
    | succ n =>
      cases n with
      | zero => simp [paired]
      | succ n =>
        rw [List.drop_succ_cons, List.drop_succ_cons, ih hrest]
        constructor
        · rintro hcut (_ | _ | i) ids hn
          · omega
          · simp
          · rw [List.getElem?_cons_succ, List.getElem?_cons_succ]
            exact hcut i ids (by omega)
        · intro hcut i ids hn
          have := hcut (i + 2) ids (by omega)
          rwa [List.getElem?_cons_succ, List.getElem?_cons_succ] at this
  | case4 => exact absurd h Bool.false_ne_true

/-! ## The ids of turns -/

/-- The key of the id a block of a role carries. -/
def idKey : Role → Text
  | .assistant => "id".toList
  | .user => "tool_use_id".toList

/-- The id of a block as it is given. -/
def blockId (role : Role) : Value → Option Text
  | .dict members =>
    match members.lookup (idKey role) with
    | some (.str id) => some id
    | _ => none
  | _ => none

def callsOfRole (ids : List Text) : Role → Calls
  | .assistant => .uses ids
  | .user => .answers ids

/-- The calls of a turn as it is given. -/
def callsOf (turn : Value) : Calls :=
  match turn with
  | .dict members =>
    match members.lookup "content".toList, turnRole members with
    | some (.list blocks), .ok role => callsOfRole (blocks.filterMap (blockId role)) role
    | _, _ => .neither
  | _ => .neither

def Block.id : Block → Text
  | toolUse id _ _ => id
  | toolResult id _ _ => id

/-- The calls of a turn of a request. -/
def Turn.calls (t : Turn) : Calls :=
  match t.content with
  | .blocks bs => callsOfRole (bs.map Block.id) t.role
  | .text _ => .neither

variable {r : Runtime}

theorem needText_ok {block : List (Text × Value)} {key : String} {p : Text → Bool} {e : Refusal}
    {t : Text} (h : needText block key p e = .ok t) : block.lookup key.toList = some (.str t) := by
  unfold needText at h
  split at h
  · rename_i u hu
    split at h
    · cases h
      exact hu
    · exact nomatch h
  · exact nomatch h

theorem redactedToolUse_id {members : List (Text × Value)} {b : Block}
    (h : redactedToolUse r members = .ok b) : blockId .assistant (.dict members) = some b.id := by
  obtain ⟨id, hid, h⟩ := of_bind_ok h
  obtain ⟨name, -, h⟩ := of_bind_ok h
  have hid : members.lookup (idKey .assistant) = some (.str id) := needText_ok hid
  have hb : b.id = id := by
    generalize (members.lookup "input".toList).getD (.dict []) = input at h
    cases input with
    | dict input =>
      cases h
      rfl
    | _ => exact nomatch h
  simp only [blockId, hid, hb]

theorem redactedToolResult_id {members : List (Text × Value)} {b : Block}
    (h : redactedToolResult r members = .ok b) : blockId .user (.dict members) = some b.id := by
  obtain ⟨id, hid, h⟩ := of_bind_ok h
  obtain ⟨content, -, h⟩ := of_bind_ok h
  have hid : members.lookup (idKey .user) = some (.str id) := needText_ok hid
  have hb : b.id = id := by
    dsimp only at h
    split at h
    · cases h
      rfl
    · cases h
      rfl
    · exact nomatch h
  simp only [blockId, hid, hb]

/-- A block keeps its id. -/
theorem redactedBlock_id {role : Role} {v : Value} {b : Block}
    (h : redactedBlock r role v = .ok b) : blockId role v = some b.id := by
  unfold redactedBlock at h
  split at h
  · rename_i members
    split at h
    · exact nomatch h
    · split at h
      · cases role with
        | assistant => exact redactedToolUse_id h
        | user => exact redactedToolResult_id h
      · exact nomatch h
  · exact nomatch h

theorem redactedBlocks_ids {role : Role} {vs : List Value} {bs : List Block}
    (h : redactedBlocks r role vs = .ok bs) :
    vs.filterMap (blockId role) = bs.map Block.id := by
  unfold redactedBlocks at h
  split at h
  · exact nomatch h
  · have hall := of_mapM_ok h
    rename_i hne
    clear h hne
    induction hall with
    | nil => rfl
    | cons hb _ ih => rw [List.filterMap_cons, redactedBlock_id hb, List.map_cons, ih]

/-- **Redaction leaves the calls of a turn as they are.** -/
theorem redactedTurn_calls {v : Value} {t : Turn} (h : redactedTurn r v = .ok t) :
    t.calls = callsOf v := by
  unfold redactedTurn at h
  split at h
  · rename_i members
    split at h
    · cases h
    · rename_i blocks hcontent
      obtain ⟨role, hrole, h⟩ := of_bind_ok h
      obtain ⟨bs, hbs, h⟩ := of_bind_ok h
      cases h
      simp only [callsOf, hcontent, hrole, Turn.calls, redactedBlocks_ids hbs]
    · rename_i content hcontent
      obtain ⟨o, -, h⟩ := of_bind_ok h
      split at h
      · cases h
      · obtain ⟨role, -, h⟩ := of_bind_ok h
        obtain ⟨out, -, h⟩ := of_bind_ok h
        cases h
        simp only [callsOf, hcontent, Turn.calls]
    · cases h
  · cases h

/-! ## What is left of a history -/

/-- The estimate of a turn as it is given: that of the turn it becomes. -/
def tokensOf (r : Runtime) (turn : Value) : ℕ :=
  match redactedTurn r turn with
  | .ok t => contentTokens t.content
  | .error _ => 0

/-- The tokens the budget leaves to the history. -/
def room (r : Runtime) (x : Inputs) : ℤ :=
  match fixedParts r x with
  | .ok parts => x.tokenBudget - x.maxTokens - fixedTokens x.template parts
  | .error _ => 0

/-- The turns from `k` on are within the room. -/
def Within (r : Runtime) (x : Inputs) (k : ℕ) : Prop :=
  (((x.history.drop k).map (tokensOf r)).sum : ℕ) ≤ room r x

/-- A turn of calls is the last one that does not fit. -/
def CutsPair (r : Runtime) (x : Inputs) : Prop :=
  ∃ k ids, (x.history.map callsOf)[k]? = some (.uses ids) ∧ ¬Within r x k ∧ Within r x (k + 1)

/-- The turns of a request between the examples and the user message. -/
def historyPart (x : Inputs) (b : BuiltRequest) : List Turn :=
  (b.request.messages.drop (expandExamples x.template.examples).length).dropLast

theorem redacted_calls {l : List Value} {l' : List Turn}
    (h : List.Forall₂ (fun v t => redactedTurn r v = .ok t) l l') :
    l'.map Turn.calls = l.map callsOf := by
  induction h with
  | nil => rfl
  | cons ht _ ih => rw [List.map_cons, List.map_cons, redactedTurn_calls ht, ih]

theorem redacted_tokens {l : List Value} {l' : List Turn}
    (h : List.Forall₂ (fun v t => redactedTurn r v = .ok t) l l') :
    turnTokens l' = (l.map (tokensOf r)).sum := by
  induction h with
  | nil => rfl
  | cons ht _ ih =>
    rw [List.map_cons, List.sum_cons, ← ih, tokensOf, ht]
    rfl

/-- **What is built**: the examples, what `trim` leaves of the redacted history, and the message. -/
theorem buildRequest_ok {x : Inputs} {b : BuiltRequest} (h : buildRequest r x = .ok b) :
    ∃ history parts, List.Forall₂ (fun v t => redactedTurn r v = .ok t) x.history history ∧
      fixedParts r x = .ok parts ∧ fixedTokens x.template parts + x.maxTokens ≤ x.tokenBudget ∧
      b.request.messages = expandExamples x.template.examples ++
        (trim (fitsBudget x (fixedTokens x.template parts)) history).1 ++ [parts.userMessage] := by
  obtain ⟨history, hhistory, h⟩ := of_bind_ok h
  obtain ⟨parts, hparts, h⟩ := of_bind_ok h
  dsimp only at h
  split at h
  · exact nomatch h
  · cases h
    exact ⟨history, parts, of_mapM_ok hhistory, hparts, by omega, rfl⟩

theorem fitsBudget_eq_true {x : Inputs} {fixed : ℤ} {history : List Turn} :
    fitsBudget x fixed history = true ↔
      fixed + turnTokens history + x.maxTokens ≤ x.tokenBudget :=
  decide_eq_true_iff

theorem turnTokens_cons (t : Turn) (turns : List Turn) :
    turnTokens (t :: turns) = contentTokens t.content + turnTokens turns := rfl

theorem fitsBudget_iff {x : Inputs} {parts : FixedParts} (hparts : fixedParts r x = .ok parts)
    {history : List Turn}
    (hhistory : List.Forall₂ (fun v t => redactedTurn r v = .ok t) x.history history) (k : ℕ) :
    fitsBudget x (fixedTokens x.template parts) (history.drop k) = true ↔ Within r x k := by
  have htokens := redacted_tokens (List.forall₂_drop k hhistory)
  rw [fitsBudget_eq_true, Within, room, hparts, htokens]
  dsimp only
  omega

/-! ## The theorem, and one exchange -/

/-- **A history stays paired unless a pair is cut.** -/
theorem history_paired_iff {x : Inputs} {b : BuiltRequest} (h : buildRequest r x = .ok b)
    (hpaired : paired (x.history.map callsOf) = true) :
    paired ((historyPart x b).map Turn.calls) = true ↔ ¬CutsPair r x := by
  obtain ⟨history, parts, hhistory, hparts, hbudget, hmessages⟩ := buildRequest_ok h
  have hnil : fitsBudget x (fixedTokens x.template parts) [] = true :=
    fitsBudget_eq_true.mpr (by rwa [turnTokens, List.map_nil, List.sum_nil, Nat.cast_zero, add_zero])
  have hmono : ∀ t l, fitsBudget x (fixedTokens x.template parts) (t :: l) = true →
      fitsBudget x (fixedTokens x.template parts) l = true := by
    intro t l hfits
    rw [fitsBudget_eq_true, turnTokens_cons] at hfits
    refine fitsBudget_eq_true.mpr ?_
    omega
  have hpart : historyPart x b =
      history.drop (trim (fitsBudget x (fixedTokens x.template parts)) history).2 := by
    rw [historyPart, hmessages, List.append_assoc, List.drop_left, List.dropLast_concat,
      trim_eq_drop]
  rw [hpart, List.map_drop, redacted_calls hhistory, paired_drop hpaired]
  constructor
  · rintro hcut ⟨k, ids, hk, hover, hwithin⟩
    refine hcut k ids ?_ hk
    refine (trim_iff hnil hmono).mpr ⟨?_, (fitsBudget_iff hparts hhistory _).mpr hwithin⟩
    exact Bool.eq_false_iff.mpr fun hfits => hover ((fitsBudget_iff hparts hhistory _).mp hfits)
  · intro hcut k ids hk hids
    obtain ⟨hover, hwithin⟩ := (trim_iff hnil hmono).mp hk
    refine hcut ⟨k, ids, hids, ?_, (fitsBudget_iff hparts hhistory _).mp hwithin⟩
    intro hfits
    rw [(fitsBudget_iff hparts hhistory _).mpr hfits] at hover
    exact Bool.noConfusion hover

/-- A runtime over lower-case ASCII keys whose guards find nothing. -/
def asIs : Runtime where
  redact := id
  streetAddress := fun _ => false
  labeledName := fun _ => false
  lower := id
  isAlpha := fun c => 'a' ≤ c && c ≤ 'z'
  isAlnum := fun c => ('a' ≤ c && c ≤ 'z') || isAsciiDigit c
  containerText := fun _ => []
  depth := 100

/-- A short `decision_assistant`. -/
def officerTemplate : PromptTemplate where
  name := "decision_assistant".toList
  version := "2026-08-24".toList
  system := "Report the recorded decision.".toList
  userTemplate := [.text "Officer request (JSON):\n".toList, .field "request_json".toList]
  requiredVars := ["request_json".toList]
  jsonVars := ["request_json".toList]

/-- The assistant reads the record of application 7 and is told that there is one. -/
def exchange : List Value :=
  [.dict [("role".toList, .str "assistant".toList),
      ("content".toList, .list [.dict [("type".toList, .str "tool_use".toList),
        ("id".toList, .str "toolu_1".toList), ("name".toList, .str "get_decision_record".toList),
        ("input".toList, .dict [("application_id".toList, .int 7)])]])],
    .dict [("role".toList, .str "user".toList),
      ("content".toList, .list [.dict [("type".toList, .str "tool_result".toList),
        ("tool_use_id".toList, .str "toolu_1".toList),
        ("content".toList, .str "\x7b\"status\": \"recorded\"\x7d".toList)]])]]

/-- The exchange under a budget. -/
def under (tokenBudget : ℤ) : Inputs where
  template := officerTemplate
  vars := [("request_json".toList, .str "\x7b\"application_id\": 7, \"task\": \"explain\"\x7d".toList)]
  history := exchange
  tools := .none
  maxTokens := 10
  tokenBudget := tokenBudget

/-- With room for both turns the exchange is sent whole. -/
theorem exchange_paired_iff : ∃ b, buildRequest asIs (under 100) = .ok b ∧
    paired ((under 100).history.map callsOf) = true ∧
    (paired ((historyPart (under 100) b).map Turn.calls) = true ↔ ¬CutsPair asIs (under 100)) := by
  obtain ⟨b, hb, -⟩ := exists_ok (x := buildRequest asIs (under 100)) (p := fun _ => True)
    (by decide +kernel)
  have hpaired : paired ((under 100).history.map callsOf) = true := by decide +kernel
  exact ⟨b, hb, hpaired, history_paired_iff hb hpaired⟩

/-- With room for the result and not for both turns, the result is sent without its call. -/
theorem exchange_cut : paired ((under 64).history.map callsOf) = true ∧
    ∃ b, buildRequest asIs (under 64) = .ok b ∧
      paired ((historyPart (under 64) b).map Turn.calls) = false :=
  ⟨by decide +kernel, exists_ok (by decide +kernel)⟩

end Meridian.Llm
