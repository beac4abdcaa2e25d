import Meridian.Interleave.Reads
import Meridian.Origination.Delivery

/-!
# Reading the document

`read_disclosure_document` asks disclosure-service twice: for the chain of the application and, when
that names a disclosure the caller may read, for the document. Between the two any other call may
write.

A caller that is no officer gets the document of a disclosure that was delivered when the chain was
read, and delivered rows do not change: `delivered_read` says so for every interleaving with the
calls of `Services.lean`. Who owns an application is not modelled here; a call reads the one it was
authorized for.
-/

namespace Meridian.Origination

open Python Relational Interleave Disclosure

/-! ## The reads -/

/-- The columns of `v_disclosure_provenance` that decide what may be read. -/
structure Chain where
  offerId : Int
  disclosureId : Option Int
  disclosureStatus : Option Status
  deriving DecidableEq

namespace Chain

/-- `ORDER BY disclosure_id DESC NULLS LAST, offer_id DESC` -/
def before (c c' : Chain) : Bool :=
  match c.disclosureId, c'.disclosureId with
  | some d, some d' => d' < d || d = d' && c'.offerId < c.offerId
  | some _, none => true
  | none, some _ => false
  | none, none => c'.offerId < c.offerId

end Chain

/-- An offer with one of the disclosures of the `LEFT JOIN`. -/
def chainRow (o : OfferRow) (d : Option DisclosureRow) : Chain :=
  ⟨o.id, d.map DisclosureRow.id, d.map DisclosureRow.status⟩

namespace World

/-- `offers o LEFT JOIN disclosures d ON d.offer_id = o.id` -/
def chainRows (w : World) (o : OfferRow) : List Chain :=
  match w.disclosures.rows.filter (·.offerId = o.id) with
  | [] => [chainRow o none]
  | ds => ds.map fun d => chainRow o (some d)

/-- `_PROVENANCE_BY_APPLICATION_SQL`: `application_id` is that of the application joined. -/
def chainOf (w : World) (appId : Int) : Option Chain :=
  if w.application appId = none then none
  else
    firstBy Chain.before ((w.offers.rows.filter (·.appId = some appId)).flatMap w.chainRows)

end World

/-- The statement of `read_provenance_by_application`. -/
inductive ReadStmt
  | selectChainOf (appId : Int)

def ReadStmt.Res : ReadStmt → Type
  | selectChainOf _ => Option Chain

def ReadStmt.answer : (q : ReadStmt) → World → q.Res
  | selectChainOf appId, w => w.chainOf appId

/-- The statements with those of the reads. -/
abbrev reading : Machine := origination.withReads ReadStmt.answer

/-! ## The calls -/

/-- Why a document is not read. -/
inductive ReadRefused
  /-- 404, `no offer for this application` -/
  | noOffer
  /-- 404, `no disclosure for this application` -/
  | noDisclosure
  /-- 404, `no delivered disclosure document for this application` -/
  | notDelivered
  /-- 404, `disclosure not found` -/
  | disclosureNotFound
  /-- 404, `no document recorded for this disclosure` -/
  | noDocument
  deriving DecidableEq

/-- `read_document` -/
def readDocument (disclosureId : Int) : Prog reading (Except ReadRefused Document) := do
  match ← Prog.issue (M := reading) (.inl (.selectDisclosure disclosureId)) with
  | none => pure (.error .disclosureNotFound)
  | some row =>
    match row.documentBody with
    | none => pure (.error .noDocument)
    | some document => pure (.ok document)

/-- `read_disclosure_document`, past `require_officer_or_owner`. -/
def readDisclosureDocument (officer : Bool) (appId : Int) :
    Prog reading (Except ReadRefused Document) := do
  match ← Prog.issue (M := reading) (.inr (.selectChainOf appId)) with
  | none => pure (.error .noOffer)
  | some chain =>
    match chain.disclosureId with
    | none | some 0 => pure (.error .noDisclosure)
    | some disclosureId =>
      if officer = false ∧ chain.disclosureStatus ≠ some .delivered then
        pure (.error .notDelivered)
      else readDocument disclosureId

/-- A call that writes, or one that reads a document. -/
inductive Call
  | task (t : Task)
  | readDisclosureDocument (officer : Bool) (appId : Int)

/-- What a call returns. -/
inductive CallResult
  | answered (a : Answer)
  | read (r : Except ReadRefused Document)

/-- The document a call has read. -/
def CallResult.document : CallResult → Option Document
  | read (.ok doc) => some doc
  | _ => none

theorem CallResult.eq_read {r : CallResult} {doc : Document} (h : r.document = some doc) :
    r = .read (.ok doc) := by
  unfold CallResult.document at h
  split at h
  · cases h
    rfl
  · cases h

/-- The program of a call. -/
def Call.prog (D : Deployment) : Call → Prog reading CallResult
  | task t => do pure (.answered (← (t.prog D).lift))
  | readDisclosureDocument officer appId => do
    pure (.read (← Origination.readDisclosureDocument officer appId))

/-- Any family of calls, started in a world. -/
def startCalls {ι : Type} (D : Deployment) (calls : ι → Call) (w : World) :
    Config reading ι CallResult :=
  ⟨w, fun i => (calls i).prog D⟩

/-! ## What a reader has read -/

/-- The two answers behind a document that was read. -/
def Read (appId : Int) (doc : Document) (l : Log reading) : Prop :=
  ∃ chain id row, l = [⟨.inl (.selectDisclosure id), some row⟩,
      ⟨.inr (.selectChainOf appId), some chain⟩] ∧
    chain.disclosureId = some id ∧ chain.disclosureStatus = some .delivered ∧
    row.documentBody = some doc

theorem readDocument_obeys (id : Int) (l : Log reading) :
    Prog.Obeys (fun _ _ => True) (fun l' a => ∀ doc, a = .ok doc → ∃ row : DisclosureRow,
      l' = ⟨.inl (.selectDisclosure id), some row⟩ :: l ∧ row.documentBody = some doc) l
      (readDocument id) := by
  rw [readDocument, Prog.issue_bind]
  refine ⟨trivial, fun row => ?_⟩
  cases row with
  | none => exact nofun
  | some row =>
    cases hdoc : row.documentBody with
    | none =>
      simp only [hdoc]
      exact nofun
    | some document =>
      simp only [hdoc]
      rintro doc h
      cases h
      exact ⟨row, rfl, hdoc⟩

/-- A reader that is no officer returns the document of a disclosure its chain calls delivered. -/
theorem readDisclosureDocument_obeys (appId : Int) :
    Prog.Obeys (fun _ _ => True) (fun l a => ∀ doc, a = .ok doc → Read appId doc l) []
      (readDisclosureDocument false appId) := by
  rw [readDisclosureDocument, Prog.issue_bind]
  refine ⟨trivial, fun chain => ?_⟩
  cases chain with
  | none => exact nofun
  | some chain =>
    dsimp only
    split
    · exact nofun
    · exact nofun
    · rename_i id _ hid
      split
      · exact nofun
      · rename_i hdelivered
        refine (readDocument_obeys id _).mono (fun _ _ _ => trivial) fun l a h doc ha => ?_
        obtain ⟨row, rfl, hdoc⟩ := h doc ha
        have hst : chain.disclosureStatus = some .delivered := by simpa using hdelivered
        exact ⟨chain, id, row, rfl, hid, hst, hdoc⟩

/-! ## Delivered to an application -/

/-- The row is a delivered disclosure of the application's offer. -/
structure DeliveredTo (w : World) (appId : Int) (d : DisclosureRow) : Prop where
  row : d ∈ w.disclosures.rows
  delivered : d.status = .delivered
  offer : ∃ o ∈ w.offers.rows, o.id = d.offerId ∧ o.appId = some appId
  application : w.application appId ≠ none

section Delivered

variable {w w' : World} {appId : Int} {d : DisclosureRow}

theorem Edged.columns {x : Answered} {o o' : OfferRow} (h : Edged x o o') :
    o'.id = o.id ∧ o'.appId = o.appId := by
  cases h <;> exact ⟨rfl, rfl⟩

theorem Effect.applications {x : Answered} (h : Effect w x w') :
    w'.applications = w.applications := by
  cases h with
  | same _ h => exact h.applications
  | disclosure => rw [World.edged_eq]
  | repair => rw [World.edged_eq, World.attached_eq]
  | event | kyc | offer | move | loan => rfl

/-- **What is delivered stays so.** -/
theorem DeliveredTo.exec {s : Stmt} {r : s.Res} (h : DeliveredTo w appId d)
    (hx : w.exec s = some (r, w')) : DeliveredTo w' appId d := by
  have heffect := exec_effect hx
  obtain ⟨o, ho, hid, happ⟩ := h.offer
  obtain ⟨o', ho', hE⟩ := heffect.kept_offer ho
  obtain ⟨d', hd', hR⟩ := heffect.kept_disclosure h.row
  refine ⟨?_, h.delivered, ⟨o', ho', hE.columns.1.trans hid, hE.columns.2.trans happ⟩, ?_⟩
  · rwa [← hR.frozen h.delivered]
  · rw [World.application, heffect.applications]
    exact h.application

theorem DeliveredTo.env (v : Env) (h : DeliveredTo w appId d) : DeliveredTo (w.env v) appId d := by
  have hsame := env_same v w
  refine ⟨hsame.disclosures ▸ h.row, h.delivered, hsame.offers ▸ h.offer, ?_⟩
  rw [World.application, hsame.applications]
  exact h.application

/-- Both reads find it. -/
theorem DeliveredTo.chainOf (h : DeliveredTo w appId d) :
    w.chainOf appId = some ⟨d.offerId, some d.id, some .delivered⟩ := by
  obtain ⟨o, ho, hid, happ⟩ := h.offer
  have hoffers : w.offers.rows.filter (·.appId = some appId) = [o] := by
    refine w.offers.filter_eq_singleton (fun _ _ => Ledger.clashOn_comm _ _ _) ho (by simpa) ?_
    intro o' ho' happ'
    simp [sameApp, Ledger.clashOn, happ, (by simpa using happ' : o'.appId = some appId)]
  have hrows : w.disclosures.rows.filter (·.offerId = o.id) = [d] := by
    refine w.disclosures.filter_eq_singleton (fun _ _ => Ledger.clashOn_comm _ _ _) h.row
      (by simp [hid]) ?_
    intro d' hd' hoffer
    simp [sameOffer, Ledger.clashOn, hid, (by simpa using hoffer : d'.offerId = o.id)]
  rw [World.chainOf, if_neg h.application, hoffers, List.flatMap_singleton, World.chainRows, hrows]
  simp [chainRow, firstBy, hid, h.delivered]

theorem DeliveredTo.disclosure (h : DeliveredTo w appId d) : w.disclosure d.id = some d :=
  w.disclosures.find_pk h.row

/-- A chain that names a delivered disclosure names one of the application. -/
theorem deliveredTo_of_chainOf {chain : Chain} {id : Int} (h : w.chainOf appId = some chain)
    (hid : chain.disclosureId = some id) (hst : chain.disclosureStatus = some .delivered) :
    ∃ d, DeliveredTo w appId d ∧ d.id = id := by
  unfold World.chainOf at h
  split at h
  · cases h
  · rename_i happ
    obtain ⟨o, ho, hchain⟩ := List.mem_flatMap.mp (firstBy_mem h)
    obtain ⟨ho, hoapp⟩ := List.mem_filter.mp ho
    unfold World.chainRows at hchain
    split at hchain
    · rw [List.mem_singleton] at hchain
      subst hchain
      cases hid
    · obtain ⟨d, hd, rfl⟩ := List.mem_map.mp hchain
      obtain ⟨hd, hoffer⟩ := List.mem_filter.mp hd
      exact ⟨d, ⟨hd, Option.some.inj hst, ⟨o, ho, (of_decide_eq_true hoffer).symm,
        of_decide_eq_true hoapp⟩, happ⟩, Option.some.inj hid⟩

end Delivered

/-! ## Any interleaving -/

section Runs

variable {ι : Type} [DecidableEq ι] {D : Deployment} {calls : ι → Call} {w₀ : World}
  {tr : List (Entry reading ι)} {c : Config reading ι CallResult} {appId : Int}

theorem prog_obeys (D : Deployment) (call : Call) :
    (call.prog D).Obeys (fun _ _ => True)
      (fun l a => ∀ appId doc, call = .readDisclosureDocument false appId → a = .read (.ok doc) →
        Read appId doc l) [] := by
  cases call with
  | task t => exact (obeys_true _).mono (fun _ _ _ => trivial) fun _ _ _ _ _ h => nomatch h
  | readDisclosureDocument officer appId =>
    cases officer with
    | true => exact (obeys_true _).mono (fun _ _ _ => trivial) fun _ _ _ _ _ h => nomatch h
    | false =>
      refine (obeys_bind (readDisclosureDocument false appId) _).mpr ?_
      refine (readDisclosureDocument_obeys appId).mono (fun _ _ _ => trivial) fun l a h => ?_
      rintro appId' doc hcall hread
      cases hcall
      cases hread
      exact h doc rfl

/-- No statement takes a delivered disclosure back. -/
theorem deliveredTo_exec {d : DisclosureRow} (s : reading.Stmt) (w : World) (r : reading.Res s)
    (w' : World) (h : DeliveredTo w appId d) (hx : reading.exec s w = some (r, w')) :
    DeliveredTo w' appId d :=
  keeps_withReads (I := fun w : World => DeliveredTo w appId d) (fun _ _ _ _ hw hx => hw.exec hx)
    s w r w' h hx

/-- **A borrower reads what was delivered**: what a call that is no officer's returns is the document
of a disclosure of the application that was delivered when the chain was read, and from then on both
reads find that disclosure as it is. -/
theorem delivered_read (h : Run (startCalls D calls w₀) tr c) {i : ι} {doc : Document}
    (hcall : calls i = .readDisclosureDocument false appId)
    (hread : c.procs i = .ret (.read (.ok doc))) :
    ∃ chain w w' tr' d, .call i (.inr (.selectChainOf appId)) (some chain) w w' :: tr' <:+ tr ∧
      DeliveredTo w appId d ∧ d.documentBody = some doc ∧
      ∀ tr'' c', Run c tr'' c' → c'.world.disclosure d.id = some d ∧
        c'.world.chainOf appId = some ⟨d.offerId, some d.id, some .delivered⟩ := by
  obtain ⟨chain, id, row, hown, hid, hst, hdoc⟩ :=
    h.returned (φ := fun _ _ _ => True) (fun i => prog_obeys D (calls i)) hread appId doc hcall rfl
  obtain ⟨w₁, w₁', tr₁, hdocument, hbefore⟩ := exists_of_own_eq hown
  obtain ⟨w₂, w₂', tr₂, hchain, -⟩ := exists_of_own_eq hbefore
  have hsuffix := hchain.trans ((List.suffix_cons _ _).trans hdocument)
  -- The disclosure was delivered when the chain was read.
  obtain ⟨hanswer, rfl⟩ := exec_read (h.exec hsuffix)
  obtain ⟨d, hd, hdid⟩ := deliveredTo_of_chainOf hanswer.symm hid hst
  -- It still was when the document was read, so the row that was read is the disclosure.
  obtain ⟨c₁, c₂, hrun₁, hstep⟩ := h.entry hdocument
  have hd₁ : DeliveredTo w₁ appId d := by
    have hd₁ := hrun₁.persist (P := fun w : World => DeliveredTo w appId d) deliveredTo_exec
      (fun v _ hw => hw.env v) hchain hd
    rwa [← hstep.pre_eq] at hd₁
  have hexec : World.exec (.selectDisclosure id) w₁ = some (some row, w₁') := h.exec hdocument
  have hrow : w₁.disclosure id = some row := (exec_eq rfl hexec).1.symm
  rw [← hdid, hd₁.disclosure] at hrow
  rw [← Option.some.inj hrow] at hdoc
  have hd' : DeliveredTo c.world appId d :=
    h.persist (P := fun w : World => DeliveredTo w appId d) deliveredTo_exec
      (fun v _ hw => hw.env v) hsuffix hd
  refine ⟨chain, w₂', w₂', tr₂, d, hsuffix, hd, hdoc, fun tr'' c' hrun => ?_⟩
  have hlater : DeliveredTo c'.world appId d :=
    hrun.always (I := fun w : World => DeliveredTo w appId d) hd' deliveredTo_exec
      fun v _ hw => hw.env v
  exact ⟨hlater.disclosure, hlater.chainOf⟩

end Runs

/-! ## A borrower reads -/

/-- The disclosure of application 1 is delivered. -/
def World.released : World :=
  (World.disclosed (some sampleDocument)).move 1 .draft .delivered 9

theorem delivered_read_sample : ∃ tr c,
    Run (startCalls sampleDeployment (fun _ : Unit => .readDisclosureDocument false 1)
      World.released) tr c ∧
    ∃ chain w w' tr' d, .call () (.inr (.selectChainOf 1)) (some chain) w w' :: tr' <:+ tr ∧
      DeliveredTo w 1 d ∧ d.documentBody = some sampleDocument ∧
      ∀ tr'' c', Run c tr'' c' → c'.world.disclosure d.id = some d ∧
        c'.world.chainOf 1 = some ⟨d.offerId, some d.id, some .delivered⟩ := by
  obtain ⟨tr, c, hrun, hread⟩ := exists_run [.call (), .call ()]
    (startCalls sampleDeployment (fun _ : Unit => .readDisclosureDocument false 1) World.released)
    (fun x => (x.2.procs ()).result.bind CallResult.document = some sampleDocument)
    (by decide +kernel)
  obtain ⟨a, ha, hdoc⟩ : ∃ a, (c.procs ()).result = some a ∧ a.document = some sampleDocument := by
    exact Option.bind_eq_some_iff.mp hread
  have hret : c.procs () = .ret (.read (.ok sampleDocument)) := by
    rw [Prog.eq_ret_of_result ha, CallResult.eq_read hdoc]
  exact ⟨tr, c, hrun, delivered_read hrun rfl hret⟩

end Meridian.Origination
