import Meridian.Disclosure.Documents
import Meridian.Origination.Effects

/-!
# What each program issues

`Allowed l s` says which statements a call issues after the log `l`, and what its own earlier answers
said when it does. `task_obeys` proves it of every task, whatever the answers are; what follows under
interference is for the invariants to say.

* A new disclosure was checked against the offer and the event the call has read, and its document
  agrees with its figures.
* A replay repairs the disclosure it has read, and resets the status unless that was `draft`.
* A transition starts from the status the call has read; a delivery has read a document.
* A loan is boarded after one read of the identity check and one of the application, both passing.

`makeOffer` keeps to more (`Offering`): it cites the event it has read as the newest, after one read
of the outcome, which approved.
-/

namespace Meridian.Origination

open Python Relational Interleave Disclosure

/-- The reads `p` picks out of a log are one read with one answer. -/
def ReadOnce (p : Stmt → Bool) (x : Answered) (l : Log origination) : Prop :=
  x ∈ l ∧ ∀ y ∈ l, p y.1 = true → y = x

namespace Stmt

def isSelectOutcome : Stmt → Bool
  | selectOutcome _ => true
  | _ => false

def isSelectKyc : Stmt → Bool
  | selectKyc _ => true
  | _ => false

def isSelectBoarding : Stmt → Bool
  | selectBoarding _ => true
  | _ => false

end Stmt

/-- The event authorizes the offer, as `_refuse_if_decision_event_invalid` asks. -/
def Authorizes (eventId : Int) (e : EventRow) (o : OfferRow) : Prop :=
  e.outcome = .approve ∧
    match o.decisionEventId with
    | some cites => eventId = cites
    | none => some e.appId = o.appId

/-- What a call knows when it inserts a disclosure. -/
structure Checked (l : Log origination) (offerId eventId : Int) (rec : Record)
    (doc : Option Document) (closeEdge : Bool) : Prop where
  offer : ∃ o e, ⟨.selectOffer offerId, some o⟩ ∈ l ∧ ⟨.selectEvent eventId, some e⟩ ∈ l ∧
    Authorizes eventId e o ∧ closeEdge = o.decisionEventId.isNone
  document : ∀ d ∈ doc, Agrees d rec

/-- What a call knows when it repairs a disclosure. -/
def Repairs (l : Log origination) (id : Int) (doc : Option (Document × Bool))
    (edge : Option (Int × Int)) : Prop :=
  ∃ offerId o d, ⟨.selectOffer offerId, some o⟩ ∈ l ∧ ⟨.selectDisclosureOf offerId, some d⟩ ∈ l ∧
    d.id = id ∧
    (∀ x ∈ doc, d.documentBody = none ∧ Agrees x.1 d.record ∧ (x.2 = false → d.status = .draft)) ∧
    ∀ x ∈ edge, x = (o.id, d.decisionEventId)

/-- What a call knows when it moves a disclosure. -/
def Moves (l : Log origination) (id : Int) (current target : Status) : Prop :=
  ∃ asked d, ⟨.selectDisclosure asked, some d⟩ ∈ l ∧ d.id = id ∧ d.status = current ∧
    target ∈ current.next ∧ (target = .delivered → d.documentBody.isSome = true)

/-- What a call knows when it boards a loan. -/
def Boards (l : Log origination) (appId : Int) : Prop :=
  ∃ view r, ReadOnce Stmt.isSelectKyc ⟨.selectKyc appId, view⟩ l ∧ kycPassed view = true ∧
    ReadOnce Stmt.isSelectBoarding ⟨.selectBoarding appId, some r⟩ l ∧ r.outcome = some .approve

/-- The event of a new offer is one of its application. -/
def Cites (l : Log origination) (appId : Int) (eventId : Option Int) : Prop :=
  ∀ id ∈ eventId, ∃ e, ⟨.selectEvent id, some e⟩ ∈ l ∧ e.appId = appId

/-- The statements a call issues, against its own log. -/
def Allowed (l : Log origination) : Stmt → Prop
  | .insertOffer appId _ eventId => Cites l appId eventId
  | .insertDisclosure offerId eventId rec doc closeEdge =>
    Checked l offerId eventId rec doc closeEdge
  | .repair id doc edge => Repairs l id doc edge
  | .updateStatus id current target _ => Moves l id current target
  | .insertLoan appId _ _ _ _ => Boards l appId
  | _ => True

/-- What `makeOffer` keeps to. -/
def Offering (l : Log origination) : Stmt → Prop
  | .selectNewestEvent appId =>
    ReadOnce Stmt.isSelectOutcome ⟨.selectOutcome appId, some .approve⟩ l
  | .insertOffer appId _ eventId => Cites l appId eventId ∧
    ∀ id ∈ eventId, ⟨.selectNewestEvent appId, some id⟩ ∈ l
  | .insertDisclosure _ _ _ _ _ | .repair _ _ _ | .updateStatus _ _ _ _ | .insertLoan _ _ _ _ _ =>
    False
  | _ => True

/-- A statement that no discipline says anything of. -/
def Stmt.guarded : Stmt → Bool
  | insertOffer _ _ _ | insertDisclosure _ _ _ _ _ | repair _ _ _ | updateStatus _ _ _ _
  | insertLoan _ _ _ _ _ | selectNewestEvent _ => true
  | _ => false

theorem allowed_free (l : Log origination) {s : Stmt} (h : s.guarded = false) : Allowed l s := by
  cases s <;> trivial

theorem offering_free (l : Log origination) {s : Stmt} (h : s.guarded = false) :
    Offering l s := by
  cases s <;> trivial

theorem Offering.allowed {l : Log origination} {s : Stmt} (h : Offering l s) : Allowed l s := by
  cases s with
  | insertOffer => exact h.1
  | insertDisclosure | repair | updateStatus | insertLoan => exact h.elim
  | _ => trivial

/-! ## Deciding and checking identity -/

section Free

variable {φ : Log origination → Stmt → Prop} {l : Log origination}

theorem persistEvent_obeys (hfree : ∀ l s, s.guarded = false → φ l s) (r : DecideIn)
    (requestId : Option Text) : (persistEvent r requestId).Obeys φ (fun _ _ => True) l := by
  refine ⟨hfree _ _ rfl, fun start => ⟨hfree _ _ rfl, fun id => ⟨hfree _ _ rfl, fun x => ?_⟩⟩⟩
  cases x with
  | ok u => trivial
  | error e =>
    cases e with
    | uniqueViolation =>
      cases requestId with
      | none => trivial
      | some rid =>
        refine ⟨hfree _ _ rfl, fun existing => ?_⟩
        cases existing <;> trivial
    | foreignKeyViolation => trivial
    | frozen => trivial

theorem runDecision_obeys (hfree : ∀ l s, s.guarded = false → φ l s) (r : DecideIn)
    (requestId : Option Text) : (runDecision r requestId).Obeys φ (fun _ _ => True) l := by
  refine (obeys_bind (persistEvent r requestId) _).mpr ?_
  refine (persistEvent_obeys hfree r requestId).mono (fun _ _ h => h) fun l x _ => ?_
  cases x with
  | error e => trivial
  | ok raced => cases raced <;> trivial

/-- **`decide`** issues no guarded statement. -/
theorem decide_obeys (hfree : ∀ l s, s.guarded = false → φ l s) (r : DecideIn) :
    (decide r).Obeys φ (fun _ _ => True) l := by
  unfold decide
  split
  · exact runDecision_obeys hfree r none
  · exact runDecision_obeys hfree r none
  · rename_i rid _ _
    refine ⟨hfree _ _ rfl, fun _ => ⟨hfree _ _ rfl, fun existing => ?_⟩⟩
    cases existing with
    | some existing => exact ⟨hfree _ _ rfl, fun _ => trivial⟩
    | none =>
      refine (obeys_bind (runDecision r (some rid)) _).mpr ?_
      exact (runDecision_obeys hfree r (some rid)).mono (fun _ _ h => h)
        fun l x _ => ⟨hfree _ _ rfl, fun _ => trivial⟩

/-- **`cipCheck`** issues no guarded statement. -/
theorem cipCheck_obeys (hfree : ∀ l s, s.guarded = false → φ l s) (applicantId : Int)
    (cip : CipResult) : (cipCheck applicantId cip).Obeys φ (fun _ _ => True) l :=
  ⟨hfree _ _ rfl, fun _ => ⟨hfree _ _ rfl, fun _ => trivial⟩⟩

end Free

/-! ## Offers -/

section Offers

variable {φ : Log origination → Stmt → Prop} {l : Log origination} {D : Deployment} {b : OfferIn}

theorem insertOffer_obeys (hfree : ∀ l s, s.guarded = false → φ l s)
    (hins : ∀ box, φ l (.insertOffer b.applicationId box b.decisionEventId)) :
    (insertOffer D b).Obeys φ (fun _ _ => True) l := by
  unfold insertOffer
  cases buildOffer D.schedule b.terms with
  | error f => trivial
  | ok o =>
    refine ⟨hins _, fun x => ?_⟩
    cases x with
    | ok id => trivial
    | error e =>
      cases e with
      | uniqueViolation =>
        refine ⟨hfree _ _ rfl, fun won => ?_⟩
        cases won <;> trivial
      | foreignKeyViolation => trivial
      | frozen => trivial

/-- **`create_offer`** inserts after it has found the event to be the application's. -/
theorem createOffer_obeys (hfree : ∀ l s, s.guarded = false → φ l s)
    (hins : ∀ l' box, (∀ x ∈ l, x ∈ l') → Cites l' b.applicationId b.decisionEventId →
      φ l' (.insertOffer b.applicationId box b.decisionEventId)) :
    (createOffer D b).Obeys φ (fun _ _ => True) l := by
  refine ⟨hfree _ _ rfl, fun existing => ?_⟩
  cases existing with
  | some o => trivial
  | none =>
    cases he : b.decisionEventId with
    | none =>
      dsimp only
      refine insertOffer_obeys hfree fun box => hins _ box (fun x hx => ?_) ?_
      · exact List.mem_cons_of_mem _ hx
      · rw [he]
        exact nofun
    | some e =>
      dsimp only
      refine ⟨hfree _ _ rfl, fun event => ?_⟩
      cases event with
      | none => trivial
      | some event =>
        change Prog.Obeys _ _ _ (Prog.bind (.ret (if event.appId ≠ b.applicationId then _ else _)) _)
        by_cases happ : event.appId = b.applicationId
        · rw [if_neg (not_not.mpr happ)]
          refine insertOffer_obeys hfree fun box => hins _ box (fun x hx => ?_) ?_
          · exact List.mem_cons_of_mem _ (List.mem_cons_of_mem _ hx)
          · rw [he]
            rintro id hid
            cases hid
            exact ⟨event, List.mem_cons_self, happ⟩
        · rw [if_pos happ]
          trivial

/-- **`make_offer`** cites what it has read as the newest event, after an approving outcome. -/
theorem makeOffer_obeys (D : Deployment) (appId : Int) :
    (makeOffer D appId).Obeys Offering (fun _ _ => True) [] := by
  refine ⟨trivial, fun view => ?_⟩
  change Prog.Obeys _ _ _ (if kycPassed view = false then _ else _)
  split
  · trivial
  refine ⟨trivial, fun terms => ?_⟩
  cases terms with
  | none => trivial
  | some terms =>
    refine ⟨trivial, fun outcome => ?_⟩
    change Prog.Obeys _ _ _ (if outcome ≠ some .approve then _ else _)
    by_cases hout : outcome = some .approve
    · rw [if_neg (not_not.mpr hout)]
      subst hout
      refine ⟨⟨List.mem_cons_self, by simp [Stmt.isSelectOutcome]⟩, fun event => ?_⟩
      dsimp only [Prog.bind]
      cases admitted terms.1 policyRatePct terms.2 with
      | none => trivial
      | some t =>
        refine createOffer_obeys offering_free fun l' box hl hcites => ⟨hcites, ?_⟩
        rintro id hid
        cases hid
        exact hl _ List.mem_cons_self
    · rw [if_pos hout]
      trivial

end Offers

/-! ## Disclosures -/

section Disclosures

variable {l : Log origination} {D : Deployment} {b : DisclosureIn} {offer : OfferRow}
  {row : DisclosureRow}

theorem refuseIfDecisionEventInvalid_obeys (eventId : Int) (offer : OfferRow) :
    (refuseIfDecisionEventInvalid eventId offer).Obeys Allowed (fun l' refused =>
      (∀ x ∈ l, x ∈ l') ∧ (refused = none → ∃ e, ⟨.selectEvent eventId, some e⟩ ∈ l' ∧
        Authorizes eventId e offer)) l := by
  refine ⟨trivial, fun event => ?_⟩
  have hl : ∀ x ∈ l, x ∈ (⟨.selectEvent eventId, event⟩ : Answered) :: l :=
    fun x hx => List.mem_cons_of_mem _ hx
  cases event with
  | none => exact ⟨hl, nofun⟩
  | some e =>
    change Prog.Obeys _ _ _ (if e.outcome ≠ .approve then _ else _)
    by_cases hout : e.outcome = .approve
    · rw [if_neg (not_not.mpr hout)]
      cases hedge : offer.decisionEventId with
      | some cites =>
        refine ⟨hl, fun hnone => ⟨e, List.mem_cons_self, hout, ?_⟩⟩
        rw [hedge]
        by_contra hne
        rw [if_pos hne] at hnone
        cases hnone
      | none =>
        refine ⟨hl, fun hnone => ⟨e, List.mem_cons_self, hout, ?_⟩⟩
        rw [hedge]
        by_contra hne
        rw [if_pos hne] at hnone
        cases hnone
    · rw [if_pos hout]
      exact ⟨hl, nofun⟩

/-- A repair writes a missing document that agrees, and keeps only the status `draft`. -/
theorem repairMissingDocument_ok {document : Option Document} {x : Document × Bool}
    (h : repairMissingDocument row document = .ok (some x)) :
    row.documentBody = none ∧ Agrees x.1 row.record ∧ (x.2 = false → row.status = .draft) := by
  unfold repairMissingDocument at h
  split at h
  · rename_i doc hnone
    split at h
    · cases h
    · split at h
      · cases h
      · rename_i hagrees
        cases h
        exact ⟨hnone, hagrees, fun hfalse => by simpa using hfalse⟩
  · cases h

theorem closeProvenanceEdge_eq {e : Int} {x : Int × Int}
    (h : closeProvenanceEdge offer e = some x) : x = (offer.id, e) := by
  unfold closeProvenanceEdge at h
  split at h <;> cases h
  rfl

/-- **A replay** repairs the row it has read. -/
theorem replayDisclosure_obeys {offerId : Int} {document : Option Document}
    (hoffer : ⟨.selectOffer offerId, some offer⟩ ∈ l)
    (hrow : ⟨.selectDisclosureOf offerId, some row⟩ ∈ l) :
    (replayDisclosure offer row document).Obeys Allowed (fun _ _ => True) l := by
  unfold replayDisclosure
  cases hrep : repairMissingDocument row document with
  | error r => trivial
  | ok repaired =>
    dsimp only
    split
    · trivial
    · refine ⟨⟨offerId, offer, row, hoffer, hrow, rfl, ?_, ?_⟩, fun x => ?_⟩
      · rintro x hx
        rw [Option.mem_def.mp hx] at hrep
        exact repairMissingDocument_ok hrep
      · rintro x hx
        exact closeProvenanceEdge_eq hx
      · cases x with
        | error e => trivial
        | ok u => exact ⟨trivial, fun _ => trivial⟩

/-- **A lost race** closes the edge from the row that won it. -/
theorem loseRace_obeys (offerId : Int) (cause : Refused) :
    (loseRace offerId cause).Obeys Allowed (fun _ _ => True) l := by
  refine ⟨trivial, fun winner => ?_⟩
  cases winner with
  | none => trivial
  | some winner =>
    refine ⟨trivial, fun offer => ?_⟩
    cases offer with
    | none => trivial
    | some offer =>
      dsimp only [Prog.bind]
      cases hedge : closeProvenanceEdge offer winner.decisionEventId with
      | none => trivial
      | some edge =>
        refine ⟨⟨offerId, offer, winner, List.mem_cons_self, ?_, rfl, nofun, ?_⟩, fun x => ?_⟩
        · exact List.mem_cons_of_mem _ List.mem_cons_self
        · rintro x hx
          cases hx
          exact closeProvenanceEdge_eq hedge
        · cases x <;> trivial

/-- **The fresh path** inserts a record that was checked. -/
theorem insertDisclosure_obeys (hoffer : ⟨.selectOffer b.offerId, some offer⟩ ∈ l)
    (hevent : ∃ e, ⟨.selectEvent b.decisionEventId, some e⟩ ∈ l ∧
      Authorizes b.decisionEventId e offer) :
    (insertDisclosure D b offer).Obeys Allowed (fun _ _ => True) l := by
  unfold insertDisclosure
  cases hrec : createRecord D.sha256 D.schedule b.terms offer.box b.document with
  | error r =>
    cases r with
    | checkViolation => exact loseRace_obeys _ _
    | _ => trivial
  | ok record =>
    obtain ⟨e, he, hauth⟩ := hevent
    refine ⟨⟨⟨offer, e, hoffer, he, hauth, ?_⟩, ?_⟩, fun x => ?_⟩
    · unfold closeProvenanceEdge
      cases offer.decisionEventId <;> rfl
    · rintro doc hdoc
      rw [Option.mem_def.mp hdoc] at hrec
      exact createRecord_agrees hrec
    · cases x with
      | ok inserted => exact ⟨trivial, fun _ => trivial⟩
      | error e => exact loseRace_obeys _ _

/-- **`create_disclosure`.** -/
theorem createDisclosure_obeys (D : Deployment) (b : DisclosureIn) :
    (createDisclosure D b).Obeys Allowed (fun _ _ => True) [] := by
  refine ⟨trivial, fun offer => ?_⟩
  cases offer with
  | none => trivial
  | some offer =>
    refine ⟨trivial, fun existing => ?_⟩
    cases existing with
    | some existing =>
      exact replayDisclosure_obeys (List.mem_cons_of_mem _ List.mem_cons_self) List.mem_cons_self
    | none =>
      refine (obeys_bind (refuseIfDecisionEventInvalid b.decisionEventId offer) _).mpr ?_
      refine (refuseIfDecisionEventInvalid_obeys b.decisionEventId offer).mono (fun _ _ h => h)
        fun l' refused hl => ?_
      cases refused with
      | some refused => trivial
      | none =>
        have hoffer := hl.1 _ (List.mem_cons_of_mem _ List.mem_cons_self)
        exact insertDisclosure_obeys hoffer (hl.2 rfl)

end Disclosures

/-! ## The lifecycle -/

section Lifecycle

variable {l : Log origination} {row : DisclosureRow} {target : Status}

theorem legalTarget_ok {current : Status} {b : TransitionIn} {route : Option Text}
    (h : legalTarget current b = .ok (target, route)) : target ∈ current.next := by
  unfold legalTarget at h
  split at h
  · cases h
  · rename_i t ht
    have hmem := List.mem_of_find?_eq_some ht
    split at h
    · split at h <;> cases h
      exact hmem
    · cases h
      exact hmem

theorem refuseDelivery_obeys (row : DisclosureRow) :
    (refuseDelivery row).Obeys Allowed (fun l' refused => (∀ x ∈ l, x ∈ l') ∧
      (refused = none → row.documentBody.isSome = true)) l := by
  unfold refuseDelivery
  by_cases hdoc : row.documentBody = none
  · rw [if_pos hdoc]
    exact ⟨fun x hx => hx, nofun⟩
  · rw [if_neg hdoc]
    have hsome := Option.isSome_iff_ne_none.mpr hdoc
    cases refuseIfDocumentDisagrees row.documentBody row.record.persistedOutputs with
    | error r => exact ⟨fun x hx => hx, nofun⟩
    | ok u =>
      refine ⟨trivial, fun chain => ?_⟩
      dsimp only [Prog.bind]
      cases (chain.map incompleteEdges).getD chainEdges with
      | cons e missing => exact ⟨fun x hx => List.mem_cons_of_mem _ hx, nofun⟩
      | nil =>
        refine ⟨trivial, fun boarded => ⟨fun x hx => ?_, fun _ => hsome⟩⟩
        exact List.mem_cons_of_mem _ (List.mem_cons_of_mem _ hx)

theorem writeStatus_obeys {time : Int} {route : Option Text}
    (h : Moves l row.id row.status target) :
    (writeStatus row target time route).Obeys Allowed (fun _ _ => True) l := by
  refine ⟨h, fun x => ?_⟩
  rcases x with e | _ | n
  · trivial
  · trivial
  · exact ⟨trivial, fun _ => trivial⟩

/-- **`transition_disclosure`** moves the row from the status it has read. -/
theorem transitionDisclosure_obeys (disclosureId : Int) (b : TransitionIn) :
    (transitionDisclosure disclosureId b).Obeys Allowed (fun _ _ => True) [] := by
  refine ⟨trivial, fun row => ?_⟩
  cases row with
  | none => trivial
  | some row =>
    dsimp only [Prog.bind]
    cases htarget : legalTarget row.status b with
    | error r => trivial
    | ok t =>
      obtain ⟨target, route⟩ := t
      have hnext := legalTarget_ok htarget
      dsimp only
      by_cases hdel : target = .delivered
      · rw [if_pos hdel]
        refine (obeys_bind (refuseDelivery row) _).mpr ?_
        refine (refuseDelivery_obeys row).mono (fun _ _ h => h) fun l refused hl => ?_
        cases refused with
        | some refused => trivial
        | none =>
          refine ⟨trivial, fun time => writeStatus_obeys ⟨disclosureId, row, ?_, rfl, rfl, hnext,
            fun _ => hl.2 rfl⟩⟩
          exact List.mem_cons_of_mem _ (hl.1 _ List.mem_cons_self)
      · rw [if_neg hdel]
        exact writeStatus_obeys ⟨disclosureId, row, List.mem_cons_self, rfl, rfl, hnext,
          fun h => absurd h hdel⟩

end Lifecycle

/-! ## Boarding -/

/-- **`accept_offer`** boards after one passing read of the check and one of the application. -/
theorem acceptOffer_obeys (appId : Int) :
    (acceptOffer appId).Obeys Allowed (fun _ _ => True) [] := by
  refine ⟨trivial, fun view => ?_⟩
  dsimp only [Prog.bind]
  by_cases hkyc : kycPassed view = false
  · rw [if_pos hkyc]
    trivial
  rw [if_neg hkyc]
  refine ⟨trivial, fun r => ?_⟩
  cases r with
  | none => trivial
  | some r =>
    dsimp only [Prog.bind]
    by_cases hout : r.outcome = some .approve
    · rw [if_neg (not_not.mpr hout)]
      cases r.apr with
      | none => trivial
      | some apr =>
        refine ⟨trivial, fun existing => ?_⟩
        cases existing with
        | some existing => trivial
        | none =>
          dsimp only [Prog.bind, board]
          cases boardingGuards r apr with
          | error refused => trivial
          | ok noteRate =>
            refine ⟨⟨view, r, ⟨by simp, by simp [Stmt.isSelectKyc]⟩, by simpa using hkyc,
              ⟨by simp, by simp [Stmt.isSelectBoarding]⟩, hout⟩, fun x => ?_⟩
            cases x with
            | ok id => trivial
            | error e =>
              cases e with
              | uniqueViolation =>
                refine ⟨trivial, fun won => ?_⟩
                cases won <;> trivial
              | foreignKeyViolation => trivial
              | frozen => trivial
    · rw [if_pos hout]
      trivial

/-! ## Every task -/

/-- **Every task keeps to `Allowed`.** -/
theorem task_obeys (D : Deployment) (t : Task) :
    (t.prog D).Obeys Allowed (fun _ _ => True) [] := by
  cases t with
  | decide r =>
    refine (obeys_bind (decide r) _).mpr ?_
    exact (decide_obeys (fun l _ h => allowed_free l h) r).mono (fun _ _ h => h) fun _ _ h => h
  | cipCheck applicantId cip =>
    refine (obeys_bind (cipCheck applicantId cip) _).mpr ?_
    exact (cipCheck_obeys (fun l _ h => allowed_free l h) applicantId cip).mono (fun _ _ h => h)
      fun _ _ h => h
  | createOffer b =>
    refine (obeys_bind (createOffer D b) _).mpr ?_
    exact (createOffer_obeys (fun l _ h => allowed_free l h) fun _ _ _ hcites => hcites).mono
      (fun _ _ h => h) fun _ _ h => h
  | makeOffer appId =>
    refine (obeys_bind (makeOffer D appId) _).mpr ?_
    exact (makeOffer_obeys D appId).mono (fun _ _ h => h.allowed) fun _ _ h => h
  | createDisclosure b =>
    refine (obeys_bind (createDisclosure D b) _).mpr ?_
    exact (createDisclosure_obeys D b).mono (fun _ _ h => h) fun _ _ h => h
  | transitionDisclosure id b =>
    refine (obeys_bind (transitionDisclosure id b) _).mpr ?_
    exact (transitionDisclosure_obeys id b).mono (fun _ _ h => h) fun _ _ h => h
  | acceptOffer appId =>
    refine (obeys_bind (acceptOffer appId) _).mpr ?_
    exact (acceptOffer_obeys appId).mono (fun _ _ h => h) fun _ _ h => h

end Meridian.Origination
