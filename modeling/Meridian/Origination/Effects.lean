import Meridian.Origination.Services

/-!
# What a statement can do

`Effect w x w'` says everything an executed statement can do to the tables, guards included: it
leaves them alone, or it is one of the writes, with what was checked before it. `exec_effect` proves
it of every statement; every invariant is derived from it, and none unfolds a statement again.
-/

namespace Meridian.Origination

open Python Relational Interleave Disclosure
open Ledger (clashOn clashOn_iff)

/-! ## Statement by statement -/

namespace World

variable (w : World)

theorem persistEvent_cases (e : EventRow) :
    (∃ t, w.persistEvent e = (.ok (), { w with
        events := t, decisions := Function.update w.decisions e.appId (some e.outcome) }) ∧
      t.rows = e :: w.events.rows) ∨
    w.persistEvent e = (.error .uniqueViolation, w) := by
  unfold persistEvent
  rcases w.events.insert?_cases e with ⟨hins, -⟩ | ⟨t, hins, hrows, -⟩
  · rw [hins]
    exact .inr rfl
  · rw [hins]
    exact .inl ⟨t, rfl, hrows⟩

theorem insertOffer_cases (appId : Int) (box : OfferBox) (edge : Option Int) :
    (∃ t, w.insertOffer appId box edge = (.ok w.offers.next, { w with offers := t }) ∧
      t.rows = ⟨w.offers.next, some appId, box, edge⟩ :: w.offers.rows ∧
      ∀ o ∈ w.offers.rows, o.appId ≠ some appId) ∨
    ∃ e t, w.insertOffer appId box edge = (.error e, { w with offers := t }) ∧
      t.rows = w.offers.rows := by
  unfold insertOffer
  by_cases hfk : w.application appId = none ∨ ∃ e, edge = some e ∧ w.event e = none
  · rw [if_pos hfk]
    exact .inr ⟨_, _, rfl, rfl⟩
  · rw [if_neg hfk]
    rcases w.offers.insertNext_cases (fun id => ⟨id, some appId, box, edge⟩) fun _ => rfl with
      ⟨hins, -⟩ | ⟨t, hins, hrows, -, hfree⟩
    · simp only [hins]
      exact .inr ⟨_, _, rfl, rfl⟩
    · simp only [hins]
      refine .inl ⟨t, rfl, hrows, fun o ho happ => ?_⟩
      have hclash : sameApp ⟨w.offers.next, some appId, box, edge⟩ o = true :=
        clashOn_iff.mpr ⟨appId, rfl, happ⟩
      rw [hfree o ho] at hclash
      cases hclash

theorem insertDisclosure_cases (offerId eventId : Int) (r : Record) (doc : Option Document)
    (closeEdge : Bool) :
    (∃ d t, w.insertDisclosure offerId eventId r doc closeEdge = (.ok d,
        if closeEdge then { w with disclosures := t }.setEdge offerId eventId
        else { w with disclosures := t }) ∧
      t.rows = d :: w.disclosures.rows ∧ d.id = w.disclosures.next ∧ d.offerId = offerId ∧
      d.decisionEventId = eventId ∧ d.status = .draft ∧ d.record = r ∧ d.documentBody = doc ∧
      ∀ d' ∈ w.disclosures.rows, d'.offerId ≠ offerId) ∨
    ∃ e t, w.insertDisclosure offerId eventId r doc closeEdge =
      (.error e, { w with disclosures := t }) ∧ t.rows = w.disclosures.rows := by
  unfold insertDisclosure
  by_cases hfk : w.offer offerId = none ∨ w.event eventId = none
  · rw [if_pos hfk]
    exact .inr ⟨_, _, rfl, rfl⟩
  · rw [if_neg hfk]
    rcases w.disclosures.insertNext_cases
        (fun id => ⟨id, offerId, eventId, .draft, r, doc, none, by simp⟩) fun _ => rfl with
      ⟨hins, -⟩ | ⟨t, hins, hrows, -, hfree⟩
    · simp only [hins]
      exact .inr ⟨_, _, rfl, rfl⟩
    · simp only [hins]
      refine .inl ⟨_, t, rfl, hrows, rfl, rfl, rfl, rfl, rfl, rfl, fun d' hd' hoffer => ?_⟩
      have hclash : sameOffer
          ⟨w.disclosures.next, offerId, eventId, .draft, r, doc, none, by simp⟩ d' = true :=
        clashOn_iff.mpr ⟨offerId, rfl, congrArg some hoffer⟩
      rw [hfree d' hd'] at hclash
      cases hclash

/-- The document part of a repair. -/
def attached (w : World) (id : Int) : Option (Document × Bool) → World
  | none => w
  | some (doc, reset) => w.attach id doc reset

/-- The edge part of a repair. -/
def edged (w : World) : Option (Int × Int) → World
  | none => w
  | some (offerId, eventId) => w.setEdge offerId eventId

theorem repair_cases (id : Int) (doc : Option (Document × Bool)) (edge : Option (Int × Int)) :
    (w.repair id doc edge = (.ok (), (w.attached id doc).edged edge) ∧
      (doc ≠ none → ∀ d, w.disclosure id = some d → d.status ≠ .delivered)) ∨
    w.repair id doc edge = (.error .frozen, w) := by
  unfold repair
  by_cases hfrozen : doc ≠ none ∧ (w.disclosure id).any (·.status = .delivered)
  · rw [if_pos hfrozen]
    exact .inr rfl
  · rw [if_neg hfrozen]
    refine .inl ⟨?_, fun hdoc d hd hst => hfrozen ⟨hdoc, by rw [hd]; simpa using hst⟩⟩
    cases doc <;> cases edge <;> rfl

theorem updateStatus_cases (id : Int) (current target : Status) (time : Int) :
    (∃ d, w.disclosure id = some d ∧ d.status = current ∧ current ≠ .delivered ∧
      w.updateStatus id current target time = (.ok 1, w.move id current target time)) ∨
    ∃ x, x ≠ .ok 1 ∧ w.updateStatus id current target time = (x, w) := by
  unfold updateStatus
  cases hd : w.disclosure id with
  | none => exact .inr ⟨_, by simp, rfl⟩
  | some d =>
    by_cases hcur : d.status = current
    · subst hcur
      by_cases hdel : d.status = .delivered
      · exact .inr ⟨.error .frozen, by simp, by simp [hdel]⟩
      · exact .inl ⟨d, rfl, rfl, hdel, by simp [hdel]⟩
    · exact .inr ⟨.ok 0, by simp, by simp [hcur]⟩

theorem insertLoan_cases (appId : Int) (p a : Option Double) (n : Double) (t : Option Int) :
    (∃ loans, w.insertLoan appId p a n t = (.ok w.loans.next, { w with loans := loans }) ∧
      loans.rows = ⟨w.loans.next, some appId, p, a, n, t⟩ :: w.loans.rows) ∨
    ∃ loans, w.insertLoan appId p a n t = (.error .uniqueViolation, { w with loans := loans }) ∧
      loans.rows = w.loans.rows := by
  unfold insertLoan
  rcases w.loans.insertNext_cases (fun id => ⟨id, some appId, p, a, n, t⟩) fun _ => rfl with
    ⟨hins, -⟩ | ⟨loans, hins, hrows, -⟩
  · simp only [hins]
    exact .inr ⟨_, rfl, rfl⟩
  · simp only [hins]
    exact .inl ⟨loans, rfl, hrows⟩

end World

/-! ## One step -/

/-- A statement with its answer, as a log holds it. -/
abbrev Answered := (s : Stmt) × s.Res

/-- The statement wrote. -/
def wrote : Answered → Bool
  | ⟨.persistEvent _, .ok _⟩ => true
  | ⟨.insertKyc _, _⟩ => true
  | ⟨.insertOffer _ _ _, .ok _⟩ => true
  | ⟨.insertDisclosure _ _ _ _ _, .ok _⟩ => true
  | ⟨.repair _ _ _, .ok _⟩ => true
  | ⟨.updateStatus _ _ _ _, .ok 1⟩ => true
  | ⟨.insertLoan _ _ _ _ _, .ok _⟩ => true
  | _ => false

/-- The rows of every table are the same. -/
structure SameTables (w w' : World) : Prop where
  applicants : w'.applicants = w.applicants
  applications : w'.applications = w.applications
  kycChecks : w'.kycChecks = w.kycChecks
  decisions : w'.decisions = w.decisions
  events : w'.events.rows = w.events.rows
  offers : w'.offers.rows = w.offers.rows
  disclosures : w'.disclosures.rows = w.disclosures.rows
  loans : w'.loans.rows = w.loans.rows

/-- What an executed statement does to the tables. -/
inductive Effect (w : World) : Answered → World → Prop
  | same {x : Answered} {w' : World} (hx : wrote x = false) (h : SameTables w w') : Effect w x w'
  | event (e : EventRow) {t : Relational.Table EventRow sameEvent}
      (ht : t.rows = e :: w.events.rows) :
      Effect w ⟨.persistEvent e, .ok ()⟩ { w with
        events := t, decisions := Function.update w.decisions e.appId (some e.outcome) }
  | kyc (k : KycRow) : Effect w ⟨.insertKyc k, ()⟩ { w with kycChecks := k :: w.kycChecks }
  | offer (appId : Int) (box : OfferBox) (edge : Option Int)
      {t : Serial OfferRow OfferRow.id sameApp}
      (ht : t.rows = ⟨w.offers.next, some appId, box, edge⟩ :: w.offers.rows)
      (hfree : ∀ o ∈ w.offers.rows, o.appId ≠ some appId) :
      Effect w ⟨.insertOffer appId box edge, .ok w.offers.next⟩ { w with offers := t }
  | disclosure (offerId eventId : Int) (rec : Record) (doc : Option Document) (closeEdge : Bool)
      {d : DisclosureRow} {t : Serial DisclosureRow DisclosureRow.id sameOffer}
      (ht : t.rows = d :: w.disclosures.rows)
      (hd : d.id = w.disclosures.next ∧ d.offerId = offerId ∧ d.decisionEventId = eventId ∧
        d.status = .draft ∧ d.record = rec ∧ d.documentBody = doc)
      (hfree : ∀ d' ∈ w.disclosures.rows, d'.offerId ≠ offerId) :
      Effect w ⟨.insertDisclosure offerId eventId rec doc closeEdge, .ok d⟩
        ({ w with disclosures := t }.edged (if closeEdge then some (offerId, eventId) else none))
  | repair (id : Int) (doc : Option (Document × Bool)) (edge : Option (Int × Int))
      (hopen : doc ≠ none → ∀ d, w.disclosure id = some d → d.status ≠ .delivered) :
      Effect w ⟨.repair id doc edge, .ok ()⟩ ((w.attached id doc).edged edge)
  | move (id : Int) (current target : Status) (time : Int) {d : DisclosureRow}
      (hd : w.disclosure id = some d) (hcurrent : d.status = current)
      (hopen : current ≠ .delivered) :
      Effect w ⟨.updateStatus id current target time, .ok 1⟩ (w.move id current target time)
  | loan (appId : Int) (p a : Option Double) (n : Double) (t : Option Int)
      {loans : Serial LoanRow LoanRow.id sameLoanApp}
      (ht : loans.rows = ⟨w.loans.next, some appId, p, a, n, t⟩ :: w.loans.rows) :
      Effect w ⟨.insertLoan appId p a n t, .ok w.loans.next⟩ { w with loans := loans }

variable {s : Stmt} {r : s.Res} {w w' : World}

theorem SameTables.refl (w : World) : SameTables w w := by constructor <;> rfl

/-- Statements that write no table. -/
def Stmt.reads : Stmt → Bool
  | persistEvent _ | insertKyc _ | insertOffer _ _ _ | insertDisclosure _ _ _ _ _ | repair _ _ _
  | updateStatus _ _ _ _ | insertLoan _ _ _ _ _ => false
  | _ => true

theorem exec_eq {x : s.Res × World} (hx : w.exec s = some x) (h : w.exec s = some (r, w')) :
    r = x.1 ∧ w' = x.2 := by
  rw [hx] at h
  cases h
  exact ⟨rfl, rfl⟩

theorem exec_reads (hs : s.reads = true) (h : w.exec s = some (r, w')) : SameTables w w' := by
  cases s with
  | lock appId requestId =>
    have h : (if (appId, requestId) ∈ w.locks then none
      else some ((), { w with locks := (appId, requestId) :: w.locks })) = some (r, w') := h
    split_ifs at h
    cases h
    constructor <;> rfl
  | persistEvent | insertKyc | insertOffer | insertDisclosure | repair | updateStatus
  | insertLoan => cases hs
  | _ =>
    obtain ⟨-, rfl⟩ := exec_eq rfl h
    constructor <;> rfl

theorem env_same (e : Env) (w : World) : SameTables w (w.env e) := by
  cases e <;> constructor <;> rfl

theorem wrote_reads (hs : s.reads = true) (r : s.Res) : wrote ⟨s, r⟩ = false := by
  cases s <;> first | rfl | cases hs

theorem wrote_move {id : Int} {current target : Status} {time : Int} {x : Except DbError Nat}
    (hx : x ≠ .ok 1) : wrote ⟨.updateStatus id current target time, x⟩ = false := by
  rcases x with _ | _ | _ | _
  · rfl
  · rfl
  · exact absurd rfl hx
  · rfl

/-- **What one statement does.** -/
theorem exec_effect (h : w.exec s = some (r, w')) : Effect w ⟨s, r⟩ w' := by
  by_cases hs : s.reads = true
  · exact .same (wrote_reads hs r) (exec_reads hs h)
  cases s with
  | persistEvent e =>
    obtain ⟨rfl, rfl⟩ := exec_eq rfl h
    rcases w.persistEvent_cases e with ⟨t, ht, hrows⟩ | ht
    · rw [ht]
      exact .event e hrows
    · rw [ht]
      exact .same rfl (SameTables.refl w)
  | insertKyc k =>
    obtain ⟨rfl, rfl⟩ := exec_eq rfl h
    exact .kyc k
  | insertOffer appId box edge =>
    obtain ⟨rfl, rfl⟩ := exec_eq rfl h
    rcases w.insertOffer_cases appId box edge with ⟨t, ht, hrows, hfree⟩ | ⟨e, t, ht, hrows⟩
    · rw [ht]
      exact .offer appId box edge hrows hfree
    · rw [ht]
      exact .same rfl { SameTables.refl w with offers := hrows }
  | insertDisclosure offerId eventId rec doc closeEdge =>
    obtain ⟨rfl, rfl⟩ := exec_eq rfl h
    rcases w.insertDisclosure_cases offerId eventId rec doc closeEdge with
      ⟨d, t, ht, hrows, hid, ho, he, hst, hr, hdoc, hfree⟩ | ⟨e, t, ht, hrows⟩
    · have heffect := Effect.disclosure (w := w) offerId eventId rec doc closeEdge hrows
        ⟨hid, ho, he, hst, hr, hdoc⟩ hfree
      rw [ht]
      cases closeEdge <;> exact heffect
    · rw [ht]
      exact .same rfl { SameTables.refl w with disclosures := hrows }
  | repair id doc edge =>
    obtain ⟨rfl, rfl⟩ := exec_eq rfl h
    rcases w.repair_cases id doc edge with ⟨ht, hopen⟩ | ht
    · rw [ht]
      exact .repair id doc edge hopen
    · rw [ht]
      exact .same rfl (SameTables.refl w)
  | updateStatus id current target time =>
    obtain ⟨rfl, rfl⟩ := exec_eq rfl h
    rcases w.updateStatus_cases id current target time with ⟨d, hd, hcur, hopen, ht⟩ | ⟨x, hx, ht⟩
    · rw [ht]
      exact .move id current target time hd hcur hopen
    · rw [ht]
      exact .same (wrote_move hx) (SameTables.refl w)
  | insertLoan appId p a n t =>
    obtain ⟨rfl, rfl⟩ := exec_eq rfl h
    rcases w.insertLoan_cases appId p a n t with ⟨loans, ht, hrows⟩ | ⟨loans, ht, hrows⟩
    · rw [ht]
      exact .loan appId p a n t hrows
    · rw [ht]
      exact .same rfl { SameTables.refl w with loans := hrows }
  | _ => exact absurd rfl hs

/-! ## Table by table -/

namespace World

/-- A repair of the document leaves the other tables alone. -/
theorem attached_eq (w : World) (id : Int) (doc : Option (Document × Bool)) :
    w.attached id doc = { w with disclosures := (w.attached id doc).disclosures } := by
  cases doc <;> rfl

/-- Closing an edge leaves the other tables alone. -/
theorem edged_eq (w : World) (edge : Option (Int × Int)) :
    w.edged edge = { w with offers := (w.edged edge).offers } := by
  cases edge <;> rfl

end World

/-- The event a statement has persisted. -/
def persisted : Answered → Option EventRow
  | ⟨.persistEvent e, .ok ()⟩ => some e
  | _ => none

theorem persisted_of_not_wrote {x : Answered} (h : wrote x = false) : persisted x = none := by
  obtain ⟨s, r⟩ := x
  cases s with
  | persistEvent e =>
    cases r with
    | ok => cases h
    | error => rfl
  | _ => rfl

/-- An event and the outcome of its application appear together, or neither changes. -/
theorem Effect.events {x : Answered} (h : Effect w x w') :
    (∃ e, persisted x = some e ∧ w'.events.rows = e :: w.events.rows ∧
      w'.decisions = Function.update w.decisions e.appId (some e.outcome)) ∨
    (persisted x = none ∧ w'.events.rows = w.events.rows ∧ w'.decisions = w.decisions) := by
  cases h with
  | same hx h => exact .inr ⟨persisted_of_not_wrote hx, h.events, h.decisions⟩
  | event e ht => exact .inl ⟨e, rfl, ht, rfl⟩
  | kyc => exact .inr ⟨rfl, rfl, rfl⟩
  | offer => exact .inr ⟨rfl, rfl, rfl⟩
  | disclosure =>
    rw [World.edged_eq]
    exact .inr ⟨rfl, rfl, rfl⟩
  | repair =>
    rw [World.edged_eq, World.attached_eq]
    exact .inr ⟨rfl, rfl, rfl⟩
  | move => exact .inr ⟨rfl, rfl, rfl⟩
  | loan => exact .inr ⟨rfl, rfl, rfl⟩

theorem Effect.kept_event {x : Answered} (h : Effect w x w') {e : EventRow}
    (he : e ∈ w.events.rows) : e ∈ w'.events.rows := by
  rcases h.events with ⟨e', -, hrows, -⟩ | ⟨-, hrows, -⟩
  · rw [hrows]
    exact List.mem_cons_of_mem _ he
  · rw [hrows]
    exact he

/-- A statement that inserts an identity check. -/
def Stmt.isInsertKyc : Stmt → Bool
  | insertKyc _ => true
  | _ => false

theorem kycView_congr (hp : w'.applicants = w.applicants) (ha : w'.applications = w.applications)
    (hk : w'.kycChecks = w.kycChecks) (appId : Int) : w'.kycView appId = w.kycView appId := by
  unfold World.kycView World.application World.applicant World.newestKyc
  rw [hp, ha, hk]

/-- Only an identity check changes what the gate sees. -/
theorem Effect.kycView {x : Answered} (h : Effect w x w') :
    x.1.isInsertKyc = true ∨
    (x.1.isInsertKyc = false ∧ ∀ appId, w'.kycView appId = w.kycView appId) := by
  cases h with
  | @same x _ hx h =>
    refine .inr ⟨?_, kycView_congr h.applicants h.applications h.kycChecks⟩
    obtain ⟨s, r⟩ := x
    cases s with
    | insertKyc => cases hx
    | _ => rfl
  | kyc k => exact .inl rfl
  | disclosure =>
    rw [World.edged_eq]
    exact .inr ⟨rfl, fun _ => rfl⟩
  | repair =>
    rw [World.edged_eq, World.attached_eq]
    exact .inr ⟨rfl, fun _ => rfl⟩
  | event | offer | move | loan => exact .inr ⟨rfl, fun _ => rfl⟩

/-- What a statement makes of an offer that is there. -/
inductive Edged (x : Answered) (o : OfferRow) : OfferRow → Prop
  | same : Edged x o o
  | disclosed (eventId : Int) (rec : Record) (doc : Option Document) (d : DisclosureRow)
      (hx : x = ⟨.insertDisclosure o.id eventId rec doc true, .ok d⟩) :
      Edged x o { o with decisionEventId := some eventId }
  | repaired (id : Int) (doc : Option (Document × Bool)) (eventId : Int)
      (hx : x = ⟨.repair id doc (some (o.id, eventId)), .ok ()⟩) :
      Edged x o { o with decisionEventId := some eventId }

/-- The columns of a disclosure that no statement writes. -/
structure SameColumns (d d' : DisclosureRow) : Prop where
  id : d'.id = d.id
  offerId : d'.offerId = d.offerId
  decisionEventId : d'.decisionEventId = d.decisionEventId
  record : d'.record = d.record

/-- What a statement makes of a disclosure that is there. -/
inductive Rewritten (x : Answered) (d : DisclosureRow) : DisclosureRow → Prop
  | same : Rewritten x d d
  | attached (doc : Document) (reset : Bool) (edge : Option (Int × Int)) {d' : DisclosureRow}
      (hx : x = ⟨.repair d.id (some (doc, reset)) edge, .ok ()⟩) (hopen : d.status ≠ .delivered)
      (hsame : SameColumns d d') (hdoc : d'.documentBody = some doc)
      (hstatus : d'.status = if reset then .draft else d.status) : Rewritten x d d'
  | moved (target : Status) (time : Int) {d' : DisclosureRow}
      (hx : x = ⟨.updateStatus d.id d.status target time, .ok 1⟩) (hopen : d.status ≠ .delivered)
      (hsame : SameColumns d d') (hdoc : d'.documentBody = d.documentBody)
      (hstatus : d'.status = target) : Rewritten x d d'

section Rows

variable {x : Answered}

theorem SameColumns.refl (d : DisclosureRow) : SameColumns d d := ⟨rfl, rfl, rfl, rfl⟩

theorem edgeRow_edged {i e : Int} (o : OfferRow)
    (h : o.id = i → Edged x o { o with decisionEventId := some e }) :
    Edged x o (World.edgeRow i e o) := by
  unfold World.edgeRow
  by_cases hid : o.id = i
  · rw [if_pos hid]
    exact h hid
  · rw [if_neg hid]
    exact .same

theorem attachRow_rewritten {doc : Document} {reset : Bool} {edge : Option (Int × Int)}
    (i : Int) (d : DisclosureRow) :
    Rewritten ⟨.repair i (some (doc, reset)) edge, .ok ()⟩ d (World.attachRow i doc reset d) := by
  unfold World.attachRow
  by_cases h : d.id = i ∧ d.status ≠ .delivered
  · rw [dif_pos h]
    refine .attached doc reset edge (by rw [h.1]) h.2 ⟨rfl, rfl, rfl, rfl⟩ rfl rfl
  · rw [dif_neg h]
    exact .same

theorem moveRow_rewritten {current target : Status} {time : Int} (i : Int) (d : DisclosureRow) :
    Rewritten ⟨.updateStatus i current target time, .ok 1⟩ d
      (World.moveRow i current target time d) := by
  unfold World.moveRow
  by_cases h : d.id = i ∧ d.status = current ∧ d.status ≠ .delivered
  · rw [dif_pos h]
    refine .moved target time (by rw [h.1, h.2.1]) h.2.2 ⟨rfl, rfl, rfl, rfl⟩ rfl rfl
  · rw [dif_neg h]
    exact .same

/-- The offers after a statement: what it makes of those that were there, or one more. -/
theorem Effect.offers (h : Effect w x w') :
    (∃ g : OfferRow → OfferRow, w'.offers.rows = w.offers.rows.map g ∧ ∀ o, Edged x o (g o)) ∨
    ∃ appId box edge, x = ⟨.insertOffer appId box edge, .ok w.offers.next⟩ ∧
      w'.offers.rows = ⟨w.offers.next, some appId, box, edge⟩ :: w.offers.rows := by
  have hkeep : ∀ {v : World}, v.offers.rows = w.offers.rows →
      ∃ g : OfferRow → OfferRow, v.offers.rows = w.offers.rows.map g ∧ ∀ o, Edged x o (g o) :=
    fun hv => ⟨id, by rw [List.map_id, hv], fun o => .same⟩
  cases h with
  | same _ h => exact .inl (hkeep h.offers)
  | offer appId box edge ht hfree => exact .inr ⟨appId, box, edge, rfl, ht⟩
  | disclosure offerId eventId rec doc closeEdge ht hd hfree =>
    cases closeEdge with
    | false => exact .inl (hkeep rfl)
    | true =>
      exact .inl ⟨World.edgeRow offerId eventId, rfl, fun o => edgeRow_edged o fun hid =>
        .disclosed eventId rec doc _ (by rw [hid])⟩
  | repair id doc edge hopen =>
    rcases edge with _ | ⟨offerId, eventId⟩
    · rw [World.edged, World.attached_eq]
      exact .inl (hkeep rfl)
    · rw [World.attached_eq]
      exact .inl ⟨World.edgeRow offerId eventId, rfl, fun o => edgeRow_edged o fun hid =>
        .repaired id doc eventId (by rw [hid])⟩
  | event | kyc | move | loan => exact .inl (hkeep rfl)

theorem Effect.kept_offer (h : Effect w x w') {o : OfferRow} (ho : o ∈ w.offers.rows) :
    ∃ o' ∈ w'.offers.rows, Edged x o o' := by
  rcases h.offers with ⟨g, hrows, hg⟩ | ⟨appId, box, edge, -, hrows⟩
  · exact ⟨g o, hrows ▸ List.mem_map_of_mem ho, hg o⟩
  · exact ⟨o, hrows ▸ List.mem_cons_of_mem _ ho, .same⟩

theorem Effect.offer_from (h : Effect w x w') {o' : OfferRow} (ho' : o' ∈ w'.offers.rows) :
    (∃ o ∈ w.offers.rows, Edged x o o') ∨
    ∃ appId box edge, x = ⟨.insertOffer appId box edge, .ok w.offers.next⟩ ∧
      o' = ⟨w.offers.next, some appId, box, edge⟩ := by
  rcases h.offers with ⟨g, hrows, hg⟩ | ⟨appId, box, edge, hx, hrows⟩
  · obtain ⟨o, ho, rfl⟩ := List.mem_map.mp (hrows ▸ ho')
    exact .inl ⟨o, ho, hg o⟩
  · rcases List.mem_cons.mp (hrows ▸ ho') with rfl | ho
    · exact .inr ⟨appId, box, edge, hx, rfl⟩
    · exact .inl ⟨o', ho, .same⟩

/-- The disclosures after a statement: what it makes of those that were there, or one more. -/
theorem Effect.disclosures (h : Effect w x w') :
    (∃ g : DisclosureRow → DisclosureRow, w'.disclosures.rows = w.disclosures.rows.map g ∧
      ∀ d, Rewritten x d (g d)) ∨
    ∃ d offerId eventId rec doc closeEdge,
      x = ⟨.insertDisclosure offerId eventId rec doc closeEdge, .ok d⟩ ∧
      w'.disclosures.rows = d :: w.disclosures.rows := by
  have hkeep : ∀ {v : World}, v.disclosures.rows = w.disclosures.rows →
      ∃ g : DisclosureRow → DisclosureRow, v.disclosures.rows = w.disclosures.rows.map g ∧
        ∀ d, Rewritten x d (g d) :=
    fun hv => ⟨id, by rw [List.map_id, hv], fun d => .same⟩
  cases h with
  | same _ h => exact .inl (hkeep h.disclosures)
  | disclosure offerId eventId rec doc closeEdge ht hd hfree =>
    rw [World.edged_eq]
    exact .inr ⟨_, offerId, eventId, rec, doc, closeEdge, rfl, ht⟩
  | repair id doc edge hopen =>
    rw [World.edged_eq]
    rcases doc with _ | ⟨doc, reset⟩
    · exact .inl (hkeep rfl)
    · exact .inl ⟨World.attachRow id doc reset, rfl, attachRow_rewritten id⟩
  | move id current target time hd hcurrent hopen =>
    exact .inl ⟨World.moveRow id current target time, rfl, moveRow_rewritten id⟩
  | event | kyc | offer | loan => exact .inl (hkeep rfl)

theorem Effect.kept_disclosure (h : Effect w x w') {d : DisclosureRow}
    (hd : d ∈ w.disclosures.rows) : ∃ d' ∈ w'.disclosures.rows, Rewritten x d d' := by
  rcases h.disclosures with ⟨g, hrows, hg⟩ | ⟨_, _, _, _, _, _, -, hrows⟩
  · exact ⟨g d, hrows ▸ List.mem_map_of_mem hd, hg d⟩
  · exact ⟨d, hrows ▸ List.mem_cons_of_mem _ hd, .same⟩

theorem Effect.disclosure_from (h : Effect w x w') {d' : DisclosureRow}
    (hd' : d' ∈ w'.disclosures.rows) : (∃ d ∈ w.disclosures.rows, Rewritten x d d') ∨
    ∃ offerId eventId rec doc closeEdge,
      x = ⟨.insertDisclosure offerId eventId rec doc closeEdge, .ok d'⟩ := by
  rcases h.disclosures with ⟨g, hrows, hg⟩ | ⟨d, offerId, eventId, rec, doc, closeEdge, hx, hrows⟩
  · obtain ⟨d, hd, rfl⟩ := List.mem_map.mp (hrows ▸ hd')
    exact .inl ⟨d, hd, hg d⟩
  · rcases List.mem_cons.mp (hrows ▸ hd') with rfl | hd
    · exact .inr ⟨offerId, eventId, rec, doc, closeEdge, hx⟩
    · exact .inl ⟨d', hd, .same⟩

/-- A disclosure that was inserted, and the edge that was closed with it. -/
theorem Effect.inserted {offerId eventId : Int} {rec : Record} {doc : Option Document}
    {closeEdge : Bool} {d : DisclosureRow}
    (h : Effect w ⟨.insertDisclosure offerId eventId rec doc closeEdge, .ok d⟩ w') :
    (d.offerId = offerId ∧ d.decisionEventId = eventId ∧ d.status = .draft ∧ d.record = rec ∧
      d.documentBody = doc) ∧
    w'.disclosures.rows = d :: w.disclosures.rows ∧
    (∀ d' ∈ w.disclosures.rows, d'.offerId ≠ offerId) ∧
    w'.offers.rows = if closeEdge then w.offers.rows.map (World.edgeRow offerId eventId)
      else w.offers.rows := by
  cases h with
  | same hx => cases hx
  | disclosure _ _ _ _ _ ht hd hfree =>
    refine ⟨hd.2, ?_, hfree, ?_⟩
    · rw [World.edged_eq]
      exact ht
    · cases closeEdge <;> rfl

/-- A disclosure that was moved had the status it was moved from. -/
theorem Effect.moved {id : Int} {current target : Status} {time : Int}
    (h : Effect w ⟨.updateStatus id current target time, .ok 1⟩ w') :
    ∃ d, w.disclosure id = some d ∧ d.status = current := by
  cases h with
  | same hx => cases hx
  | move _ _ _ _ hd hcurrent => exact ⟨_, hd, hcurrent⟩

end Rows

end Meridian.Origination
