import Meridian.Origination.Discipline

/-!
# Delivered disclosures are sound

Six guards are read before the one `UPDATE` that delivers, and an insert, a race, a repair of the
edge and a repair of the document may come in between. None of them takes back what a guard has seen
(`Grows`): an event stays, an edge once set stays as it is, a disclosure keeps its columns, and a
document once there is there. So what a call has read still holds when it writes (`Holds`), and one
step keeps the database `Sound`.

* `sound_run`: the edges and the disclosures of every reachable state are sound.
* `delivered_sound`: what a delivered row stands for, and that it never changes again.
* `misfiled_delivered`: an edge to another application's event is delivered as it is.
-/

namespace Meridian.Origination

open Python Relational Interleave Disclosure

variable {w w' : World} {x : Answered} {l : Log origination}

/-! ## Soundness -/

/-- The offer's edge names the disclosure's event, an approval of the offer's application. -/
def Cited (w : World) (d : DisclosureRow) : Prop :=
  ∃ o ∈ w.offers.rows, ∃ e ∈ w.events.rows, o.id = d.offerId ∧
    o.decisionEventId = some d.decisionEventId ∧ e.id = d.decisionEventId ∧
    some e.appId = o.appId ∧ e.outcome = .approve

instance (w : World) (d : DisclosureRow) : Decidable (Cited w d) :=
  inferInstanceAs (Decidable (∃ o ∈ w.offers.rows, ∃ e ∈ w.events.rows, o.id = d.offerId ∧
    o.decisionEventId = some d.decisionEventId ∧ e.id = d.decisionEventId ∧
    some e.appId = o.appId ∧ e.outcome = .approve))

/-- An edge names an event of the offer's application, as `create_offer` checks. -/
def EdgesOwn (w : World) : Prop :=
  ∀ o ∈ w.offers.rows, ∀ id ∈ o.decisionEventId, ∃ e ∈ w.events.rows, e.id = id ∧
    some e.appId = o.appId

instance (w : World) : Decidable (EdgesOwn w) :=
  inferInstanceAs (Decidable (∀ o ∈ w.offers.rows, ∀ id ∈ o.decisionEventId,
    ∃ e ∈ w.events.rows, e.id = id ∧ some e.appId = o.appId))

/-- The edges and the disclosures of a state. -/
structure Sound (w : World) : Prop where
  edges : EdgesOwn w
  cited : ∀ d ∈ w.disclosures.rows, Cited w d
  agrees : ∀ d ∈ w.disclosures.rows, ∀ doc ∈ d.documentBody, Agrees doc d.record

/-! ## What no step takes back -/

/-- A later state of an offer: an edge that was set is the same, and one that was not is only set
when there is a disclosure. -/
structure LaterOffer (w : World) (o o' : OfferRow) : Prop where
  id : o'.id = o.id
  appId : o'.appId = o.appId
  edge : ∀ e, o.decisionEventId = some e → o'.decisionEventId = some e
  unset : o.decisionEventId = none → o'.decisionEventId = none ∨
    ∃ d ∈ w.disclosures.rows, d.offerId = o.id

/-- A later state of a disclosure. -/
structure LaterDisclosure (d d' : DisclosureRow) : Prop extends SameColumns d d' where
  document : d.documentBody.isSome = true → d'.documentBody.isSome = true

structure Grows (w w' : World) : Prop where
  events : ∀ e ∈ w.events.rows, e ∈ w'.events.rows
  offers : ∀ o ∈ w.offers.rows, ∃ o' ∈ w'.offers.rows, LaterOffer w' o o'
  disclosures : ∀ d ∈ w.disclosures.rows, ∃ d' ∈ w'.disclosures.rows, LaterDisclosure d d'

theorem LaterDisclosure.refl (d : DisclosureRow) : LaterDisclosure d d :=
  ⟨SameColumns.refl d, fun h => h⟩

theorem LaterDisclosure.trans {d d' d'' : DisclosureRow} (h : LaterDisclosure d d')
    (h' : LaterDisclosure d' d'') : LaterDisclosure d d'' :=
  { id := h'.id.trans h.id
    offerId := h'.offerId.trans h.offerId
    decisionEventId := h'.decisionEventId.trans h.decisionEventId
    record := h'.record.trans h.record
    document := fun hdoc => h'.document (h.document hdoc) }

theorem LaterOffer.refl (w : World) (o : OfferRow) : LaterOffer w o o :=
  ⟨rfl, rfl, fun _ h => h, fun h => .inl h⟩

theorem LaterOffer.grows {o o' : OfferRow} (h : LaterOffer w o o') (ho' : o' ∈ w.offers.rows)
    (hg : Grows w w') : ∃ o'' ∈ w'.offers.rows, LaterOffer w' o o'' := by
  obtain ⟨o'', ho'', h'⟩ := hg.offers o' ho'
  refine ⟨o'', ho'', h'.id.trans h.id, h'.appId.trans h.appId, fun e he => h'.edge e (h.edge e he),
    fun hnone => ?_⟩
  rcases h.unset hnone with hunset | ⟨d, hd, hoffer⟩
  · rcases h'.unset hunset with hunset' | ⟨d, hd, hoffer⟩
    · exact .inl hunset'
    · exact .inr ⟨d, hd, hoffer.trans h.id⟩
  · obtain ⟨d', hd', hlater⟩ := hg.disclosures d hd
    exact .inr ⟨d', hd', hlater.offerId.trans hoffer⟩

theorem Cited.grows {d d' : DisclosureRow} (h : Cited w d) (hg : Grows w w')
    (hd : SameColumns d d') : Cited w' d' := by
  obtain ⟨o, ho, e, he, hoffer, hedge, hid, happ, hout⟩ := h
  obtain ⟨o', ho', hlater⟩ := hg.offers o ho
  refine ⟨o', ho', e, hg.events e he, ?_, ?_, ?_, ?_, hout⟩
  · rw [hlater.id, hoffer, hd.offerId]
  · rw [hlater.edge _ hedge, hd.decisionEventId]
  · rw [hid, hd.decisionEventId]
  · rw [happ, hlater.appId]

/-! ## What a call has read -/

/-- What an answer still says about the state. -/
def Holds (w : World) : Answered → Prop
  | ⟨.selectOffer id, some o⟩ => o.id = id ∧ ∃ o' ∈ w.offers.rows, LaterOffer w o o'
  | ⟨.selectDisclosureOf offerId, some d⟩ => d.offerId = offerId ∧
    ∃ d' ∈ w.disclosures.rows, LaterDisclosure d d'
  | ⟨.selectDisclosure _, some d⟩ => ∃ d' ∈ w.disclosures.rows, LaterDisclosure d d'
  | ⟨.selectEvent id, some e⟩ => e.id = id ∧ e ∈ w.events.rows
  | _ => True

/-- **What has been read stays true** of states that grow. -/
theorem Holds.grows (h : Holds w x) (hg : Grows w w') : Holds w' x := by
  obtain ⟨s, r⟩ := x
  cases s with
  | selectOffer id =>
    cases r with
    | none => trivial
    | some o =>
      obtain ⟨hid, o', ho', hlater⟩ := h
      exact ⟨hid, hlater.grows ho' hg⟩
  | selectDisclosureOf offerId =>
    cases r with
    | none => trivial
    | some d =>
      obtain ⟨hid, d', hd', hlater⟩ := h
      obtain ⟨d'', hd'', hlater'⟩ := hg.disclosures d' hd'
      exact ⟨hid, d'', hd'', hlater.trans hlater'⟩
  | selectDisclosure id =>
    cases r with
    | none => trivial
    | some d =>
      obtain ⟨d', hd', hlater⟩ := h
      obtain ⟨d'', hd'', hlater'⟩ := hg.disclosures d' hd'
      exact ⟨d'', hd'', hlater.trans hlater'⟩
  | selectEvent id =>
    cases r with
    | none => trivial
    | some e => exact ⟨h.1, hg.events e h.2⟩
  | _ => trivial

/-- What a statement has just read holds. -/
theorem holds_exec {s : Stmt} {r : s.Res} (h : w.exec s = some (r, w')) : Holds w' ⟨s, r⟩ := by
  cases s with
  | selectOffer id =>
    obtain ⟨rfl, rfl⟩ := exec_eq rfl h
    cases ho : w'.offer id with
    | none => trivial
    | some o =>
      exact ⟨by simpa using List.find?_some ho, o, List.mem_of_find?_eq_some ho,
        LaterOffer.refl w' o⟩
  | selectDisclosureOf offerId =>
    obtain ⟨rfl, rfl⟩ := exec_eq rfl h
    cases hd : w'.disclosureOf offerId with
    | none => trivial
    | some d =>
      exact ⟨by simpa using List.find?_some hd, d, List.mem_of_find?_eq_some hd,
        LaterDisclosure.refl d⟩
  | selectDisclosure id =>
    obtain ⟨rfl, rfl⟩ := exec_eq rfl h
    cases hd : w'.disclosure id with
    | none => trivial
    | some d => exact ⟨d, List.mem_of_find?_eq_some hd, LaterDisclosure.refl d⟩
  | selectEvent id =>
    obtain ⟨rfl, rfl⟩ := exec_eq rfl h
    cases he : w'.event id with
    | none => trivial
    | some e => exact ⟨by simpa using List.find?_some he, List.mem_of_find?_eq_some he⟩
  | _ => trivial

/-! ## One step -/

section Step

theorem Rewritten.later {d d' : DisclosureRow} (h : Rewritten x d d') : LaterDisclosure d d' := by
  cases h with
  | same => exact LaterDisclosure.refl d
  | attached doc _ _ _ _ hsame hdoc => exact ⟨hsame, fun _ => by rw [hdoc]; rfl⟩
  | moved _ _ _ _ hsame hdoc => exact ⟨hsame, fun h => by rwa [hdoc]⟩

theorem read_offer {id : Int} {o o' : OfferRow} (hl : ∀ y ∈ l, Holds w y)
    (hmem : ⟨.selectOffer id, some o⟩ ∈ l) (ho' : o' ∈ w.offers.rows) (hid : o'.id = id) :
    LaterOffer w o o' := by
  obtain ⟨hid', o'', ho'', hlater⟩ := hl _ hmem
  rwa [← w.offers.eq_of_pk ho'' ho' (by rw [hlater.id, hid', hid])]

theorem read_disclosureOf {offerId : Int} {d d' : DisclosureRow} (hl : ∀ y ∈ l, Holds w y)
    (hmem : ⟨.selectDisclosureOf offerId, some d⟩ ∈ l) (hd' : d' ∈ w.disclosures.rows)
    (hid : d.id = d'.id) : LaterDisclosure d d' := by
  obtain ⟨-, d'', hd'', hlater⟩ := hl _ hmem
  rwa [← w.disclosures.eq_of_pk hd'' hd' (hlater.id.trans hid)]

/-- A repair writes the edge that the offer has. -/
theorem edge_of_repairs {id eventId : Int} {doc : Option (Document × Bool)} {o : OfferRow}
    (hS : Sound w) (hl : ∀ y ∈ l, Holds w y) (hA : Repairs l id doc (some (o.id, eventId)))
    (ho : o ∈ w.offers.rows) : o.decisionEventId = some eventId := by
  obtain ⟨offerId, o₁, d, hoffer, hrow, -, -, hedge⟩ := hA
  obtain ⟨hid, heq⟩ := Prod.mk.inj (hedge _ rfl)
  obtain ⟨hofd, d', hd', hlater⟩ := hl _ hrow
  obtain ⟨o₂, ho₂, -, -, hoffer₂, hedge₂, -⟩ := hS.cited d' hd'
  have hsame : o₂ = o := by
    refine w.offers.eq_of_pk ho₂ ho ?_
    rw [hoffer₂, hlater.offerId, hofd, hid, (hl _ hoffer).1]
  rw [← hsame, hedge₂, hlater.decisionEventId, heq]

/-- An offer whose edge an insert closes had none. -/
theorem unset_of_checked {offerId eventId : Int} {rec : Record} {doc : Option Document}
    {o : OfferRow} (hl : ∀ y ∈ l, Holds w y) (hA : Checked l offerId eventId rec doc true)
    (hfree : ∀ d' ∈ w.disclosures.rows, d'.offerId ≠ offerId) (ho : o ∈ w.offers.rows)
    (hid : o.id = offerId) : o.decisionEventId = none := by
  obtain ⟨o₁, e, hoffer, -, -, hclose⟩ := hA.offer
  have hlater := read_offer hl hoffer ho hid
  rcases hlater.unset (by simpa using hclose.symm) with hnone | ⟨d, hd, hofd⟩
  · exact hnone
  · exact absurd (by rw [hofd, ← hlater.id, hid]) (hfree d hd)

/-- **One step takes nothing back.** -/
theorem Effect.grows (h : Effect w x w') (hS : Sound w) (hl : ∀ y ∈ l, Holds w y)
    (hA : Allowed l x.1) : Grows w w' := by
  refine ⟨fun e he => ?_, fun o ho => ?_, fun d hd => ?_⟩
  · exact h.kept_event he
  · obtain ⟨o', ho', hE⟩ := h.kept_offer ho
    refine ⟨o', ho', ?_⟩
    cases hE with
    | same => exact LaterOffer.refl w' o
    | disclosed eventId rec doc d hx =>
      subst hx
      obtain ⟨⟨hofd, -⟩, hrows, hfree, -⟩ := h.inserted
      have hnone := unset_of_checked hl hA hfree ho rfl
      refine ⟨rfl, rfl, fun e he => ?_, fun _ => .inr ⟨d, hrows ▸ List.mem_cons_self, hofd⟩⟩
      rw [hnone] at he
      cases he
    | repaired id doc eventId hx =>
      subst hx
      have hedge := edge_of_repairs hS hl hA ho
      refine ⟨rfl, rfl, fun e he => ?_, fun hnone => ?_⟩
      · rw [← he, hedge]
      · rw [hedge] at hnone
        cases hnone
  · obtain ⟨d', hd', hR⟩ := h.kept_disclosure hd
    exact ⟨d', hd', hR.later⟩

/-! ### Soundness -/

/-- The edges of a new disclosure: the offer's is its own, and its event authorized the offer. -/
theorem Effect.cited {offerId eventId : Int} {rec : Record} {doc : Option Document}
    {closeEdge : Bool} {d : DisclosureRow}
    (h : Effect w ⟨.insertDisclosure offerId eventId rec doc closeEdge, .ok d⟩ w') (hS : Sound w)
    (hl : ∀ y ∈ l, Holds w y) (hA : Checked l offerId eventId rec doc closeEdge)
    (hg : Grows w w') : Cited w' d := by
  obtain ⟨⟨hofd, hevent, -⟩, -, -, hoffers⟩ := h.inserted
  obtain ⟨o₁, e, hoffer, hread, ⟨hout, hauth⟩, hclose⟩ := hA.offer
  obtain ⟨hid, o, ho, hlater⟩ := hl _ hoffer
  obtain ⟨heid, he⟩ := hl _ hread
  cases hedge : o₁.decisionEventId with
  | none =>
    rw [hedge] at hauth hclose
    subst hclose
    refine ⟨World.edgeRow offerId eventId o, ?_, e, hg.events e he, ?_, ?_, ?_, ?_, hout⟩
    · rw [hoffers]
      exact List.mem_map_of_mem ho
    · rw [World.edgeRow_id, hlater.id, hid, hofd]
    · rw [World.edgeRow, if_pos (hlater.id.trans hid), hevent]
    · rw [heid, hevent]
    · rw [World.edgeRow_appId, hauth, hlater.appId]
  | some cites =>
    rw [hedge] at hauth hclose
    subst hclose
    have hset : o.decisionEventId = some eventId := by
      rw [hlater.edge cites hedge, show eventId = cites from hauth]
    obtain ⟨e', he', heid', happ⟩ := hS.edges o ho eventId hset
    have hsame : e' = e := World.event_unique he' he (heid'.trans heid.symm)
    subst hsame
    refine ⟨o, hoffers ▸ ho, e', hg.events e' he, ?_, ?_, ?_, happ, hout⟩
    · rw [hlater.id, hid, hofd]
    · rw [hset, hevent]
    · rw [heid, hevent]

theorem EdgesOwn.step (h : Effect w x w') (hS : Sound w) (hl : ∀ y ∈ l, Holds w y)
    (hA : Allowed l x.1) (hg : Grows w w') : EdgesOwn w' := by
  rintro o' ho' id hid
  rcases h.offer_from ho' with ⟨o, ho, hE⟩ | ⟨appId, box, edge, hx, rfl⟩
  · cases hE with
    | same =>
      obtain ⟨e, he, heid, happ⟩ := hS.edges o' ho id hid
      exact ⟨e, hg.events e he, heid, happ⟩
    | disclosed eventId rec doc d hx =>
      subst hx
      cases hid
      obtain ⟨-, hrows, hfree, -⟩ := h.inserted
      have hnone := unset_of_checked hl hA hfree ho rfl
      obtain ⟨o₁, e, hoffer, hread, ⟨-, hauth⟩, hclose⟩ := hA.offer
      have hlater := read_offer hl hoffer ho rfl
      obtain ⟨heid, he⟩ := hl _ hread
      rw [show o₁.decisionEventId = none by simpa using hclose.symm] at hauth
      exact ⟨e, hg.events e he, heid, by rw [hauth, hlater.appId]⟩
    | repaired _ doc eventId hx =>
      subst hx
      cases hid
      have hedge := edge_of_repairs hS hl hA ho
      obtain ⟨e, he, heid, happ⟩ := hS.edges o ho _ hedge
      exact ⟨e, hg.events e he, heid, happ⟩
  · subst hx
    obtain ⟨e, hread, happ⟩ := hA id hid
    obtain ⟨heid, he⟩ := hl _ hread
    exact ⟨e, hg.events e he, heid, by rw [happ]⟩

/-- **One step keeps the database sound.** -/
theorem Sound.step (h : Effect w x w') (hS : Sound w) (hl : ∀ y ∈ l, Holds w y)
    (hA : Allowed l x.1) : Sound w' := by
  have hg := h.grows hS hl hA
  refine ⟨EdgesOwn.step h hS hl hA hg, fun d' hd' => ?_, fun d' hd' doc hdoc => ?_⟩
  · rcases h.disclosure_from hd' with ⟨d, hd, hR⟩ | ⟨_, _, _, _, _, hx⟩
    · exact (hS.cited d hd).grows hg hR.later.toSameColumns
    · subst hx
      exact h.cited hS hl hA hg
  · rcases h.disclosure_from hd' with ⟨d, hd, hR⟩ | ⟨_, _, _, _, _, hx⟩
    · cases hR with
      | same => exact hS.agrees d' hd doc hdoc
      | attached doc' reset edge hx hopen hsame hnew =>
        subst hx
        obtain ⟨_, _, d₁, -, hrow, hid, hrep, -⟩ := hA
        have hlater := read_disclosureOf hl hrow hd hid
        rw [hnew] at hdoc
        cases hdoc
        rw [hsame.record, hlater.record]
        exact (hrep _ rfl).2.1
      | moved target time hx hopen hsame hold =>
        rw [hold] at hdoc
        rw [hsame.record]
        exact hS.agrees d hd doc hdoc
    · subst hx
      obtain ⟨⟨-, -, -, hrec, hbody⟩, -⟩ := h.inserted
      rw [hrec]
      exact hA.document doc (hbody ▸ hdoc)

end Step

/-! ## Runs -/

section Runs

variable {ι : Type} [DecidableEq ι] {D : Deployment} {tasks : ι → Task} {w₀ : World}
  {tr tr' : List (Entry origination ι)} {c c' : Config origination ι Answer}

theorem env_effect (v : Env) (w : World) : Effect w ⟨.now, w.now⟩ (w.env v) :=
  .same rfl (env_same v w)

/-- **Every reachable state is sound**, and what the calls have read holds in it. -/
theorem sound_run (h0 : Sound w₀) (h : Run (start D tasks w₀) tr c) :
    Sound c.world ∧ ∀ i, ∀ x ∈ own i tr, Holds c.world x := by
  refine Run.invariant (φ := fun _ => Allowed) (Q := fun _ _ _ => True) (C := fun _ _ => True)
    (I := fun tr w => Sound w ∧ ∀ i, ∀ x ∈ own i tr, Holds w x) (fun i => task_obeys D (tasks i))
    ⟨h0, fun _ _ hx => absurd hx List.not_mem_nil⟩ ?_ ?_ h (along_true tr)
  · rintro tr c i s r w - ⟨hS, hl⟩ hA hx -
    have heffect := exec_effect hx
    refine ⟨Sound.step heffect hS (hl i) hA, fun j y hy => ?_⟩
    have hg := heffect.grows hS (hl i) hA
    by_cases hj : i = j
    · subst hj
      rw [own_call_self] at hy
      rcases List.mem_cons.mp hy with rfl | hy
      · exact holds_exec hx
      · exact (hl i y hy).grows hg
    · rw [own_call_ne hj] at hy
      exact (hl j y hy).grows hg
  · rintro tr c v - ⟨hS, hl⟩ -
    have hnone : ∀ y ∈ ([] : Log origination), Holds c.world y :=
      fun y hy => absurd hy List.not_mem_nil
    have heffect := env_effect v c.world
    exact ⟨Sound.step heffect hS hnone trivial,
      fun j y hy => (hl j y hy).grows (heffect.grows hS hnone trivial)⟩

/-- The document a call has read is not lost. -/
theorem document_kept (h : Run (start D tasks w₀) tr c) {i : ι} {asked : Int} {d d' : DisclosureRow}
    (hread : ⟨.selectDisclosure asked, some d⟩ ∈ own i tr) (hd' : d' ∈ c.world.disclosures.rows)
    (hid : d.id = d'.id) (hdoc : d.documentBody.isSome = true) : d'.documentBody.isSome = true := by
  have hkept : ∃ d'' ∈ c.world.disclosures.rows, LaterDisclosure d d'' := by
    refine h.established (P := fun w : World => ∃ d'' ∈ w.disclosures.rows, LaterDisclosure d d'')
      hread (fun w w' hx => ?_) (fun s w r w' hw hx => ?_) fun v w hw => ?_
    · exact holds_exec (s := .selectDisclosure asked) hx
    · obtain ⟨d₁, hd₁, hlater⟩ := hw
      obtain ⟨d₂, hd₂, hR⟩ := (exec_effect hx).kept_disclosure hd₁
      exact ⟨d₂, hd₂, hlater.trans hR.later⟩
    · obtain ⟨d₁, hd₁, hlater⟩ := hw
      exact ⟨d₁, (env_same v w).disclosures.symm ▸ hd₁, hlater⟩
  obtain ⟨d'', hd'', hlater⟩ := hkept
  rw [← c.world.disclosures.eq_of_pk hd'' hd' (hlater.id.trans hid)]
  exact hlater.document hdoc

/-- A delivered row has a document. -/
theorem documented_run (h0 : ∀ d ∈ w₀.disclosures.rows, d.status = .delivered →
    d.documentBody.isSome = true) (h : Run (start D tasks w₀) tr c) :
    ∀ d ∈ c.world.disclosures.rows, d.status = .delivered → d.documentBody.isSome = true := by
  refine Run.invariant (φ := fun _ => Allowed) (Q := fun _ _ _ => True) (C := fun _ _ => True)
    (I := fun _ w => ∀ d ∈ (World.disclosures w).rows, d.status = .delivered →
      d.documentBody.isSome = true) (fun i => task_obeys D (tasks i)) h0 ?_ ?_ h (along_true tr)
  · rintro tr c i s r w hrun hI hA hx - d' hd' hst
    have heffect := exec_effect hx
    rcases heffect.disclosure_from hd' with ⟨d, hd, hR⟩ | ⟨_, _, _, _, _, hsr⟩
    · cases hR with
      | same => exact hI d' hd hst
      | attached _ _ _ _ _ _ hdoc =>
        rw [hdoc]
        rfl
      | moved target time hsr hopen hsame hdoc hstatus =>
        cases hsr
        obtain ⟨asked, d₁, hread, hid, -, -, hdel⟩ := hA
        rw [hdoc]
        exact document_kept hrun hread hd hid (hdel (hstatus.symm.trans hst))
    · cases hsr
      obtain ⟨⟨-, -, hdraft, -⟩, -⟩ := heffect.inserted
      rw [hdraft] at hst
      cases hst
  · rintro tr c v - hI - d hd hst
    exact hI d ((env_same v c.world).disclosures ▸ hd) hst

/-- A delivered row is not written again. -/
theorem Rewritten.frozen {d d' : DisclosureRow} (h : Rewritten x d d')
    (hd : d.status = .delivered) : d' = d := by
  cases h with
  | same => rfl
  | attached _ _ _ _ hopen => exact absurd hd hopen
  | moved _ _ _ hopen => exact absurd hd hopen

theorem frozen_run {c₀ : Config origination ι Answer} (h : Run c₀ tr c) {d : DisclosureRow}
    (hd : d ∈ c₀.world.disclosures.rows) (hst : d.status = .delivered) :
    d ∈ c.world.disclosures.rows := by
  refine h.always (I := fun w : World => d ∈ w.disclosures.rows) hd (fun s w r w' hw hx => ?_)
    fun v w hw => ?_
  · obtain ⟨d', hd', hR⟩ := (exec_effect hx).kept_disclosure hw
    rwa [← hR.frozen hst]
  · rw [show ((origination.env v w).disclosures.rows) = _ from (env_same v w).disclosures]
    exact hw

end Runs

/-! ## Delivered rows -/

/-- What a delivered row stands for. -/
structure Delivered (w : World) (d : DisclosureRow) : Prop where
  deliveredAt : d.deliveredAt.isSome = true
  document : ∃ doc, d.documentBody = some doc ∧ SpellsBox doc.figures d.record.box
  cited : Cited w d

/-- **Delivered disclosures are sound, and stay as they are**, in every run that starts without
disclosures and with edges to the applications' own events. -/
theorem delivered_sound {ι : Type} [DecidableEq ι] (D : Deployment) (tasks : ι → Task) (w₀ : World)
    (h0 : w₀.disclosures.rows = []) (hedges : EdgesOwn w₀) {tr : List (Entry origination ι)}
    {c : Config origination ι Answer} (h : Run (start D tasks w₀) tr c) :
    ∀ d ∈ c.world.disclosures.rows, d.status = .delivered → Delivered c.world d ∧
      ∀ tr' c', Run c tr' c' → d ∈ c'.world.disclosures.rows := by
  intro d hd hst
  have hS := (sound_run ⟨hedges, by simp [h0], by simp [h0]⟩ h).1
  obtain ⟨doc, hdoc⟩ := Option.isSome_iff_exists.mp (documented_run (by simp [h0]) h d hd hst)
  refine ⟨⟨d.delivered_iff.mp hst, ⟨doc, hdoc, ?_⟩, hS.cited d hd⟩, fun tr' c' h' => ?_⟩
  · exact agrees_iff.mp (hS.agrees d hd doc hdoc)
  · exact frozen_run h' hd hst

/-! ## A disclosure is delivered -/

/-- The disclosure of offer 1 is created, and moved three times. -/
def discloseAndDeliver : Caller → Task
  | .first => .createDisclosure ⟨1, 1, wholeTerms, some sampleDocument⟩
  | .second => .transitionDisclosure 1 ⟨"in_review".toList, none⟩
  | .third => .transitionDisclosure 1 ⟨"approved".toList, none⟩
  | .fourth => .transitionDisclosure 1 ⟨"delivered".toList, none⟩

/-- One call after the other. -/
def oneByOne : List (Pick origination Caller) :=
  List.replicate 5 (.call .first) ++ List.replicate 3 (.call .second) ++
    List.replicate 3 (.call .third) ++ List.replicate 6 (.call .fourth)

theorem delivery_is_sound : ∃ tr c,
    Run (start sampleDeployment discloseAndDeliver World.offered) tr c ∧
    ∃ d ∈ c.world.disclosures.rows, d.status = .delivered ∧ Delivered c.world d := by
  obtain ⟨tr, c, hrun, d, hd, hst⟩ := exists_run oneByOne
    (start sampleDeployment discloseAndDeliver World.offered)
    (fun x => ∃ d ∈ (World.disclosures x.2.world).rows, d.status = .delivered) (by decide +kernel)
  have hsound := delivered_sound sampleDeployment discloseAndDeliver World.offered rfl
    (by decide +kernel) hrun
  exact ⟨tr, c, hrun, d, hd, hst, (hsound d hd hst).1⟩

/-- An offer of application 2 whose edge names the approval of application 1. -/
def World.misfiled : World :=
  let second : ApplicationRow := ⟨2, some 1, some (.finite wholeTerms.principal), some 12⟩
  let w := { World.approved with applications := World.approved.applications ++ [second] }
  (World.insertOffer w 2 wholeRow (some 1)).2

/-- **An edge that is there is not compared with the application** by `create_disclosure`, so one
that was wrong from the start is delivered. -/
theorem misfiled_delivered : World.misfiled.disclosures.rows = [] ∧ ∃ tr c,
    Run (start sampleDeployment discloseAndDeliver World.misfiled) tr c ∧
    ∃ d ∈ c.world.disclosures.rows, d.status = .delivered ∧ ¬ Cited c.world d :=
  ⟨rfl, exists_run oneByOne (start sampleDeployment discloseAndDeliver World.misfiled)
    (fun x => ∃ d ∈ (World.disclosures x.2.world).rows, d.status = .delivered ∧
      ¬ Cited x.2.world d) (by decide +kernel)⟩

end Meridian.Origination
