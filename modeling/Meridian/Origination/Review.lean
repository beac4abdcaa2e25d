import Meridian.Origination.Delivery

/-!
# Is what is delivered what was reviewed?

A replay that attaches a missing document sends a row back to `draft` unless it read `draft`, so that
a document no review has seen is reviewed again. Its `UPDATE` is not guarded on the status it read:
when a review begins in between, the document is attached to a row in review.

* `reviewed_run`: where a document is only attached without a reset to a row that is still in `draft`
  (`StillDraft`), a row past `draft` has the document its last review began with.
* `delivered_reviewed`: in these runs no delivered document was attached after its review began.
* `attached_in_review`: a review that begins between the read and the commit of a replay.
-/

namespace Meridian.Origination

open Python Relational Interleave Disclosure

/-- The disclosure whose review a statement has begun. -/
def beginsReview : Answered → Option Int
  | ⟨.updateStatus id .draft .inReview _, .ok 1⟩ => some id
  | _ => none

/-- The disclosure a statement has attached a document to without a reset. -/
def attachesInPlace : Answered → Option Int
  | ⟨.repair id (some (_, false)) _, .ok ()⟩ => some id
  | _ => none

section Runs

variable {ι : Type}

/-- The document on the row at a step that begins its review. -/
def reviewBegun (id : Int) : Entry origination ι → Option (Option Document)
  | .call _ s r w _ =>
    if beginsReview ⟨s, r⟩ = some id then
      some ((w.disclosure id).bind DisclosureRow.documentBody)
    else none
  | .env _ _ _ => none

/-- The document on the row when its last review began. -/
def reviewedDocument (id : Int) (tr : List (Entry origination ι)) : Option (Option Document) :=
  tr.findSome? (reviewBegun id)

/-- A document is attached in place to a row that is still in `draft`. -/
def StillDraft : Entry origination ι → Prop
  | .call _ s r w _ => ∀ id ∈ attachesInPlace ⟨s, r⟩, ∀ d ∈ w.disclosure id, d.status = .draft
  | .env _ _ _ => True

instance : ∀ x : Entry origination ι, Decidable (StillDraft x)
  | .call _ s r w _ => inferInstanceAs (Decidable (∀ id ∈ attachesInPlace ⟨s, r⟩,
      ∀ d ∈ w.disclosure id, d.status = .draft))
  | .env _ _ _ => .isTrue trivial

/-- A row past `draft` has the document its last review began with. -/
def Reviewed (tr : List (Entry origination ι)) (w : World) : Prop :=
  ∀ d ∈ w.disclosures.rows, d.status ≠ .draft → reviewedDocument d.id tr = some d.documentBody

theorem beginsReview_eq {x : Answered} {id : Int} (h : beginsReview x = some id) :
    ∃ time, x = ⟨.updateStatus id .draft .inReview time, .ok 1⟩ := by
  unfold beginsReview at h
  split at h <;> cases h
  exact ⟨_, rfl⟩

theorem disclosure_eq {w : World} {d : DisclosureRow} (hd : d ∈ w.disclosures.rows) :
    w.disclosure d.id = some d := w.disclosures.find_pk hd

variable {tr : List (Entry origination ι)} {i : ι} {s : Stmt} {r : s.Res} {w w' : World}

/-- A step that does not begin the row's review leaves its last review alone. -/
theorem reviewed_skip {id : Int} (h : beginsReview ⟨s, r⟩ ≠ some id) :
    reviewedDocument id (.call i s r w w' :: tr) = reviewedDocument id tr := by
  unfold reviewedDocument
  rw [List.findSome?_cons, reviewBegun, if_neg h]

theorem reviewed_begin {d : DisclosureRow} (hd : d ∈ w.disclosures.rows)
    (h : beginsReview ⟨s, r⟩ = some d.id) :
    reviewedDocument d.id (.call i s r w w' :: tr) = some d.documentBody := by
  unfold reviewedDocument
  rw [List.findSome?_cons, reviewBegun, if_pos h, disclosure_eq hd]
  rfl

/-- **One step keeps the reviews.** -/
theorem Reviewed.call {l : Log origination} (hI : Reviewed tr w) (hA : Allowed l s)
    (hx : w.exec s = some (r, w')) (hC : StillDraft (.call i s r w w')) :
    Reviewed (.call i s r w w' :: tr) w' := by
  have heffect := exec_effect hx
  intro d' hd' hst
  rcases heffect.disclosure_from hd' with ⟨d, hd, hR⟩ | ⟨_, _, _, _, _, hsr⟩
  · cases hR with
    | same =>
      refine (reviewed_skip fun hbegin => ?_).trans (hI d' hd hst)
      obtain ⟨time, hsr⟩ := beginsReview_eq hbegin
      cases hsr
      obtain ⟨d₀, hd₀, hdraft⟩ := heffect.moved
      cases (disclosure_eq hd).symm.trans hd₀
      exact hst hdraft
    | attached doc reset edge hsr hopen hsame hdoc hstatus =>
      cases hsr
      cases reset with
      | true => exact absurd hstatus hst
      | false =>
        have hdraft := hC d.id rfl d (disclosure_eq hd)
        exact absurd (hstatus.trans hdraft) hst
    | moved target time hsr hopen hsame hdoc hstatus =>
      cases hsr
      rw [hdoc, hsame.id]
      by_cases hdraft : d.status = .draft
      · obtain ⟨_, _, -, -, -, hnext, -⟩ := hA
        rw [hdraft] at hnext
        cases List.mem_singleton.mp hnext
        exact reviewed_begin hd (by rw [hdraft]; rfl)
      · refine (reviewed_skip fun hbegin => ?_).trans (hI d hd hdraft)
        obtain ⟨time', hsr⟩ := beginsReview_eq hbegin
        injection hsr with hstmt
        injection hstmt with _ hcur
        exact hdraft hcur
  · cases hsr
    obtain ⟨⟨-, -, hdraft, -⟩, -⟩ := heffect.inserted
    exact absurd hdraft hst

variable [DecidableEq ι] {D : Deployment} {tasks : ι → Task} {w₀ : World}
  {c : Config origination ι Answer}

/-- **What is past `draft` was reviewed as it is**, in every run that attaches no document in place
to a row past `draft`. -/
theorem reviewed_run (h0 : ∀ d ∈ w₀.disclosures.rows, d.status = .draft)
    (h : Run (start D tasks w₀) tr c) (hC : Along (fun _ x => StillDraft x) tr) :
    Reviewed tr c.world := by
  refine Run.invariant (φ := fun _ => Allowed) (Q := fun _ _ _ => True)
    (I := fun tr w => Reviewed tr w) (fun i => task_obeys D (tasks i))
    (fun d hd hst => absurd (h0 d hd) hst)
    (fun tr c i s r w _ hI hA hx hC => hI.call hA hx hC) ?_ h hC
  rintro tr c v - hI -
  intro d hd hst
  exact hI d ((env_same v c.world).disclosures ▸ hd) hst

end Runs

/-- A delivered row has a document, and its last review began with that document. -/
def DeliveredReviewed {ι : Type} (tr : List (Entry origination ι)) (w : World) : Prop :=
  ∀ d ∈ w.disclosures.rows, d.status = .delivered → ∃ doc, d.documentBody = some doc ∧
    reviewedDocument d.id tr = some (some doc)

/-- **What is delivered is what was reviewed**, in every run that attaches no document in place to a
row past `draft`. -/
theorem delivered_reviewed {ι : Type} [DecidableEq ι] (D : Deployment) (tasks : ι → Task)
    (w₀ : World) (h0 : ∀ d ∈ w₀.disclosures.rows, d.status = .draft)
    {tr : List (Entry origination ι)} {c : Config origination ι Answer}
    (h : Run (start D tasks w₀) tr c) (hC : Along (fun _ x => StillDraft x) tr) :
    DeliveredReviewed tr c.world := by
  have hdraft : ∀ d ∈ w₀.disclosures.rows, d.status = .delivered → d.documentBody.isSome = true := by
    intro d hd hst
    rw [h0 d hd] at hst
    cases hst
  intro d hd hst
  obtain ⟨doc, hdoc⟩ := Option.isSome_iff_exists.mp (documented_run hdraft h d hd hst)
  refine ⟨doc, hdoc, ?_⟩
  rw [reviewed_run h0 h hC d hd (by rw [hst]; nofun), hdoc]

/-! ## A review begins during a replay -/

/-- The replay is done before the review begins. -/
def attachedBefore : List (Pick origination Caller) :=
  List.replicate 4 (.call .first) ++ List.replicate 3 (.call .second) ++
    List.replicate 3 (.call .third) ++ List.replicate 6 (.call .fourth)

theorem attached_before : ∃ tr c,
    Run (start sampleDeployment discloseAndDeliver (World.disclosed none)) tr c ∧
    (∃ d ∈ c.world.disclosures.rows, d.status = .delivered) ∧ DeliveredReviewed tr c.world := by
  obtain ⟨tr, c, hrun, hC, hdel⟩ := exists_run attachedBefore
    (start sampleDeployment discloseAndDeliver (World.disclosed none))
    (fun x => Along (fun _ x => StillDraft x) x.1 ∧
      ∃ d ∈ (World.disclosures x.2.world).rows, d.status = .delivered) (by decide +kernel)
  exact ⟨tr, c, hrun, hdel, delivered_reviewed sampleDeployment discloseAndDeliver
    (World.disclosed none) (by decide +kernel) hrun hC⟩

/-- The review begins between the replay's read and its commit. -/
def attachedDuring : List (Pick origination Caller) :=
  List.replicate 2 (.call .first) ++ List.replicate 3 (.call .second) ++
    List.replicate 2 (.call .first) ++ List.replicate 3 (.call .third) ++
    List.replicate 6 (.call .fourth)

/-- **A document no review has begun with is delivered.** -/
theorem attached_in_review : ∃ tr c,
    Run (start sampleDeployment discloseAndDeliver (World.disclosed none)) tr c ∧
    (∀ d ∈ (World.disclosed none).disclosures.rows, d.status = .draft) ∧
    ¬ DeliveredReviewed tr c.world := by
  obtain ⟨tr, c, hrun, d, hd, hst, hnone⟩ := exists_run attachedDuring
    (start sampleDeployment discloseAndDeliver (World.disclosed none))
    (fun x => ∃ d ∈ (World.disclosures x.2.world).rows, d.status = .delivered ∧
      reviewedDocument d.id x.1 = some none) (by decide +kernel)
  refine ⟨tr, c, hrun, by decide +kernel, fun hreviewed => ?_⟩
  obtain ⟨doc, -, hdoc⟩ := hreviewed d hd hst
  rw [hnone] at hdoc
  cases hdoc

end Meridian.Origination
