import Meridian.Grouping.Adjacent
import Meridian.Reconciliation.Agreement

/-!
# Duplicate suspects at the edges of a window

The scan claims the pairs that touch the window before all others, so what it reports of a group is
a greedy choice among the touching pairs of neighbours alone (`claimPairs_candidates`). Those are
the same whether the scan sees the fetched margin or the whole ledger: a neighbour at most the
window's seconds away lies within the margin (`candidates_margin`).

* `reported_congr`: the report depends on the choices within the groups only.
* `duplicates_complete`: no payment is in two suspects, no close pair at the window is passed over,
  and the whole ledger would have given the same report.
-/

namespace Meridian.Reconciliation

open Python Grouping

/-! ## Greedy claims -/

def pairIds (x : LedgerRow × LedgerRow) : List Int := [x.1.paymentId, x.2.paymentId]

section Claims

variable {x : LedgerRow × LedgerRow} {xs ys : List (LedgerRow × LedgerRow)}

theorem mem_of_mem_claimPairs {claimed : List Int} (h : x ∈ claimPairs claimed xs) : x ∈ xs := by
  induction xs generalizing claimed with
  | nil => cases h
  | cons y xs ih =>
    unfold claimPairs at h
    split at h
    · exact List.mem_cons_of_mem y (ih h)
    · rcases List.mem_cons.mp h with rfl | h
      · exact List.mem_cons_self
      · exact List.mem_cons_of_mem y (ih h)

/-- Nothing is claimed twice. -/
theorem claimPairs_nodup (claimed : List Int)
    (hxs : ∀ x ∈ xs, x.1.paymentId ≠ x.2.paymentId) :
    ((claimPairs claimed xs).flatMap pairIds).Nodup ∧
      ∀ i ∈ (claimPairs claimed xs).flatMap pairIds, i ∉ claimed := by
  induction xs generalizing claimed with
  | nil => exact ⟨List.nodup_nil, fun i hi => absurd hi List.not_mem_nil⟩
  | cons y xs ih =>
    have hrest : ∀ x ∈ xs, x.1.paymentId ≠ x.2.paymentId :=
      fun x hx => hxs x (List.mem_cons_of_mem y hx)
    unfold claimPairs
    split
    · exact ih claimed hrest
    · rename_i hfree
      simp only [Bool.or_eq_true, List.contains_iff_mem, not_or] at hfree
      obtain ⟨hnodup, hout⟩ := ih (y.1.paymentId :: y.2.paymentId :: claimed) hrest
      rw [List.flatMap_cons]
      constructor
      · refine List.nodup_append'.mpr ⟨?_, hnodup, fun i hi hi' => hout i hi' ?_⟩
        · simpa [pairIds] using hxs y List.mem_cons_self
        · simp only [pairIds, List.mem_cons, List.not_mem_nil, or_false] at hi
          rcases hi with rfl | rfl <;> simp
      · intro i hi
        rcases List.mem_append.mp hi with hi | hi
        · simp only [pairIds, List.mem_cons, List.not_mem_nil, or_false] at hi
          rcases hi with rfl | rfl
          · exact hfree.1
          · exact hfree.2
        · exact fun hmem => hout i hi (by simp [hmem])

/-- A pair that is passed over shares a payment with one that is claimed. -/
theorem claimPairs_covers (claimed : List Int) (h : x ∈ xs) : (∃ i ∈ pairIds x, i ∈ claimed) ∨
    ∃ y ∈ claimPairs claimed xs, ∃ i ∈ pairIds x, i ∈ pairIds y := by
  induction xs generalizing claimed with
  | nil => cases h
  | cons z xs ih =>
    unfold claimPairs
    split
    · rename_i htaken
      rcases List.mem_cons.mp h with rfl | h
      · simp only [Bool.or_eq_true, List.contains_iff_mem] at htaken
        left
        rcases htaken with htaken | htaken
        · exact ⟨_, by simp [pairIds], htaken⟩
        · exact ⟨_, by simp [pairIds], htaken⟩
      · exact ih claimed h
    · rcases List.mem_cons.mp h with rfl | h
      · exact .inr ⟨x, List.mem_cons_self, x.1.paymentId, by simp [pairIds], by simp [pairIds]⟩
      · rcases ih (z.1.paymentId :: z.2.paymentId :: claimed) h with ⟨i, hi, hin⟩ | ⟨y, hy, hshare⟩
        · rcases List.mem_append.mp (show i ∈ pairIds z ++ claimed from hin) with hin | hin
          · exact .inr ⟨z, List.mem_cons_self, i, hi, hin⟩
          · exact .inl ⟨i, hi, hin⟩
        · exact .inr ⟨y, List.mem_cons_of_mem z hy, hshare⟩

/-- Pairs that come last take nothing from those that come first. -/
theorem filter_claimPairs_append (claimed : List Int) {p : LedgerRow × LedgerRow → Bool}
    (hxs : ∀ x ∈ xs, p x = true)
    (hys : ∀ y ∈ ys, p y = false) :
    (claimPairs claimed (xs ++ ys)).filter p = claimPairs claimed xs := by
  induction xs generalizing claimed with
  | nil =>
    rw [List.nil_append, claimPairs, List.filter_eq_nil_iff]
    intro y hy
    rw [hys y (mem_of_mem_claimPairs hy)]
    exact Bool.false_ne_true
  | cons x xs ih =>
    have ih := fun claimed => ih claimed fun y hy => hxs y (List.mem_cons_of_mem x hy)
    rw [List.cons_append, claimPairs, claimPairs]
    split
    · exact ih claimed
    · rw [List.filter_cons_of_pos (hxs x List.mem_cons_self), ih]

end Claims

/-! ## One group -/

/-- The order payments of a group are compared in. -/
def paymentKey (r : LedgerRow) : Int ×ₗ Int := toLex (r.createdAt, r.paymentId)

def grouped (ledger : List LedgerRow) (g : Int × Int) : List LedgerRow :=
  ledger.filter fun r => (r.loanId, r.amountMinor) = g

/-- The pairs of a group that touch the window, in the order they are claimed. -/
def touchingPairs (windowSeconds : Int) (ids : List Int) (rows : List LedgerRow) :
    List (LedgerRow × LedgerRow) :=
  (duplicateCandidates windowSeconds ids rows).filter (touchesWindow ids)

/-- What is reported of a group. -/
def reportedPairs (windowSeconds : Int) (ids : List Int) (rows : List LedgerRow) :
    List (LedgerRow × LedgerRow) := claimPairs [] (touchingPairs windowSeconds ids rows)

section Group

variable {windowSeconds : Int} {ids : List Int} {rows : List LedgerRow}
  {x : LedgerRow × LedgerRow}

theorem mem_duplicateCandidates : x ∈ duplicateCandidates windowSeconds ids rows ↔
    x ∈ (sortBy paymentKey rows).zip (sortBy paymentKey rows).tail ∧
      x.2.createdAt - x.1.createdAt ≤ windowSeconds * 1000000 := by
  unfold duplicateCandidates
  rw [mem_sortBy, List.mem_filter, decide_eq_true_eq]
  rfl

theorem mem_touchingPairs : x ∈ touchingPairs windowSeconds ids rows ↔
    x ∈ (sortBy paymentKey rows).zip (sortBy paymentKey rows).tail ∧
      x.2.createdAt - x.1.createdAt ≤ windowSeconds * 1000000 ∧ touchesWindow ids x = true := by
  rw [touchingPairs, List.mem_filter, mem_duplicateCandidates, and_assoc]

/-- **The window's pairs are claimed as if they were alone.** -/
theorem claimPairs_candidates : (claimPairs [] (duplicateCandidates windowSeconds ids rows)).filter
    (touchesWindow ids) = reportedPairs windowSeconds ids rows := by
  unfold reportedPairs touchingPairs
  conv_lhs =>
    rw [filter_append_of_sorted (l := duplicateCandidates windowSeconds ids rows)
      (p := touchesWindow ids) (sortBy_pairwise _ _) (by
        intro a b hle hb
        rcases Prod.Lex.toLex_le_toLex.mp hle with h | ⟨h, -⟩
        · rw [hb] at h
          exact absurd h not_lt_bot
        · rw [hb] at h
          simpa using h)]
  refine filter_claimPairs_append [] (fun x hx => (List.mem_filter.mp hx).2) fun x hx => ?_
  simpa using (List.mem_filter.mp hx).2

end Group

/-! ## The report -/

/-- The suspects that touch the window, out of those found in some ledger. -/
def reported (ledger : List LedgerRow) (windowSeconds : Int) (ids : List Int) :
    List DuplicateSuspect :=
  (findDuplicateSuspects ledger windowSeconds ids).filter fun s =>
    ids.contains s.firstPaymentId || ids.contains s.secondPaymentId

def suspectIds (s : DuplicateSuspect) : List Int := [s.firstPaymentId, s.secondPaymentId]

def suspectKey (s : DuplicateSuspect) : Int ×ₗ Int ×ₗ Int :=
  toLex (s.loanId, toLex (s.amountMinor, s.occurredOn))

section Report

variable {windowSeconds : Int} {ids ids' : List Int} {ledger ledger' : List LedgerRow}
  {g : Int × Int}

theorem reported_eq : reported ledger windowSeconds ids = sortBy suspectKey
    ((ledger.map fun r => (r.loanId, r.amountMinor)).eraseDups.flatMap fun g =>
      (reportedPairs windowSeconds ids (grouped ledger g)).map suspectOf) := by
  unfold reported findDuplicateSuspects
  simp only
  rw [sortBy_filter, List.filter_flatMap]
  congr 2
  funext g
  rw [List.filter_map, ← claimPairs_candidates]
  rfl

theorem mem_grouped {r : LedgerRow} : r ∈ grouped ledger g ↔
    r ∈ ledger ∧ (r.loanId, r.amountMinor) = g := by
  rw [grouped, List.mem_filter, decide_eq_true_eq]

/-- The rows of a reported pair are of its group. -/
theorem mem_reportedPairs {x : LedgerRow × LedgerRow}
    (h : x ∈ reportedPairs windowSeconds ids (grouped ledger g)) :
    x.1 ∈ grouped ledger g ∧ x.2 ∈ grouped ledger g ∧ touchesWindow ids x = true := by
  obtain ⟨hzip, -, htouch⟩ := mem_touchingPairs.mp (mem_of_mem_claimPairs h)
  obtain ⟨hfirst, hsecond⟩ := mem_of_mem_zip_tail hzip
  exact ⟨(mem_sortBy _).mp hfirst, (mem_sortBy _).mp hsecond, htouch⟩

theorem suspect_group {s : DuplicateSuspect}
    (h : s ∈ (reportedPairs windowSeconds ids (grouped ledger g)).map suspectOf) :
    (s.loanId, s.amountMinor) = g := by
  obtain ⟨x, hx, rfl⟩ := List.mem_map.mp h
  exact (mem_grouped.mp (mem_reportedPairs hx).1).2

/-- **The report depends on the choices within the groups only.** -/
theorem reported_congr (h : ∀ g, reportedPairs windowSeconds ids (grouped ledger g) =
    reportedPairs windowSeconds ids' (grouped ledger' g)) :
    reported ledger windowSeconds ids = reported ledger' windowSeconds ids' := by
  have hmem : ∀ {ledger : List LedgerRow} {ids : List Int} {g : Int × Int},
      (reportedPairs windowSeconds ids (grouped ledger g)).map suspectOf ≠ [] →
      g ∈ (ledger.map fun r => (r.loanId, r.amountMinor)).eraseDups := by
    intro ledger ids g hne
    obtain ⟨s, hs⟩ := List.exists_mem_of_ne_nil _ hne
    obtain ⟨x, hx, rfl⟩ := List.mem_map.mp hs
    obtain ⟨hrow, hg⟩ := mem_grouped.mp (mem_reportedPairs hx).1
    exact List.mem_eraseDups.mpr (List.mem_map.mpr ⟨x.1, hrow, hg⟩)
  rw [reported_eq, reported_eq]
  simp only [← h]
  refine sortBy_flatMap_congr (nodup_eraseDups _) (nodup_eraseDups _)
    (fun s : DuplicateSuspect => (s.loanId, s.amountMinor)) (fun g s hs => suspect_group hs)
    (fun g hne => ⟨hmem hne, hmem (by rwa [h] at hne)⟩) fun a b hab => ?_
  simp only [suspectKey, EmbeddingLike.apply_eq_iff_eq, Prod.mk.injEq] at hab ⊢
  exact ⟨hab.1, hab.2.1⟩

end Report

/-! ## The whole ledger -/

/-- The typed rows of all payments, which a query without bounds loads. -/
def wholeLedger (rows : List PaymentRow) : List LedgerRow := rows.filterMap typedRow

/-- The payments of the window. -/
def windowIds (ledger : List LedgerRow) (windowFrom windowTo : Int) : List Int :=
  (ledger.filter fun l => between windowFrom windowTo l.date).map LedgerRow.paymentId

/-- Two payments of one loan and amount, the later one the next after the earlier. -/
structure Consecutive (ledger : List LedgerRow) (l l' : LedgerRow) : Prop where
  mem : l ∈ ledger
  mem' : l' ∈ ledger
  loan : l'.loanId = l.loanId
  amount : l'.amountMinor = l.amountMinor
  before : paymentKey l < paymentKey l'
  next : ∀ k ∈ ledger, k.loanId = l.loanId → k.amountMinor = l.amountMinor →
    ¬ (paymentKey l < paymentKey k ∧ paymentKey k < paymentKey l')

theorem typedRow_paymentId {r : PaymentRow} {l : LedgerRow} (h : typedRow r = some l) :
    l.paymentId = r.id := by
  unfold typedRow at h
  split at h
  · cases h
    rfl
  · cases h

theorem wholeLedger_ids {rows : List PaymentRow} (h : (rows.map PaymentRow.id).Nodup) :
    ((wholeLedger rows).map LedgerRow.paymentId).Nodup := by
  have hsub : ((wholeLedger rows).map LedgerRow.paymentId).Sublist (rows.map PaymentRow.id) := by
    clear h
    induction rows with
    | nil => exact List.Sublist.slnil
    | cons r rows ih =>
      unfold wholeLedger at ih ⊢
      cases hl : typedRow r with
      | none =>
        rw [List.filterMap_cons_none hl]
        exact ih.cons r.id
      | some l =>
        rw [List.filterMap_cons_some hl, List.map_cons, List.map_cons, typedRow_paymentId hl]
        exact ih.cons_cons r.id
  exact hsub.nodup h

section Whole

variable {windowSeconds f t : Int} {ids ids' : List Int} {ledger : List LedgerRow}
  {l l' : LedgerRow} {g : Int × Int}

theorem eq_of_paymentId (hids : (ledger.map LedgerRow.paymentId).Nodup) (hl : l ∈ ledger)
    (hl' : l' ∈ ledger) (h : l.paymentId = l'.paymentId) : l = l' :=
  List.inj_on_of_nodup_map hids hl hl' h

theorem eq_of_paymentKey (hids : (ledger.map LedgerRow.paymentId).Nodup) (hl : l ∈ ledger)
    (hl' : l' ∈ ledger) (h : paymentKey l = paymentKey l') : l = l' := by
  simp only [paymentKey, EmbeddingLike.apply_eq_iff_eq, Prod.mk.injEq] at h
  exact eq_of_paymentId hids hl hl' h.2

theorem mem_windowIds (hids : (ledger.map LedgerRow.paymentId).Nodup) (hl : l ∈ ledger) :
    l.paymentId ∈ windowIds ledger f t ↔ between f t l.date = true := by
  constructor
  · intro h
    obtain ⟨k, hk, heq⟩ := List.mem_map.mp h
    obtain ⟨hmem, hin⟩ := List.mem_filter.mp hk
    rwa [← eq_of_paymentId hids hmem hl heq]
  · exact fun h => List.mem_map_of_mem (List.mem_filter.mpr ⟨hl, h⟩)

theorem touchesWindow_iff {x : LedgerRow × LedgerRow} :
    touchesWindow ids x = true ↔ x.1.paymentId ∈ ids ∨ x.2.paymentId ∈ ids := by
  simp [touchesWindow]

/-- Which payments are of the window is all that counts. -/
theorem touchesWindow_congr (h : ∀ i, i ∈ ids ↔ i ∈ ids') :
    touchesWindow ids = touchesWindow ids' := by
  funext x
  rw [Bool.eq_iff_iff, touchesWindow_iff, touchesWindow_iff, h, h]

theorem touchingPairs_congr {rows : List LedgerRow} (h : touchesWindow ids = touchesWindow ids') :
    touchingPairs windowSeconds ids rows = touchingPairs windowSeconds ids' rows := by
  unfold touchingPairs duplicateCandidates
  rw [h]

/-- The payments of a group count in their order. -/
theorem touchingPairs_sorted {rows rows' : List LedgerRow}
    (h : sortBy paymentKey rows = sortBy paymentKey rows') :
    touchingPairs windowSeconds ids rows = touchingPairs windowSeconds ids rows' := by
  unfold touchingPairs duplicateCandidates
  change (sortBy _ (((sortBy paymentKey rows).zip (sortBy paymentKey rows).tail).filter _)).filter _ =
    (sortBy _ (((sortBy paymentKey rows').zip (sortBy paymentKey rows').tail).filter _)).filter _
  rw [h]

/-- The payments of a group, one after the other. -/
theorem grouped_strict (hids : (ledger.map LedgerRow.paymentId).Nodup) :
    (sortBy paymentKey (grouped ledger g)).Pairwise fun a b => paymentKey a < paymentKey b :=
  sortBy_strict (List.Nodup.of_map _ ((List.filter_sublist.map _).nodup hids)) fun _ ha _ hb =>
    eq_of_paymentKey hids (mem_grouped.mp ha).1 (mem_grouped.mp hb).1

/-- A pair of neighbours is in the order of the payments. -/
theorem neighbours_le {rows : List LedgerRow} {x : LedgerRow × LedgerRow}
    (h : x ∈ (sortBy paymentKey rows).zip (sortBy paymentKey rows).tail) :
    x.1.createdAt ≤ x.2.createdAt := by
  rcases Prod.Lex.toLex_le_toLex.mp (rel_of_mem_zip_tail (sortBy_pairwise paymentKey rows) h) with
    hlt | ⟨heq, -⟩
  · exact hlt.le
  · exact heq.le

theorem between_iff {d : Int} : between f t d = true ↔ f ≤ d ∧ d ≤ t := by
  simp [between]

/-- The margin holds whatever is close enough to a payment of the window. -/
theorem between_margin (hclose : l'.createdAt - l.createdAt ≤ windowSeconds * 1000000)
    (hle : l.createdAt ≤ l'.createdAt)
    (hin : between f t l.date = true ∨ between f t l'.date = true) :
    between (f - (windowSeconds / 86400 + 1)) (t + (windowSeconds / 86400 + 1)) l.date = true ∧
    between (f - (windowSeconds / 86400 + 1)) (t + (windowSeconds / 86400 + 1)) l'.date = true := by
  simp only [between_iff, LedgerRow.date, dateOf, microsPerDay] at hin ⊢
  omega

/-- **The margin is wide enough**: a group has the same touching pairs in it as in the whole
ledger. -/
theorem candidates_margin (hids : (ledger.map LedgerRow.paymentId).Nodup) {margin : List LedgerRow}
    (hmargin : margin.Perm (ledger.filter fun l => between (f - (windowSeconds / 86400 + 1))
      (t + (windowSeconds / 86400 + 1)) l.date)) (g : Int × Int) :
    touchingPairs windowSeconds (windowIds ledger f t) (grouped margin g) =
      touchingPairs windowSeconds (windowIds ledger f t) (grouped ledger g) := by
  generalize hp : (fun l : LedgerRow => between (f - (windowSeconds / 86400 + 1))
    (t + (windowSeconds / 86400 + 1)) l.date) = p at hmargin
  have hsort : sortBy paymentKey (grouped margin g) =
      (sortBy paymentKey (grouped ledger g)).filter p := by
    rw [sortBy_filter]
    refine sortBy_of_perm ?_ fun a ha b hb => eq_of_paymentKey hids ?_ ?_
    · rw [grouped, grouped, List.filter_comm]
      exact hmargin.filter _
    · exact List.mem_of_mem_filter (hmargin.mem_iff.mp (mem_grouped.mp ha).1)
    · exact List.mem_of_mem_filter (hmargin.mem_iff.mp (mem_grouped.mp hb).1)
  have hconvex : ∀ a b c, [a, b, c].Sublist (sortBy paymentKey (grouped ledger g)) →
      p a = true → p c = true → p b = true := by
    intro a b c hsub ha hc
    have hsorted := (sortBy_pairwise paymentKey (grouped ledger g)).sublist hsub
    simp only [List.pairwise_cons, List.mem_cons, List.not_mem_nil, or_false, forall_eq_or_imp,
      forall_eq] at hsorted
    have hcreated : ∀ {a b : LedgerRow}, paymentKey a ≤ paymentKey b → a.createdAt ≤ b.createdAt := by
      intro a b hle
      rcases Prod.Lex.toLex_le_toLex.mp hle with hlt | ⟨heq, -⟩
      · exact hlt.le
      · exact heq.le
    have hab := hcreated hsorted.1.1
    have hbc := hcreated hsorted.2.1
    subst hp
    simp only [between_iff, LedgerRow.date, dateOf, microsPerDay] at ha hc ⊢
    omega
  unfold touchingPairs duplicateCandidates
  rw [sortBy_filter, sortBy_filter]
  congr 1
  show ((((sortBy paymentKey (grouped margin g)).zip (sortBy paymentKey (grouped margin g)).tail).filter
    _).filter _) = (((sortBy paymentKey (grouped ledger g)).zip
      (sortBy paymentKey (grouped ledger g)).tail).filter _).filter _
  rw [hsort, zip_tail_filter hconvex, List.filter_filter, List.filter_filter, List.filter_filter]
  refine List.filter_congr fun x hx => ?_
  obtain ⟨hfirst, hsecond⟩ := mem_of_mem_zip_tail hx
  have hfirst := (mem_grouped.mp ((mem_sortBy _).mp hfirst)).1
  have hsecond := (mem_grouped.mp ((mem_sortBy _).mp hsecond)).1
  rw [Bool.eq_iff_iff]
  simp only [Bool.and_eq_true, decide_eq_true_eq, touchesWindow_iff, mem_windowIds hids hfirst,
    mem_windowIds hids hsecond]
  constructor
  · exact fun h => h.1
  · rintro ⟨htouch, hclose⟩
    subst hp
    exact ⟨⟨htouch, hclose⟩, between_margin hclose (neighbours_le hx) htouch⟩

/-- **No payment is in two suspects.** -/
theorem reported_nodup (hids : (ledger.map LedgerRow.paymentId).Nodup) :
    ((reported ledger windowSeconds ids).flatMap suspectIds).Nodup := by
  have hperm : ((reported ledger windowSeconds ids).flatMap suspectIds).Perm
      ((ledger.map fun r => (r.loanId, r.amountMinor)).eraseDups.flatMap fun g =>
        (reportedPairs windowSeconds ids (grouped ledger g)).flatMap pairIds) := by
    rw [reported_eq]
    refine ((sortBy_perm suspectKey _).flatMap_right suspectIds).trans (.of_eq ?_)
    rw [List.flatMap_assoc]
    congr 1
    funext g
    rw [List.flatMap_map]
    rfl
  rw [hperm.nodup_iff, List.nodup_flatMap]
  constructor
  · intro g _
    refine (claimPairs_nodup [] fun x hx => ?_).1
    obtain ⟨hzip, -⟩ := mem_touchingPairs.mp hx
    have hsorted := grouped_strict (g := g) hids
    obtain ⟨hfirst, hsecond⟩ := mem_of_mem_zip_tail hzip
    intro heq
    have hsame := eq_of_paymentId hids (mem_grouped.mp ((mem_sortBy _).mp hfirst)).1
      (mem_grouped.mp ((mem_sortBy _).mp hsecond)).1 heq
    have hlt := rel_of_mem_zip_tail hsorted hzip
    rw [hsame] at hlt
    exact lt_irrefl _ hlt
  · refine (nodup_eraseDups _).imp fun {g g'} hne => ?_
    -- a payment is of one group
    have hgroup : ∀ {g : Int × Int} {i : Int},
        i ∈ (reportedPairs windowSeconds ids (grouped ledger g)).flatMap pairIds →
        ∃ k ∈ ledger, k.paymentId = i ∧ (k.loanId, k.amountMinor) = g := by
      intro g i hi
      obtain ⟨x, hx, hi⟩ := List.mem_flatMap.mp hi
      obtain ⟨hfirst, hsecond, -⟩ := mem_reportedPairs hx
      simp only [pairIds, List.mem_cons, List.not_mem_nil, or_false] at hi
      rcases hi with rfl | rfl
      · exact ⟨x.1, (mem_grouped.mp hfirst).1, rfl, (mem_grouped.mp hfirst).2⟩
      · exact ⟨x.2, (mem_grouped.mp hsecond).1, rfl, (mem_grouped.mp hsecond).2⟩
    intro i hi hi'
    obtain ⟨k, hk, rfl, hkg⟩ := hgroup hi
    obtain ⟨k', hk', heq, hkg'⟩ := hgroup hi'
    rw [eq_of_paymentId hids hk' hk heq] at hkg'
    exact hne (hkg.symm.trans hkg')

/-- **No close pair at the window is passed over.** -/
theorem reported_covers (hids : (ledger.map LedgerRow.paymentId).Nodup)
    (hnext : Consecutive ledger l l')
    (hclose : l'.createdAt - l.createdAt ≤ windowSeconds * 1000000)
    (htouch : l.paymentId ∈ ids ∨ l'.paymentId ∈ ids) :
    ∃ s ∈ reported ledger windowSeconds ids, ∃ i ∈ suspectIds s,
      i = l.paymentId ∨ i = l'.paymentId := by
  have hrow : l ∈ grouped ledger (l.loanId, l.amountMinor) := mem_grouped.mpr ⟨hnext.mem, rfl⟩
  have hrow' : l' ∈ grouped ledger (l.loanId, l.amountMinor) :=
    mem_grouped.mpr ⟨hnext.mem', by rw [hnext.loan, hnext.amount]⟩
  have hsorted := grouped_strict (g := (l.loanId, l.amountMinor)) hids
  have hpair : (l, l') ∈ touchingPairs windowSeconds ids
      (grouped ledger (l.loanId, l.amountMinor)) := by
    refine mem_touchingPairs.mpr ⟨(mem_zip_tail_iff hsorted).mpr ⟨(mem_sortBy _).mpr hrow,
      (mem_sortBy _).mpr hrow', hnext.before, fun k hk => ?_⟩, hclose, touchesWindow_iff.mpr htouch⟩
    obtain ⟨hk, hg⟩ := mem_grouped.mp ((mem_sortBy _).mp hk)
    exact hnext.next k hk (congrArg Prod.fst hg) (congrArg Prod.snd hg)
  rcases claimPairs_covers [] hpair with ⟨i, -, hnone⟩ | ⟨y, hy, i, hi, hshare⟩
  · cases hnone
  · refine ⟨suspectOf y, ?_, i, hshare, by simpa [pairIds] using hi⟩
    rw [reported_eq, mem_sortBy]
    refine List.mem_flatMap.mpr ⟨_, ?_, List.mem_map_of_mem hy⟩
    exact List.mem_eraseDups.mpr (List.mem_map_of_mem hnext.mem)

end Whole

/-! ## A run -/

theorem duplicateSuspectWindowSeconds_pos {s : Settings} {seconds : Int}
    (h : duplicateSuspectWindowSeconds s = .ok seconds) : 0 < seconds := by
  unfold duplicateSuspectWindowSeconds at h
  dsimp only at h
  split_ifs at h
  split at h
  · cases h
  · split_ifs at h with hlarge hpos
    cases h
    exact not_le.mp hpos

/-- What a run that returns has read, and what it reports. -/
theorem reconcile_reads {x : Run} {r : ReconciliationResult} (h : reconcile x = .ok r) :
    ∃ y rows margin seconds threshold, Reads x y rows ∧
      duplicateSuspectWindowSeconds x.settings = .ok seconds ∧
      margin.Perm ((wholeLedger rows).filter fun l =>
        between (y.windowFrom - (seconds / 86400 + 1)) (y.windowTo + (seconds / 86400 + 1)) l.date) ∧
      r = y.result margin seconds threshold := by
  obtain ⟨y, threshold, seconds, margin, hy, -, hseconds, hmargin, rfl⟩ := reconcile_steps h
  obtain ⟨rows, hreads⟩ := comparison_spec hy
  obtain ⟨-, rows', hrows', hperm⟩ := loadLedger_spec hmargin
  have hsame : rows' = rows := Option.some.inj (hrows'.symm.trans hreads.payments)
  subst hsame
  exact ⟨y, rows', margin, seconds, threshold, hreads, hseconds, hperm, rfl⟩

/-- The payments of the window, as the run gathers them. -/
theorem mem_ledger_ids {x : Run} {y : Comparison} {rows : List PaymentRow} (h : Reads x y rows)
    (i : Int) : i ∈ y.ledger.map LedgerRow.paymentId ↔
      i ∈ windowIds (wholeLedger rows) y.windowFrom y.windowTo := by
  have hnonneg := h.nonneg
  have hmem : ∀ l, l ∈ y.ledger ↔
      l ∈ (wholeLedger rows).filter fun l => between y.windowFrom y.windowTo l.date := by
    intro l
    unfold Comparison.ledger wholeLedger
    rw [List.mem_filter, h.ledger.mem_iff, List.mem_filter, List.mem_filter]
    simp only [between_iff]
    constructor
    · rintro ⟨⟨hl, -⟩, hin⟩
      exact ⟨hl, hin⟩
    · rintro ⟨hl, hin⟩
      exact ⟨⟨hl, by omega, by omega⟩, hin⟩
  simp only [windowIds, List.mem_map, hmem]

/-- **Duplicate detection is complete at the edges of the window.** -/
theorem duplicates_complete {x : Run} {r : ReconciliationResult} (h : reconcile x = .ok r)
    {rows : List PaymentRow} (hrows : x.payments = some rows)
    (hids : (rows.map PaymentRow.id).Nodup) :
    ∃ seconds, duplicateSuspectWindowSeconds x.settings = .ok seconds ∧ 0 < seconds ∧
      (r.duplicates.flatMap suspectIds).Nodup ∧
      (∀ l l', Consecutive (wholeLedger rows) l l' →
        l'.createdAt - l.createdAt ≤ seconds * 1000000 →
        between r.windowFrom r.windowTo l.date = true ∨
          between r.windowFrom r.windowTo l'.date = true →
        ∃ s ∈ r.duplicates, ∃ i ∈ suspectIds s, i = l.paymentId ∨ i = l'.paymentId) ∧
      r.duplicates = reported (wholeLedger rows) seconds
        (windowIds (wholeLedger rows) r.windowFrom r.windowTo) := by
  obtain ⟨y, rows', margin, seconds, threshold, hreads, hseconds, hmargin, rfl⟩ := reconcile_reads h
  have hsame : rows' = rows := Option.some.inj (hreads.payments.symm.trans hrows)
  subst hsame
  have hdistinct := wholeLedger_ids hids
  have hall : (y.result margin seconds threshold).duplicates = reported (wholeLedger rows') seconds
      (windowIds (wholeLedger rows') y.windowFrom y.windowTo) := by
    refine reported_congr fun g => ?_
    rw [reportedPairs, touchingPairs_congr (touchesWindow_congr (mem_ledger_ids hreads)),
      candidates_margin hdistinct hmargin]
    rfl
  refine ⟨seconds, hseconds, duplicateSuspectWindowSeconds_pos hseconds, ?_, ?_, hall⟩
  · rw [hall]
    exact reported_nodup hdistinct
  · intro l l' hnext hclose hin
    rw [hall]
    refine reported_covers hdistinct hnext hclose ?_
    rwa [mem_windowIds hdistinct hnext.mem, mem_windowIds hdistinct hnext.mem']

/-- A payment and its retry, and the capture of one of them. -/
def retried : Run :=
  runOn [captureOn "2026-05-30".toList "a".toList] [paymentOn 1 739766, paymentOn 2 739766] 739766
    739766 1

theorem retried_complete : ∃ r, reconcile retried = .ok r ∧ r.duplicates.length = 1 ∧
    ∃ seconds, duplicateSuspectWindowSeconds retried.settings = .ok seconds ∧
      (r.duplicates.flatMap suspectIds).Nodup := by
  obtain ⟨r, hr, hone⟩ := exists_ok (x := reconcile retried)
    (p := fun r => r.duplicates.length = 1) (by decide +kernel)
  obtain ⟨seconds, hseconds, -, hnodup, -⟩ := duplicates_complete hr rfl (by decide +kernel)
  exact ⟨r, hr, hone, seconds, hseconds, hnodup⟩

end Meridian.Reconciliation
