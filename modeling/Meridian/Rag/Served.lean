import Meridian.Rag.Serving

/-!
# What a policy search answers from

Any number of searches and resets run at once, while files of the corpus change, time passes and the
embedder comes and goes.

* `Fresh` is the invariant behind the time to live: where `_index_built_at` has once been `b`, the
  index that is there from then on was built from reads of the corpus that came later than `b`, and
  so are the reads of whoever is building.
* `hit_fresh`: a hit is the best match of an index that is not too old.
* `hit_checked`: with a manifest, its text was cut from a file that was read right after its checks.
* `raises_only`: what a search raises, and when.
-/

namespace Meridian.Rag

open Python Interleave Prog

namespace Policy

variable {B E V : Type}

/-! ## Over whole runs -/

section Runs

variable {ι : Type} [DecidableEq ι] {R : Policy B V} {calls : ι → Call} {corpus : Directory B}
  {clock : ℚ} {embeddings : Embeddings E V} {tr : List (Entry (service B E V) ι)}
  {c : Config (service B E V) ι (Option (Except PolicyError PolicyAnswer))}

omit [DecidableEq ι] in
theorem start_obeys (i : ι) : Obeys Keeps (fun l r => ∀ query a, calls i = .search query →
    r = some a → R.Answers (E := E) (query.getD []) l a) []
    ((R.start calls corpus clock embeddings).procs i) := prog_obeys (calls i)

theorem keeps_release {l : Log (service B E V)} {s : (service B E V).Stmt} (h : Keeps l s)
    (hs : (lock B E V).releases s = true) : (lock B E V).holding l = true := by
  rcases s with a | s
  · cases hs
  · cases s <;> cases hs
    exact h.guarded

/-- The lock keeps requests apart. -/
theorem run_exclusive (h : Run (R.start calls corpus clock embeddings) tr c) :
    (lock B E V).Exclusive tr c.world :=
  h.exclusive (fun i => start_obeys i) (fun _ _ _ => keeps_release) rfl

/-- `_index_built_at` was once set to `b`. -/
def Written (b : ℚ) (tr : List (Entry (service B E V) ι)) : Prop :=
  ∃ i, ⟨.inr (.setBuiltAt (some b)), ()⟩ ∈ own i tr

/-- The caller has read the corpus only from the time `b` on. -/
def ReadsSince (b : ℚ) (i : ι) (tr : List (Entry (service B E V) ι)) : Prop :=
  ∀ a r w w' tr', .call i (.inl a) r w w' :: tr' <:+ tr → b ≤ w.2.clock

/-- The index was stored by a request that had read the corpus only from the time `b` on. -/
def StoredSince (b : ℚ) (x : Indexed E V) (tr : List (Entry (service B E V) ι)) : Prop :=
  ∃ j w w' tr', .call j (.inr (.setState (some x))) () w w' :: tr' <:+ tr ∧ ReadsSince b j tr'

/-- The index that is there, and the one that is being built, are of the time `b` or later. -/
structure Fresh (b : ℚ) (tr : List (Entry (service B E V) ι)) (w : (service B E V).World) :
    Prop where
  clock : b ≤ w.2.clock
  state : ∀ x, w.2.state = some x → StoredSince b x tr
  holder : ∀ i, (lock B E V).holding (own i tr) = true → ReadsSince b i tr

omit [DecidableEq ι] in
theorem ReadsSince.cons {b : ℚ} {i : ι} {e : Entry (service B E V) ι} (h : ReadsSince b i tr)
    (he : ∀ a r w w', e = .call i (.inl a) r w w' → b ≤ w.2.clock) : ReadsSince b i (e :: tr) := by
  intro a r w w' tr' hs
  rcases List.suffix_cons_iff.mp hs with heq | hs
  · exact he a r w w' (List.cons.inj heq).1.symm
  · exact h a r w w' tr' hs

theorem readsSince_of_own_nil {b : ℚ} {i : ι} (h : own i tr = []) : ReadsSince b i tr := by
  intro a r w w' tr' hs
  have hmem := mem_own_of_suffix hs
  rw [h] at hmem
  cases hmem

omit [DecidableEq ι] in
theorem StoredSince.cons {b : ℚ} {x : Indexed E V} {e : Entry (service B E V) ι}
    (h : StoredSince b x tr) : StoredSince b x (e :: tr) := by
  obtain ⟨j, w, w', tr', hs, hreads⟩ := h
  exact ⟨j, w, w', tr', hs.trans (List.suffix_cons ..), hreads⟩

theorem Written.cons {b : ℚ} {e : Entry (service B E V) ι} (h : Written b tr) :
    Written b (e :: tr) := by
  obtain ⟨i, hi⟩ := h
  exact ⟨i, (own_suffix i (List.suffix_cons e tr)).subset hi⟩

theorem Written.suffix {b : ℚ} {tr' : List (Entry (service B E V) ι)} (h : Written b tr')
    (hs : tr' <:+ tr) : Written b tr := by
  obtain ⟨i, hi⟩ := h
  exact ⟨i, (own_suffix i hs).subset hi⟩

theorem written_call {b : ℚ} {i : ι} {s : (service B E V).Stmt} {r : (service B E V).Res s}
    {w w' : (service B E V).World} (h : Written b (.call i s r w w' :: tr)) :
    Written b tr ∨ s = .inr (.setBuiltAt (some b)) := by
  obtain ⟨j, hj⟩ := h
  by_cases hij : i = j
  · subst hij
    rw [own_call_self] at hj
    rcases List.mem_cons.mp hj with heq | hj
    · exact .inr (Sigma.mk.inj heq).1.symm
    · exact .inl ⟨i, hj⟩
  · rw [own_call_ne hij] at hj
    exact .inl ⟨j, hj⟩

/-- `_index_built_at` is what a statement set it to, and stays otherwise. -/
theorem exec_builtAt {s : (service B E V).Stmt} {r : (service B E V).Res s}
    {w w' : (service B E V).World} (h : (service B E V).exec s w = some (r, w')) :
    (∃ t, s = .inr (.setBuiltAt t) ∧ w'.2.builtAt = t) ∨
      (∀ t, s ≠ .inr (.setBuiltAt t)) ∧ w'.2.builtAt = w.2.builtAt := by
  rcases s with a | s
  · exact .inr ⟨fun _ => Sum.inl_ne_inr, by rw [(exec_inl h).2]⟩
  · have hexec := (exec_inr h).1
    cases s with
    | setBuiltAt t =>
      have hpost : ({ w.2 with builtAt := t } : Process E V) = w'.2 :=
        (Prod.ext_iff.mp (Option.some.inj hexec)).2
      exact .inl ⟨t, rfl, by rw [← hpost]⟩
    | acquire => exact .inr ⟨by simp, by rw [(exec_acquire hexec).2]⟩
    | now | state | builtAt | release | setState x | make | fit e texts | embed e text | locate =>
      exact .inr ⟨by simp, congrArg (fun x => x.2.builtAt) (Option.some.inj hexec).symm⟩

/-- No statement moves the clock. -/
theorem exec_clock {s : (service B E V).Stmt} {r : (service B E V).Res s}
    {w w' : (service B E V).World} (h : (service B E V).exec s w = some (r, w')) :
    w'.2.clock = w.2.clock := by
  rcases s with a | s
  · rw [(exec_inl h).2]
  · have hexec := (exec_inr h).1
    cases s with
    | acquire => rw [(exec_acquire hexec).2]
    | now | state | builtAt | release | setState x | setBuiltAt t | make | fit e texts
    | embed e text | locate => exact congrArg (fun x => x.2.clock) (Option.some.inj hexec).symm

/-- `_index_state` is what a statement set it to, and stays otherwise. -/
theorem exec_state {s : (service B E V).Stmt} {r : (service B E V).Res s}
    {w w' : (service B E V).World} (h : (service B E V).exec s w = some (r, w')) :
    (∃ x, s = .inr (.setState x) ∧ w'.2.state = x) ∨
      setsState s = false ∧ w'.2.state = w.2.state := by
  rcases s with a | s
  · exact .inr ⟨rfl, by rw [(exec_inl h).2]⟩
  · have hexec := (exec_inr h).1
    cases s with
    | setState x =>
      have hpost : ({ w.2 with state := x } : Process E V) = w'.2 :=
        (Prod.ext_iff.mp (Option.some.inj hexec)).2
      exact .inl ⟨x, rfl, by rw [← hpost]⟩
    | acquire => exact .inr ⟨rfl, by rw [(exec_acquire hexec).2]⟩
    | now | state | builtAt | release | setBuiltAt t | make | fit e texts | embed e text
    | locate => exact .inr ⟨rfl, congrArg (fun x => x.2.state) (Option.some.inj hexec).symm⟩

theorem move_clock (e : (service B E V).Env) (w : (service B E V).World) :
    w.2.clock ≤ ((service B E V).env e w).2.clock := by
  rcases e with e | e
  · exact le_rfl
  · cases e with
    | elapse d => exact le_add_of_nonneg_right d.2
    | embeddings p => exact le_rfl
    | located b => exact le_rfl

theorem move_state (e : (service B E V).Env) (w : (service B E V).World) :
    ((service B E V).env e w).2.state = w.2.state ∧
      ((service B E V).env e w).2.builtAt = w.2.builtAt := by
  rcases e with e | e
  · exact ⟨rfl, rfl⟩
  · cases e <;> exact ⟨rfl, rfl⟩

/-- `_index_built_at` holds what was stored there. -/
theorem builtAt_written (h : Run (R.start calls corpus clock embeddings) tr c) {b : ℚ}
    (hb : c.world.2.builtAt = some b) : Written b tr := by
  refine Run.invariant (C := fun _ _ => True)
    (I := fun tr (w : (service B E V).World) => ∀ b, w.2.builtAt = some b → Written b tr)
    (fun i => start_obeys i) ?_ ?_ ?_ h (along_true tr) b hb
  · intro b hb
    cases hb
  · intro tr c i s r w _ hI _ hx _ b hb
    rcases exec_builtAt hx with ⟨t, rfl, ht⟩ | ⟨-, hsame⟩
    · obtain rfl := ht.symm.trans hb
      refine ⟨i, ?_⟩
      rw [own_call_self]
      exact List.mem_cons_self
    · exact (hI b (hsame ▸ hb)).cons
  · intro tr c e _ hI _ b hb
    rw [(move_state e _).2] at hb
    exact (hI b hb).cons

/-- **A request reads the corpus after it has read the clock.** -/
theorem stamped (h : Run (R.start calls corpus clock embeddings) tr c) {i : ι} {n : ℚ}
    (hn : stamp (own i tr) = some n) : n ≤ c.world.2.clock ∧ ReadsSince n i tr := by
  refine Run.invariant (C := fun _ _ => True)
    (I := fun tr w => ∀ i n, stamp (own i tr) = some n → n ≤ w.2.clock ∧ ReadsSince n i tr)
    (fun i => start_obeys i) ?_ ?_ ?_ h (along_true tr) i n hn
  · intro i n hn
    cases hn
  · intro tr c j s r w _ hI hs hx _ i n hn
    rw [exec_clock hx]
    by_cases hij : j = i
    · subst hij
      rw [own_call_self] at hn
      by_cases hnil : own j tr = []
      · -- the first statement, which is the reading of the clock
        refine ⟨?_, (readsSince_of_own_nil hnil).cons fun a r w w' he => ?_⟩
        · rw [hnil] at hn
          rcases s with a | s
          · cases hn
          · cases s with
            | now =>
              obtain rfl := Option.some.inj hn
              have hread := Option.some.inj (exec_inr hx).1
              exact le_of_eq (Prod.ext_iff.mp hread).1.symm
            | _ => cases hn
        · cases he
          obtain ⟨m, hm⟩ := hs.guarded
          exact absurd hnil (ne_nil_of_stamp hm.stamp)
      · rw [stamp_cons hnil] at hn
        obtain ⟨hle, hreads⟩ := hI j n hn
        refine ⟨hle, hreads.cons fun a r w w' he => ?_⟩
        cases he
        exact hle
    · rw [own_call_ne hij] at hn
      obtain ⟨hle, hreads⟩ := hI i n hn
      refine ⟨hle, hreads.cons fun a r w w' he => ?_⟩
      cases he
      exact absurd rfl hij
  · intro tr c e _ hI _ i n hn
    obtain ⟨hle, hreads⟩ := hI i n hn
    refine ⟨hle.trans (move_clock e _), hreads.cons fun a r w w' he => ?_⟩
    cases he

/-- A request that has just stored the index finds it there. -/
theorem between_state (h : Run (R.start calls corpus clock embeddings) tr c) {i : ι}
    {x : Option (Indexed E V)} {l : Log (service B E V)}
    (hown : own i tr = ⟨.inr (.setState x), ()⟩ :: l)
    (hheld : (lock B E V).holding (own i tr) = true) : c.world.2.state = x := by
  have hmine := h.mine (L := lock B E V) (v := fun w => w.2.state)
    (P := fun l s => ∀ x l', l = ⟨.inr (.setState x), ()⟩ :: l' → s = x) (fun i => start_obeys i)
    (fun _ _ _ => keeps_release) rfl ?_ ?_ ?_ (fun e w => (move_state e w).1) hheld
  · exact hmine x l hown
  · intro l s r w w' ha hx x l' hl
    obtain ⟨hs, -⟩ := Sigma.mk.inj (List.cons.inj hl).1
    rw [hs] at ha
    cases ha
  · intro i l s r w w' _ _ _ _ hx x l' hl
    cases (List.cons.inj hl).1
    exact congrArg (fun x => x.2.state) (Option.some.inj (exec_inr hx).1).symm
  · intro i l s r w w' _ hnot hs hx
    rcases exec_state hx with ⟨x, rfl, -⟩ | ⟨-, hsame⟩
    · rw [hs.guarded.1] at hnot
      cases hnot
    · exact hsame

/-- One statement keeps what is there from the time `b` on. -/
theorem Fresh.step {b : ℚ} {i : ι} {s : (service B E V).Stmt} {r : (service B E V).Res s}
    {w w' : (service B E V).World} (hI : Fresh b tr w) (hs : Keeps (own i tr) s)
    (hx : (service B E V).exec s w = some (r, w')) : Fresh b (.call i s r w w' :: tr) w' := by
  refine ⟨(exec_clock hx).symm ▸ hI.clock, fun x hstate => ?_, fun j hj => ?_⟩
  · rcases exec_state hx with ⟨y, rfl, hy⟩ | ⟨-, hsame⟩
    · -- what is stored was built by a holder of the lock
      obtain rfl := hy.symm.trans hstate
      exact ⟨i, w, w', tr, List.suffix_rfl, hI.holder i hs.guarded.1⟩
    · exact (hI.state x (hsame ▸ hstate)).cons
  · by_cases hij : i = j
    · subst hij
      rw [own_call_self] at hj
      by_cases ha : (lock B E V).acquires s = true
      · rcases s with a | s
        · cases ha
        · cases s <;> cases ha
          have hnone : ReadsSince b i tr := fun a r w w' tr' hsuffix =>
            absurd rfl (hs.guarded _ (mem_own_of_suffix hsuffix) a)
          refine hnone.cons fun a r w w' he => ?_
          cases he
      · rw [Bool.not_eq_true] at ha
        refine (hI.holder i (Lock.holding_before ha hj).2).cons fun a r w w' he => ?_
        cases he
        exact hI.clock
    · rw [own_call_ne hij] at hj
      refine (hI.holder j hj).cons fun a r w w' he => ?_
      cases he
      exact absurd rfl hij

/-- **The time to live is about the corpus**: where `_index_built_at` has once been `b`, the index that
is there was built from reads of the corpus that came later than `b`. -/
theorem fresh_of_written (h : Run (R.start calls corpus clock embeddings) tr c) {b : ℚ}
    (hb : Written b tr) : Fresh b tr c.world := by
  refine Run.invariant (C := fun _ _ => True) (I := fun tr w => ∀ b, Written b tr → Fresh b tr w)
    (fun i => start_obeys i) ?_ ?_ ?_ h (along_true tr) b hb
  · rintro b ⟨i, hi⟩
    cases hi
  · intro tr c i s r w hrun hI hs hx _ b hb
    by_cases hold : Written b tr
    · exact (hI b hold).step hs hx
    · -- this statement is the one that sets it
      obtain rfl := (written_call hb).resolve_left hold
      obtain ⟨hheld, x, l, hown, hx' | ⟨b', hb', hstamp⟩⟩ := hs.guarded
      · cases hx'.1
      · cases hb'
        obtain ⟨hle, hreads⟩ := stamped hrun hstamp
        have hkept : ReadsSince b i (.call i (.inr (.setBuiltAt (some b))) r c.world w :: tr) := by
          refine hreads.cons fun a r w w' he => ?_
          cases he
        refine ⟨(exec_clock hx).symm ▸ hle, fun y hy => ?_, fun j hj => ?_⟩
        · obtain ⟨y', hset, -⟩ | ⟨-, hsame⟩ := exec_state hx
          · cases hset
          rw [hsame, between_state hrun hown hheld] at hy
          subst hy
          obtain ⟨w₁, w₂, tr₁, hentry, -⟩ := exists_of_own_eq hown
          refine ⟨i, w₁, w₂, tr₁, hentry.trans (List.suffix_cons ..), ?_⟩
          exact fun a r w w' tr' hsuffix =>
            hreads a r w w' tr' (hsuffix.trans ((List.suffix_cons ..).trans hentry))
        · have hij : i = j := by
            by_contra hij
            rw [own_call_ne hij] at hj
            exact hij ((run_exclusive hrun).unique i j hheld hj)
          subst hij
          exact hkept
  · intro tr c e _ hI _ b hb
    have hold : Written b tr := hb
    obtain ⟨hclock, hstate, hholder⟩ := hI b hold
    refine ⟨hclock.trans (move_clock e _), fun x hx => ?_, fun i hi => ?_⟩
    · rw [(move_state e _).1] at hx
      exact (hstate x hx).cons
    · refine (hholder i hi).cons fun a r w w' he => ?_
      cases he

theorem Seen.written {i : ι} {l : Log (service B E V)} {b : ℚ} (hl : l <:+ own i tr)
    (h : Run (R.start calls corpus clock embeddings) tr c) (hb : Seen l b) : Written b tr := by
  rcases hb with hread | hset
  · obtain ⟨w, w', tr', hs⟩ := exists_of_mem_own (hl.subset hread)
    obtain ⟨c₁, c₂, h₁, hstep⟩ := h.entry hs
    have hanswer := Option.some.inj (exec_inr (h.exec hs)).1
    have hbuilt : c₁.world.2.builtAt = some b := by
      rw [← hstep.pre_eq]
      exact (Prod.ext_iff.mp hanswer).1
    exact (builtAt_written h₁ hbuilt).suffix ((List.suffix_cons ..).trans hs)
  · exact ⟨i, hl.subset hset⟩

/-- The read of the index that a result comes from. -/
theorem served_since (h : Run (R.start calls corpus clock embeddings) tr c) {i : ι}
    {x : Indexed E V} (hserved : Served (own i tr) (some x)) :
    ∃ n, stamp (own i tr) = some n ∧ StoredSince (n - indexTtlSeconds) x tr := by
  obtain ⟨l₀, n, b, hs, hstamp, hb, hseen⟩ := hserved
  obtain ⟨w, w', tr', hentry, hown⟩ := exists_of_own hs
  obtain ⟨c₁, c₂, h₁, hstep⟩ := h.entry hentry
  subst hown
  have hstate : c₁.world.2.state = some x := by
    rw [← hstep.pre_eq]
    exact (Prod.ext_iff.mp (Option.some.inj (exec_inr (h.exec hentry)).1)).1
  obtain ⟨j, w₁, w₂, tr₁, hstored, hreads⟩ :=
    (fresh_of_written h₁ (hseen.written List.suffix_rfl h₁)).state x hstate
  refine ⟨n, ?_, j, w₁, w₂, tr₁, hstored.trans ((List.suffix_cons ..).trans hentry), ?_⟩
  · obtain ⟨pre, hpre⟩ := (List.suffix_cons ..).trans hs
    have hne : own i tr' ≠ [] := ne_nil_of_stamp hstamp
    unfold stamp at hstamp ⊢
    rw [← hpre, List.getLast?_append_of_ne_nil _ hne]
    exact hstamp
  · intro a r w w' tr₂ hsuffix
    have hle := hreads a r w w' tr₂ hsuffix
    linarith

/-- What a search returns, by its caller's log. -/
theorem answers (h : Run (R.start calls corpus clock embeddings) tr c) {i : ι} {query : Option Text}
    {a : Except PolicyError PolicyAnswer} (hcall : calls i = .search query)
    (hreturn : c.procs i = ret (some a)) : R.Answers (E := E) (query.getD []) (own i tr) a :=
  h.returned (fun i => start_obeys i) hreturn query a hcall rfl

/-- An index that was stored was built by who stored it. -/
theorem stored_built (h : Run (R.start calls corpus clock embeddings) tr c) {j : ι} {x : Indexed E V}
    {w w' : (service B E V).World} {tr' : List (Entry (service B E V) ι)}
    (hs : .call j (.inr (.setState (some x))) () w w' :: tr' <:+ tr) : BuiltFrom (own j tr') x :=
  ((h.issued (fun i => start_obeys i) hs).guarded).2 x rfl

end Runs

/-! ## Where the text was read -/

section Texts

variable {R : Policy B V}

variable {ι : Type} [DecidableEq ι] {calls : ι → Call} {corpus : Directory B} {clock : ℚ}
  {embeddings : Embeddings E V} {tr : List (Entry (service B E V) ι)}
  {c : Config (service B E V) ι (Option (Except PolicyError PolicyAnswer))}

/-- **With a manifest, a hit is text of a file that was checked.** It is a chunk of an index some
request built, and among that request's own reads of the corpus the file it was cut from was read
right after its scan passed, which came right after its digest was the listed one. -/
theorem hit_checked (h : Run (R.start calls corpus clock embeddings) tr c) {i : ι}
    {query : Option Text} {a : PolicyAnswer} (hcall : calls i = .search query)
    (hreturn : c.procs i = ret (some (.ok a))) (hit : a.isHit = true)
    (hconfigured : R.loader.configured = true) :
    ∃ x j w w' tr', .call j (.inr (.setState (some x))) () w w' :: tr' <:+ tr ∧
      ∃ chunk name b scanned read l, chunk.chunkId = a.chunkId ∧ chunk.text = a.text ∧
        (⟨.read .chunk name, read⟩ :: ⟨.read .scan name, scanned⟩ ::
          ⟨.read .digest name, some b⟩ :: l) <:+ own j (leftSteps tr') ∧
        R.loader.listed.lookup name = some (R.loader.sha256 b) ∧
        R.loader.scanRead name scanned = true ∧
        chunk ∈ R.loader.chunksOf (some R.loader.listed) name read := by
  rcases answers h hcall hreturn with ⟨x, v, threshold, -, hserved, -, ha⟩ | ⟨reason, ha⟩ |
    ⟨e, he, -⟩
  · obtain ⟨n, -, j, w, w', tr', hstored, -⟩ := served_since h hserved
    have hobeys : ∀ _ : ι, Obeys R.loader.Checked (fun l res => ∀ chunks, res = .ok chunks →
        ∀ c ∈ chunks, R.loader.CutIn l c) [] R.loader.loadCorpus :=
      fun _ => Loader.loadCorpus_obeys hconfigured
    obtain ⟨c', hrun, hloaded⟩ := h.left_issued (fun i => hosts_prog (calls i)) hstored
    obtain ⟨chunks, hchunks, htexts⟩ := hloaded x rfl
    have htext : (a.chunkId, a.text) ∈ textsOf chunks := htexts ▸ (answer_hit ha.symm hit).text
    obtain ⟨chunk, hchunk, heq⟩ := List.mem_map.mp htext
    obtain ⟨hid, hbody⟩ := Prod.ext_iff.mp heq
    obtain ⟨name, read, l, hcut, hmem⟩ := hrun.returned hobeys hchunks chunks rfl chunk hchunk
    obtain ⟨w₁, w₂, tr₁, hread, rfl⟩ := exists_of_own hcut
    obtain ⟨b, scanned, l, hlog, hdigest, hpass⟩ := hrun.issued hobeys hread name rfl
    rw [hlog] at hcut
    exact ⟨x, j, w, w', tr', hstored, chunk, name, b, scanned, read, l, hid, hbody, hcut, hdigest,
      hpass, hmem⟩
  · cases ha
    cases hit
  · cases he

end Texts

/-! ## What a search raises -/

section Raises

variable {R : Policy B V} {ι : Type} [DecidableEq ι] {calls : ι → Call} {corpus : Directory B}
  {clock : ℚ} {embeddings : Embeddings E V} {tr : List (Entry (service B E V) ι)}
  {c : Config (service B E V) ι (Option (Except PolicyError PolicyAnswer))}

/-- A reset has set `_index_built_at` to `None`. -/
def Reset (tr : List (Entry (service B E V) ι)) : Prop :=
  ∃ j, ⟨.inr (.setBuiltAt none), ()⟩ ∈ own j tr

/-- A request stands between its two stores. -/
def Storing (tr : List (Entry (service B E V) ι)) : Prop :=
  ∃ j x l, own j tr = ⟨.inr (.setState (some x)), ()⟩ :: l

theorem builtAt_none (h : Run (R.start calls corpus clock embeddings) tr c)
    (hb : c.world.2.builtAt = none) : Reset tr ∨ ∀ b, ¬Written b tr := by
  refine Run.invariant (C := fun _ _ => True)
    (I := fun tr (w : (service B E V).World) => w.2.builtAt = none → Reset tr ∨ ∀ b, ¬Written b tr)
    (fun i => start_obeys i) ?_ ?_ ?_ h (along_true tr) hb
  · rintro -
    refine .inr ?_
    rintro b ⟨i, hi⟩
    cases hi
  · intro tr c i s r w _ hI _ hx _ hb
    rcases exec_builtAt hx with ⟨t, rfl, ht⟩ | ⟨hne, hsame⟩
    · obtain rfl := ht.symm.trans hb
      refine .inl ⟨i, ?_⟩
      rw [own_call_self]
      exact List.mem_cons_self
    · rcases hI (hsame ▸ hb) with ⟨j, hj⟩ | hnone
      · exact .inl ⟨j, (own_suffix j (List.suffix_cons ..)).subset hj⟩
      · refine .inr fun b hwritten => ?_
        rcases written_call hwritten with hold | hset
        · exact hnone b hold
        · exact hne _ hset
  · intro tr c e _ hI _ hb
    rw [(move_state e _).2] at hb
    exact hI hb

theorem state_stored (h : Run (R.start calls corpus clock embeddings) tr c) {x : Indexed E V}
    (hx : c.world.2.state = some x) :
    ∃ j w w' tr', .call j (.inr (.setState (some x))) () w w' :: tr' <:+ tr := by
  refine Run.invariant (C := fun _ _ => True)
    (I := fun tr (w : (service B E V).World) => ∀ x, w.2.state = some x →
      ∃ j w w' tr', .call j (.inr (.setState (some x))) () w w' :: tr' <:+ tr)
    (fun i => start_obeys i) ?_ ?_ ?_ h (along_true tr) x hx
  · intro x hx
    cases hx
  · intro tr c i s r w _ hI _ hexec _ x hx
    rcases exec_state hexec with ⟨y, rfl, hy⟩ | ⟨-, hsame⟩
    · obtain rfl := hy.symm.trans hx
      exact ⟨i, _, _, tr, List.suffix_rfl⟩
    · obtain ⟨j, w₁, w₂, tr', hs⟩ := hI x (hsame ▸ hx)
      exact ⟨j, w₁, w₂, tr', hs.trans (List.suffix_cons ..)⟩
  · intro tr c e _ hI _ x hx
    rw [(move_state e _).1] at hx
    obtain ⟨j, w₁, w₂, tr', hs⟩ := hI x hx
    exact ⟨j, w₁, w₂, tr', hs.trans (List.suffix_cons ..)⟩

/-- Where an index is there and has no time, a reset has run, or the first build of all is between
its two stores. -/
theorem storing_of_none (h : Run (R.start calls corpus clock embeddings) tr c)
    {x : Indexed E V} {j : ι} {w w' : (service B E V).World} {tr' : List (Entry (service B E V) ι)}
    (hs : .call j (.inr (.setState (some x))) () w w' :: tr' <:+ tr)
    (hb : c.world.2.builtAt = none) : Reset tr ∨ Storing tr ∧ ∀ b, ¬Written b tr := by
  rcases builtAt_none h hb with hreset | hnone
  · exact .inl hreset
  · refine .inr ⟨?_, hnone⟩
    have hstored : (⟨.inr (.setState (some x)), ()⟩ :: own j tr') <:+ own j tr := by
      have hown := own_suffix j hs
      rwa [own_call_self (M := service B E V) j (.inr (.setState (some x))) () w w'] at hown
    obtain ⟨pre, hpre⟩ := hstored
    rcases List.eq_nil_or_concat pre with rfl | ⟨later, ⟨s, r⟩, rfl⟩
    · exact ⟨j, x, own j tr', hpre.symm⟩
    · -- its next statement has set the time
      rw [List.concat_eq_append, List.append_assoc, List.singleton_append] at hpre
      obtain ⟨w₁, w₂, tr₁, hentry, hown⟩ := exists_of_own ⟨later, hpre⟩
      have hkeeps := h.issued (fun i => start_obeys i) hentry
      rw [hown] at hkeeps
      obtain ⟨t, rfl⟩ := hkeeps.paired rfl
      obtain ⟨-, y, l, hl, ⟨-, hy⟩ | ⟨b, rfl, -⟩⟩ := hkeeps.guarded
      · obtain ⟨hsame, -⟩ := List.cons.inj hl
        rw [hy] at hsame
        cases hsame
      · exact absurd ⟨j, mem_own_of_suffix hentry⟩ (hnone b)

/-- **What a search raises**: that it could not reach the corpus itself, by looking up the directory,
in the audit of its own build or in the walk that follows; or a `TypeError`, where it has found an
index and then no time of its build: a reset has run, or the first build of the process stood between
its two stores just then. -/
theorem raises_only (h : Run (R.start calls corpus clock embeddings) tr c) {i : ι}
    {query : Option Text} {e : PolicyError} (hcall : calls i = .search query)
    (hreturn : c.procs i = ret (some (.error e))) :
    (e = .osError ∧ Unreached (own i tr)) ∨
      e = .typeError ∧ ∃ w w' tr', .call i (.inr .builtAt) none w w' :: tr' <:+ tr ∧
        (Reset tr' ∨ Storing tr' ∧ ∀ b, ¬Written b tr') := by
  rcases answers h hcall hreturn with ⟨x, v, threshold, -, hserved, -, ha⟩ | ⟨reason, ha⟩ |
    ⟨e', he, hindexes⟩
  · obtain ⟨n, -, j, w, w', tr', hstored, -⟩ := served_since h hserved
    exact absurd ha.symm (answer_error (stored_built h hstored).ids)
  · cases ha
  · cases he
    cases e with
    | osError => exact .inl ⟨rfl, hindexes⟩
    | keyError => exact hindexes.elim
    | typeError =>
      obtain ⟨x, l₀, hs⟩ := hindexes
      obtain ⟨w, w', tr', hentry, hown⟩ := exists_of_own hs
      obtain ⟨c₁, c₂, h₁, hstep⟩ := h.entry hentry
      obtain ⟨w₁, w₂, tr₁, hread, -⟩ := exists_of_own_eq hown
      obtain ⟨c₃, c₄, h₃, hstep₃⟩ := h₁.entry hread
      have hbuilt : c₁.world.2.builtAt = none := by
        rw [← hstep.pre_eq]
        exact (Prod.ext_iff.mp (Option.some.inj (exec_inr (h.exec hentry)).1)).1
      have hstate : c₃.world.2.state = some x := by
        rw [← hstep₃.pre_eq]
        exact (Prod.ext_iff.mp (Option.some.inj (exec_inr (h₁.exec hread)).1)).1
      obtain ⟨j, w₃, w₄, tr₂, hstored⟩ := state_stored h₃ hstate
      exact .inr ⟨rfl, w, w', tr', hentry, storing_of_none h₁
        (hstored.trans ((List.suffix_cons ..).trans hread)) hbuilt⟩

end Raises

/-! ## The first searches of a process -/

/-- The corpus of one text, with an embedder that finds everything alike. -/
def smallPolicy : Policy Text ℚ where
  loader := smallCorpus
  cosine a b := a * b
  minScore := some (1 / 2)
  imported := true

/-- Two searches, before anything is indexed. -/
def twoSearches : Config (service Text Unit ℚ) (Fin 2) (Option (Except PolicyError PolicyAnswer)) :=
  smallPolicy.start (fun _ => .search (some "fees".toList)) oldMount 5
    ⟨some (), fun _ _ => some (), fun _ _ => some 1⟩

/-- The first search until its index is stored, and until it returns. -/
def building : List (Pick (service Text Unit ℚ) (Fin 2)) := List.replicate 18 (.call 0)

def hitOf : Option (Option (Except PolicyError PolicyAnswer)) → Option PolicyAnswer
  | some (some (.ok a)) => if a.isHit then some a else none
  | _ => none

theorem hitOf_some {r : Option (Option (Except PolicyError PolicyAnswer))} {a : PolicyAnswer}
    (h : hitOf r = some a) : r = some (some (.ok a)) ∧ a.isHit = true := by
  unfold hitOf at h
  split at h
  · split at h
    · rename_i hit
      cases h
      exact ⟨rfl, hit⟩
    · cases h
  · cases h

theorem first_hit : ∃ tr c a, Run twoSearches tr c ∧ c.procs 0 = ret (some (.ok a)) ∧
    a.isHit = true := by
  obtain ⟨tr, c, hrun, hsome⟩ := exists_run (building ++ List.replicate 4 (.call 0)) twoSearches
    (fun x => (hitOf (x.2.procs 0).result).isSome = true) (by decide +kernel)
  obtain ⟨a, ha⟩ := Option.isSome_iff_exists.mp hsome
  obtain ⟨hresult, hit⟩ := hitOf_some ha
  exact ⟨tr, c, a, hrun, eq_ret_of_result hresult, hit⟩

theorem hit_checked_first : ∃ tr c a, Run twoSearches tr c ∧ c.procs 0 = ret (some (.ok a)) ∧
    ∃ chunk name read, chunk.text = a.text ∧
      chunk ∈ smallCorpus.chunksOf (some smallCorpus.listed) name read := by
  obtain ⟨tr, c, a, hrun, hreturn, hit⟩ := first_hit
  obtain ⟨x, j, w, w', tr', -, chunk, name, b, scanned, read, l, -, htext, -, -, -, hmem⟩ :=
    hit_checked hrun rfl hreturn hit rfl
  exact ⟨tr, c, a, hrun, hreturn, chunk, name, read, htext, hmem⟩

def errorOf : Option (Option (Except PolicyError PolicyAnswer)) → Option PolicyError
  | some (some (.error e)) => some e
  | _ => none

theorem errorOf_some {r : Option (Option (Except PolicyError PolicyAnswer))} {e : PolicyError}
    (h : errorOf r = some e) : r = some (some (.error e)) := by
  unfold errorOf at h
  split at h
  · cases h
    rfl
  · cases h

/-- The second search looks between the first one's two stores. -/
theorem raises_only_second : ∃ tr c, Run twoSearches tr c ∧
    c.procs 1 = ret (some (.error .typeError)) ∧ ∃ w w' tr',
      .call 1 (.inr .builtAt) none w w' :: tr' <:+ tr ∧
        (Reset tr' ∨ Storing tr' ∧ ∀ b, ¬Written b tr') := by
  obtain ⟨tr, c, hrun, herror⟩ := exists_run (building ++ List.replicate 3 (.call 1)) twoSearches
    (fun x => errorOf (x.2.procs 1).result = some .typeError) (by decide +kernel)
  have hreturn := eq_ret_of_result (errorOf_some herror)
  rcases raises_only hrun rfl hreturn with ⟨he, -⟩ | ⟨-, hwindow⟩
  · cases he
  · exact ⟨tr, c, hrun, hreturn, hwindow⟩

end Policy

end Meridian.Rag
