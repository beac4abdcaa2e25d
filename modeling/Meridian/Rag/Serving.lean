import Meridian.Rag.Policy

/-!
# What a policy search does

Every statement of a request, said against what the same request has issued before it.

* `lock` is `_lock`, and `Keeps` the discipline: the corpus is read and the globals are stored by a
  holder of the lock, who has read the clock first.
* `search_obeys`: what a search returns, by its own statements.
* `hosts_prog`: what a request reads of the corpus is what loading it reads.
-/

namespace Meridian.Rag

open Python Interleave Prog

/-! ## Where the corpus cannot be read -/

namespace Loader

variable {B : Type} (D : Loader B)

/-- An access that raised, and that nothing of `_load_corpus` catches. -/
inductive Raised : (s : Access) × (corpusDir B).Res s → Prop
  | isDir : Raised ⟨.isDir, none⟩
  | list : Raised ⟨.list, none⟩
  | audit (name : Text) : Raised ⟨.read .audit name, none⟩
  | walk : Raised ⟨.walk, none⟩
  | flatWalk : Raised ⟨.flatWalk, none⟩

/-- What is raised was raised by an access. -/
def Unread (l : Log (corpusDir B)) {α : Type} (r : Except Unreadable α) : Prop :=
  ∀ e, r = .error e → ∃ x ∈ l, Raised x

theorem unread_ok {α : Type} {l : Log (corpusDir B)} (a : α) : Unread l (.ok a) := by
  intro e he
  cases he

theorem auditDigests_unread (manifest : Manifest) (names : List Text) (l : Log (corpusDir B)) :
    Obeys (fun _ _ => True) (fun l r => Unread l r) l (D.auditDigests manifest names) := by
  induction names generalizing l with
  | nil => exact unread_ok _
  | cons name names ih =>
    refine ⟨trivial, fun b => ?_⟩
    cases b with
    | none => exact fun _ _ => ⟨_, List.mem_cons_self, .audit name⟩
    | some b =>
      refine (obeys_bind (D.auditDigests manifest names) _).mpr
        ((ih _).mono (fun _ _ h => h) fun l' r hr e he => ?_)
      cases r with
      | error e' => exact hr e' rfl
      | ok problems => cases he

theorem audit_unread (manifest : Manifest) (l : Log (corpusDir B)) :
    Obeys (fun _ _ => True) (fun l r => Unread l r) l (D.audit manifest) := by
  unfold audit
  by_cases hempty : manifest = []
  · rw [if_pos hempty]
    exact unread_ok _
  · rw [if_neg hempty]
    refine ⟨trivial, fun isDir => ?_⟩
    rcases isDir with _ | _ | _
    · exact fun _ _ => ⟨_, List.mem_cons_self, .isDir⟩
    · exact unread_ok _
    · refine ⟨trivial, fun onDisk => ?_⟩
      cases onDisk with
      | none => exact fun _ _ => ⟨_, List.mem_cons_self, .list⟩
      | some onDisk =>
        refine (obeys_bind (D.auditDigests manifest _) _).mpr
          ((D.auditDigests_unread manifest _ _).mono (fun _ _ h => h) fun l' r hr e he => ?_)
        cases r with
        | error e' => exact hr e' rfl
        | ok problems => cases he

/-- A walk raises only where its listing does. -/
theorem index_unread (manifest : Option Manifest) (names : List Text) (l : Log (corpusDir B)) :
    Obeys (fun _ _ => True) (fun l r => Unread l r) l
      (do let chunks ← D.index manifest names; pure (.ok chunks)) :=
  (obeys_bind (D.index manifest names) _).mpr
    ((obeys_true _).mono (fun _ _ h => h) fun _ chunks _ => unread_ok chunks)

theorem loadFlat_unread : Obeys (fun _ _ => True) (fun l r => Unread l r) [] D.loadFlat := by
  refine ⟨trivial, fun names => ?_⟩
  cases names with
  | none => exact fun _ _ => ⟨_, List.mem_cons_self, .flatWalk⟩
  | some names => exact D.index_unread none _ _

theorem loadListed_unread : Obeys (fun _ _ => True) (fun l r => Unread l r) [] D.loadListed := by
  unfold loadListed
  cases D.manifestText.map loadCorpusManifest with
  | none => exact unread_ok _
  | some declared =>
    cases declared with
    | error lineno => exact unread_ok _
    | ok declared =>
      refine (obeys_bind _ _).mpr ((obeys_true _).mono (fun _ _ h => h) fun l₁ manifest _ => ?_)
      cases manifest with
      | none => exact unread_ok _
      | some manifest =>
        refine (obeys_bind _ _).mpr
          ((D.audit_unread manifest l₁).mono (fun _ _ h => h) fun l₂ problems hproblems => ?_)
        cases problems with
        | error e => exact fun _ _ => hproblems e rfl
        | ok problems =>
          dsimp only
          by_cases hproblem : problems = []
          · rw [if_neg (not_not.mpr hproblem)]
            refine (obeys_bind (D.recheck manifest _) _).mpr
              ((obeys_true _).mono (fun _ _ h => h) fun l₃ bad _ => ?_)
            by_cases hbad : bad = []
            · rw [if_neg (not_not.mpr hbad)]
              refine ⟨trivial, fun names => ?_⟩
              cases names with
              | none => exact fun _ _ => ⟨_, List.mem_cons_self, .walk⟩
              | some names => exact D.index_unread (some manifest) _ _
            · rw [if_pos hbad]
              exact unread_ok _
          · rw [if_pos hproblem]
            exact unread_ok _

/-- **Loading raises** only where an access did. -/
theorem loadCorpus_unread : Obeys (fun _ _ => True) (fun l r => Unread l r) [] D.loadCorpus := by
  unfold loadCorpus
  by_cases hconfigured : D.configured = true
  · rw [if_pos hconfigured]
    exact D.loadListed_unread
  · rw [if_neg hconfigured]
    exact D.loadFlat_unread

end Loader

namespace Policy

variable {B E V : Type}

/-! ## Logs -/

omit B in
theorem exec_acquire {r : Unit} {w w' : Process E V}
    (h : Process.exec .acquire w = some (r, w')) :
    w.locked = false ∧ w' = { w with locked := true } := by
  by_cases hfree : w.locked = true
  · simp [Process.exec, hfree] at h
  · rw [Bool.not_eq_true] at hfree
    simp only [Process.exec, hfree, Bool.false_eq_true, if_false, Option.some.injEq,
      Prod.mk.injEq, true_and] at h
    exact ⟨hfree, h.symm⟩

variable (B E V) in
/-- `_lock` -/
def lock : Lock (service B E V) where
  acquires
    | .inr .acquire => true
    | _ => false
  releases
    | .inr .release => true
    | _ => false
  locked w := w.2.locked
  acquire_exec := by
    intro s w r w' hs hx
    rcases s with a | s
    · cases hs
    · cases s <;> cases hs
      obtain ⟨hfree, hpost⟩ := exec_acquire (exec_inr hx).1
      exact ⟨hfree, by rw [hpost]⟩
  release_exec := by
    intro s w r w' _ hs hx
    rcases s with a | s
    · cases hs
    · cases s <;> cases hs
      have hpost := Option.some.inj (exec_inr hx).1
      exact congrArg (fun x => x.2.locked) hpost.symm
  other_exec := by
    intro s w r w' ha hr hx
    rcases s with a | s
    · rw [(exec_inl hx).2]
    · have hexec := (exec_inr hx).1
      cases s with
      | acquire => cases ha
      | release => cases hr
      | now | state | builtAt | setState x | setBuiltAt t | make | fit e texts | embed e text
      | locate =>
        exact congrArg (fun x => x.2.locked) (Option.some.inj hexec).symm
  env_locked e w := by
    rcases e with e | e
    · rfl
    · cases e <;> rfl

/-- The caller's reading of the clock, which is the first thing it does. -/
def stamp (l : Log (service B E V)) : Option ℚ :=
  match l.getLast? with
  | some ⟨.inr .now, t⟩ => some t
  | _ => none

theorem stamp_cons {x : (s : (service B E V).Stmt) × (service B E V).Res s}
    {l : Log (service B E V)} (h : l ≠ []) : stamp (x :: l) = stamp l := by
  unfold stamp
  rw [List.getLast?_cons_of_ne_nil h]

theorem ne_nil_of_stamp {l : Log (service B E V)} {n : ℚ} (h : stamp l = some n) : l ≠ [] := by
  rintro rfl
  cases h

/-- A store to `_index_state`. -/
def setsState : (service B E V).Stmt → Bool
  | .inr (.setState _) => true
  | _ => false

/-- The caller's last statement was a store to `_index_state`. -/
def between : Log (service B E V) → Bool
  | ⟨s, _⟩ :: _ => setsState s
  | [] => false

/-- The caller is in the locked part, read the clock before it, and is not between its two stores. -/
structure Held (n : ℚ) (l : Log (service B E V)) : Prop where
  holding : (lock B E V).holding l = true
  stamp : stamp l = some n
  settled : between l = false

theorem Held.cons {n : ℚ} {l : Log (service B E V)} {s : (service B E V).Stmt}
    {r : (service B E V).Res s} (h : Held n l) (ha : (lock B E V).acquires s = false)
    (hr : (lock B E V).releases s = false) (hs : setsState s = false) : Held n (⟨s, r⟩ :: l) :=
  ⟨(Lock.holding_other ha hr).trans h.holding, (stamp_cons (ne_nil_of_stamp h.stamp)).trans h.stamp,
    hs⟩

theorem Held.left {n : ℚ} {l : Log (service B E V)} (h : Held n l) (l₁ : Log (corpusDir B)) :
    Held n (leftLog l₁ ++ l) := by
  induction l₁ with
  | nil => exact h
  | cons x l₁ ih => exact ih.cons rfl rfl rfl

/-! ## The discipline -/

/-- The index holds a vector for every text it has, each answered to its caller, and no id twice. -/
structure BuiltFrom (l : Log (service B E V)) (x : Indexed E V) : Prop where
  ids : x.entries.map Prod.fst = x.texts.map Prod.fst
  nodup : (x.texts.map Prod.fst).Nodup
  vectors : ∀ e ∈ x.entries,
    ∃ text, (e.1, text) ∈ x.texts ∧ ⟨.inr (.embed x.embedder text), some e.2⟩ ∈ l

theorem BuiltFrom.cons {l : Log (service B E V)} {x : Indexed E V}
    {y : (s : (service B E V).Stmt) × (service B E V).Res s} (h : BuiltFrom l x) :
    BuiltFrom (y :: l) x := by
  refine ⟨h.ids, h.nodup, fun e he => ?_⟩
  obtain ⟨text, htext, hin⟩ := h.vectors e he
  exact ⟨text, htext, List.mem_cons_of_mem y hin⟩

/-- The corpus is read and the globals are set by a holder of the lock. -/
def Guarded (l : Log (service B E V)) : (service B E V).Stmt → Prop
  | .inl _ => ∃ n, Held n l
  | .inr .now => l = []
  | .inr .acquire => ∀ x ∈ l, ∀ a, x.1 ≠ .inl a
  | .inr .release => (lock B E V).holding l = true
  | .inr (.setState x) => (lock B E V).holding l = true ∧ ∀ b, x = some b → BuiltFrom l b
  | .inr (.setBuiltAt t) => (lock B E V).holding l = true ∧
      ∃ x l', l = ⟨.inr (.setState x), ()⟩ :: l' ∧
        (t = none ∧ x = none ∨ ∃ b, t = some b ∧ stamp l = some b)
  | _ => True

/-- What a request keeps; a store to `_index_state` is followed by one to `_index_built_at`. -/
structure Keeps (l : Log (service B E V)) (s : (service B E V).Stmt) : Prop where
  guarded : Guarded l s
  paired : between l = true → ∃ t, s = .inr (.setBuiltAt t)

theorem keeps_of_settled {l : Log (service B E V)} {s : (service B E V).Stmt} (h : Guarded l s)
    (hl : between l = false) : Keeps l s := by
  refine ⟨h, fun hb => ?_⟩
  rw [hl] at hb
  cases hb

/-- `_index_built_at` was read as `b`, or set to it. -/
def Seen (l : Log (service B E V)) (b : ℚ) : Prop :=
  ⟨.inr .builtAt, some b⟩ ∈ l ∨ ⟨.inr (.setBuiltAt (some b)), ()⟩ ∈ l

/-- The index was read after a time of `_index_built_at` that is not too old. -/
def Served (l : Log (service B E V)) (x : Option (Indexed E V)) : Prop :=
  ∃ l₀ n b, (⟨.inr .state, x⟩ :: l₀) <:+ l ∧ stamp l₀ = some n ∧ n - b ≤ indexTtlSeconds ∧ Seen l₀ b

/-- The caller could not find the corpus, look at it or read it. -/
def Unreached (l : Log (service B E V)) : Prop :=
  ⟨.inr .locate, none⟩ ∈ l ∨ ∃ x, Loader.Raised (B := B) x ∧ ⟨.inl x.1, x.2⟩ ∈ l

theorem Unreached.mono {l l' : Log (service B E V)} (h : Unreached l) (hl : l <:+ l') :
    Unreached l' := by
  rcases h with h | ⟨x, hx, h⟩
  · exact .inl (hl.subset h)
  · exact .inr ⟨x, hx, hl.subset h⟩

/-- What `_index` returns or raises, by its caller's log. -/
def Indexes (l : Log (service B E V)) : Except PolicyError (Option (Indexed E V)) → Prop
  | .ok x => Served l x
  | .error .osError => Unreached l
  | .error .typeError =>
    ∃ x l₀, (⟨.inr .builtAt, none⟩ :: ⟨.inr .state, some x⟩ :: l₀) <:+ l
  | .error .keyError => False

variable (R : Policy B V)

/-- What a search returns or raises, by its caller's log. -/
def Answers (query : Text) (l : Log (service B E V)) (r : Except PolicyError PolicyAnswer) : Prop :=
  (∃ x v threshold, R.minScore = some threshold ∧ Served l (some x) ∧
    ⟨.inr (.embed x.embedder query), some v⟩ ∈ l ∧ r = R.answer threshold x v) ∨
  (∃ reason, r = .ok (abstain reason 0)) ∨ ∃ e, r = .error e ∧ Indexes (E := E) (V := V) l (.error e)

/-- The answer is a chunk of the index, word for word, with the best score, the least id first, and
the score reaches the threshold. -/
structure Quotes (threshold : ℚ) (x : Indexed E V) (v : V) (a : PolicyAnswer) : Prop where
  reached : threshold ≤ a.score
  text : (a.chunkId, a.text) ∈ x.texts
  vector : ∃ v', (a.chunkId, v') ∈ x.entries ∧ R.cosine v v' = a.score
  best : ∀ e ∈ x.entries, R.cosine v e.2 < a.score ∨ R.cosine v e.2 = a.score ∧ a.chunkId ≤ e.1

section Answer

variable {R} {threshold score : ℚ} {x : Indexed E V} {v : V} {id : Text}
  {rest : List (Text × ℚ)} {entries : List (Text × V)}

/-- The first of the matches. -/
theorem search_head (h : Rag.search R.cosine entries 1 v = (id, score) :: rest) :
    (∃ v', (id, v') ∈ entries ∧ R.cosine v v' = score) ∧
      ∀ e ∈ entries, R.cosine v e.2 < score ∨ R.cosine v e.2 = score ∧ id ≤ e.1 := by
  unfold Rag.search at h
  have hsorted := sortBy_pairwise (fun p : Text × ℚ => toLex (-p.2, p.1))
    (entries.map fun e => (e.1, R.cosine v e.2))
  cases hl : sortBy (fun p : Text × ℚ => toLex (-p.2, p.1))
      (entries.map fun e => (e.1, R.cosine v e.2)) with
  | nil =>
    rw [hl] at h
    cases h
  | cons p l =>
    rw [hl] at h hsorted
    obtain ⟨rfl, -⟩ := List.cons.inj h
    have hmem : ∀ q, q ∈ (id, score) :: l ↔ ∃ e ∈ entries, (e.1, R.cosine v e.2) = q := by
      intro q
      rw [← hl, mem_sortBy, List.mem_map]
    refine ⟨?_, fun e he => ?_⟩
    · obtain ⟨e, he, heq⟩ := (hmem (id, score)).mp List.mem_cons_self
      cases heq
      exact ⟨e.2, he, rfl⟩
    · have hin := (hmem (e.1, R.cosine v e.2)).mpr ⟨e, he, rfl⟩
      rcases List.mem_cons.mp hin with heq | hin
      · obtain ⟨rfl, rfl⟩ := Prod.ext_iff.mp heq
        exact .inr ⟨rfl, le_rfl⟩
      · have hle := List.rel_of_pairwise_cons hsorted hin
        rcases Prod.Lex.toLex_le_toLex.mp hle with hlt | ⟨heq, hid⟩
        · exact .inl (neg_lt_neg_iff.mp hlt)
        · exact .inr ⟨(neg_inj.mp heq).symm, hid⟩

theorem answer_hit {a : PolicyAnswer} (h : R.answer threshold x v = .ok a) (hit : a.isHit = true) :
    R.Quotes threshold x v a := by
  unfold answer at h
  split at h
  · cases h
    cases hit
  · rename_i id score rest hsearch
    obtain ⟨hvector, hbest⟩ := search_head hsearch
    split at h
    · cases h
      cases hit
    · rename_i hlow
      split at h
      · cases h
      · rename_i text htext
        cases h
        obtain ⟨l₁, l₂, htexts, -⟩ := List.lookup_eq_some_iff.mp htext
        exact ⟨not_lt.mp hlow, by simp [htexts], hvector, hbest⟩

/-- A match of the index has a text. -/
theorem answer_error {e : PolicyError} (hids : x.entries.map Prod.fst = x.texts.map Prod.fst) :
    R.answer threshold x v ≠ .error e := by
  intro h
  unfold answer at h
  split at h
  · cases h
  · rename_i id score rest hsearch
    split at h
    · cases h
    · split at h
      · rename_i htext
        obtain ⟨⟨v', hv', -⟩, -⟩ := search_head hsearch
        have hid : id ∈ x.texts.map Prod.fst := hids ▸ List.mem_map.mpr ⟨_, hv', rfl⟩
        obtain ⟨p, hp, rfl⟩ := List.mem_map.mp hid
        have hne := List.lookup_eq_none_iff.mp htext p hp
        simp at hne
      · cases h

end Answer

/-! ## What a request obeys -/

section Requests

variable {R} {l l' : Log (service B E V)} {n b : ℚ}

theorem Served.mono {x : Option (Indexed E V)} (h : Served l x) (hl : l <:+ l') : Served l' x := by
  obtain ⟨l₀, n, b, hs, hrest⟩ := h
  exact ⟨l₀, n, b, hs.trans hl, hrest⟩

theorem Indexes.mono_error {e : PolicyError} (h : Indexes (E := E) (V := V) l (.error e))
    (hl : l <:+ l') : Indexes (E := E) (V := V) l' (.error e) := by
  cases e with
  | osError => exact Unreached.mono h hl
  | typeError =>
    obtain ⟨x, l₀, hs⟩ := h
    exact ⟨x, l₀, hs.trans hl⟩
  | keyError => exact h

/-- A statement of the process, but no store to `_index_state`. -/
def Calling (l : Log (service B E V)) (s : (service B E V).Stmt) : Prop :=
  Keeps l s ∧ ∃ k, s = .inr k ∧ setsState (B := B) (.inr k) = false

theorem embedChunks_obeys (e : E) (chunks : List Chunk) (h : Held n l) :
    Obeys Calling (fun l' r => Held n l' ∧ l <:+ l' ∧ ∀ entries, r = some entries →
      entries.map Prod.fst = chunks.map Chunk.chunkId ∧ ∀ x ∈ entries, ∃ c ∈ chunks,
        c.chunkId = x.1 ∧ ⟨.inr (.embed e c.text), some x.2⟩ ∈ l') l
      (embedChunks (B := B) e chunks) := by
  induction chunks generalizing l with
  | nil =>
    refine ⟨h, List.suffix_rfl, fun entries hentries => ?_⟩
    cases hentries
    exact ⟨rfl, List.forall_mem_nil _⟩
  | cons chunk chunks ih =>
    refine ⟨⟨keeps_of_settled trivial h.settled, _, rfl, rfl⟩, fun v => ?_⟩
    have hnext : Held n (⟨.inr (.embed e chunk.text), v⟩ :: l) := h.cons rfl rfl rfl
    cases v with
    | none =>
      refine ⟨hnext, List.suffix_cons .., fun entries hentries => ?_⟩
      cases hentries
    | some v =>
      refine (obeys_bind (embedChunks e chunks) _).mpr
        ((ih hnext).mono (fun _ _ h => h) fun l' rest hrest => ?_)
      obtain ⟨hheld, hsuffix, hentries⟩ := hrest
      refine ⟨hheld, (List.suffix_cons ..).trans hsuffix, fun entries heq => ?_⟩
      obtain ⟨entries', rfl, rfl⟩ := Option.map_eq_some_iff.mp heq
      obtain ⟨hids, hvectors⟩ := hentries entries' rfl
      refine ⟨by rw [List.map_cons, List.map_cons, hids], ?_⟩
      rintro x hx
      rcases List.mem_cons.mp hx with rfl | hx
      · exact ⟨chunk, List.mem_cons_self, rfl, hsuffix.subset List.mem_cons_self⟩
      · obtain ⟨c, hc, hid, hv⟩ := hvectors x hx
        exact ⟨c, List.mem_cons_of_mem _ hc, hid, hv⟩

theorem textsOf_ids (chunks : List Chunk) :
    (textsOf chunks).map Prod.fst = chunks.map Chunk.chunkId := by
  unfold textsOf
  rw [List.map_map]
  rfl

/-- **An index that is built** holds the vectors its own calls to the provider answered. -/
theorem indexChunks_obeys (chunks : List Chunk) (h : Held n l) :
    Obeys Calling (fun l' r => Held n l' ∧ ∀ x, r = some x →
      BuiltFrom l' x ∧ x.texts = textsOf chunks) l
      (indexChunks (B := B) (E := E) (V := V) chunks) := by
  have hnothing : ∀ l' : Log (service B E V), Held n l' → Held n l' ∧
      ∀ x, (none : Option (Indexed E V)) = some x → BuiltFrom l' x ∧ x.texts = textsOf chunks := by
    intro l' h'
    refine ⟨h', fun x hx => ?_⟩
    cases hx
  unfold indexChunks
  by_cases hempty : chunks = []
  · rw [if_pos hempty]
    exact hnothing l h
  rw [if_neg hempty]
  by_cases hnodup : (chunks.map Chunk.chunkId).Nodup
  swap
  · rw [if_pos hnodup]
    exact hnothing l h
  rw [if_neg (not_not.mpr hnodup)]
  refine ⟨⟨keeps_of_settled trivial h.settled, _, rfl, rfl⟩, fun e => ?_⟩
  have hmake : Held n (⟨.inr .make, e⟩ :: l) := h.cons rfl rfl rfl
  cases e with
  | none => exact hnothing _ hmake
  | some e =>
    refine ⟨⟨keeps_of_settled trivial hmake.settled, _, rfl, rfl⟩, fun e' => ?_⟩
    have hfit : Held n (⟨.inr (.fit e (chunks.map Chunk.text)), e'⟩ :: ⟨.inr .make, some e⟩ :: l) :=
      hmake.cons rfl rfl rfl
    cases e' with
    | none => exact hnothing _ hfit
    | some e' =>
      refine (obeys_bind (embedChunks e' chunks) _).mpr
        ((embedChunks_obeys e' chunks hfit).mono (fun _ _ h => h) fun l' entries hentries => ?_)
      refine ⟨hentries.1, fun x hx => ?_⟩
      obtain ⟨entries, rfl, rfl⟩ := Option.map_eq_some_iff.mp hx
      obtain ⟨hids, hvectors⟩ := hentries.2.2 entries rfl
      refine ⟨⟨hids.trans (textsOf_ids chunks).symm, ?_, fun x hx => ?_⟩, rfl⟩
      · rw [textsOf_ids]
        exact hnodup
      · obtain ⟨c, hc, hid, hv⟩ := hvectors x hx
        exact ⟨c.text, List.mem_map.mpr ⟨c, hc, by rw [hid]⟩, hv⟩

/-- The corpus is loaded by a holder of the lock, who still holds it then. -/
theorem loadCorpus_held (D : Loader B) (h : Held n l) :
    Obeys Keeps (fun l' r => Held n l' ∧ ∀ e, r = .error e → Unreached l') l
      (D.loadCorpus.left (K := process E V)) := by
  refine D.loadCorpus_unread.left (fun l₁ s _ => ?_) fun l₁ r hr => ?_
  · exact keeps_of_settled ⟨n, h.left l₁⟩ (h.left l₁).settled
  · refine ⟨h.left l₁, fun e he => ?_⟩
    obtain ⟨x, hx, hraised⟩ := hr e he
    exact .inr ⟨x, hraised, List.mem_append_left _ (List.mem_map.mpr ⟨x, hx, rfl⟩)⟩

/-- **A build**: the corpus, and then the provider. -/
theorem indexCorpus_obeys (h : Held n l) :
    Obeys Keeps (fun l' r => Held n l' ∧ (∀ x, r = .ok (some x) → BuiltFrom l' x) ∧
      ∀ e, r = .error e → Unreached l') l (R.indexCorpus (E := E)) := by
  refine (obeys_bind _ _).mpr ?_
  refine (loadCorpus_held R.loader h).mono (fun _ _ h => h) fun l₂ r hr => ?_
  cases r with
  | error e => exact ⟨hr.1, fun x hx => (by cases hx), fun _ _ => hr.2 e rfl⟩
  | ok chunks =>
    refine (obeys_bind (indexChunks chunks) _).mpr
      ((indexChunks_obeys chunks hr.1).mono (fun _ _ h => h.1) fun l₃ built hbuilt => ?_)
    cases built with
    | none => exact ⟨hbuilt.1, fun x hx => (by cases hx), fun e he => (by cases he)⟩
    | some x =>
      refine ⟨keeps_of_settled trivial hbuilt.1.settled, fun found => ?_⟩
      have hlast : Held n (⟨.inr .locate, found⟩ :: l₃) := hbuilt.1.cons rfl rfl rfl
      cases found with
      | none => exact ⟨hlast, fun x hx => (by cases hx), fun _ _ => .inl List.mem_cons_self⟩
      | some u =>
        refine ⟨hlast, fun y hy => ?_, fun e he => (by cases he)⟩
        cases hy
        exact (hbuilt.2 x rfl).1.cons

theorem buildIndex_obeys (h : Held n l) :
    Obeys Keeps (fun l' r => Held n l' ∧ (∀ x, r = .ok (some x) → BuiltFrom l' x) ∧
      ∀ e, r = .error e → Unreached l') l (R.buildIndex (E := E)) := by
  refine ⟨keeps_of_settled trivial h.settled, fun found => ?_⟩
  have hfound : Held n (⟨.inr .locate, found⟩ :: l) := h.cons rfl rfl rfl
  cases found with
  | none => exact ⟨hfound, fun x hx => (by cases hx), fun _ _ => .inl List.mem_cons_self⟩
  | some u => exact indexCorpus_obeys hfound

theorem leave_obeys (h : Held n l) (hb : n - b ≤ indexTtlSeconds) (hseen : Seen l b) :
    Obeys Keeps (fun l' r => Indexes l' r ∧ between l' = false) l (leave (B := B) (E := E) (V := V)) := by
  refine ⟨keeps_of_settled trivial h.settled, fun state => ?_⟩
  have hread : Held n (⟨.inr .state, state⟩ :: l) := h.cons rfl rfl rfl
  refine ⟨keeps_of_settled hread.holding hread.settled, fun _ => ?_⟩
  exact ⟨⟨l, n, b, List.suffix_cons .., h.stamp, hb, hseen⟩, rfl⟩

theorem refresh_obeys (h : Held n l) :
    Obeys Keeps (fun l' r => Indexes l' r ∧ between l' = false) l (R.refresh (E := E) n) := by
  refine (obeys_bind (R.buildIndex) _).mpr
    ((buildIndex_obeys h).mono (fun _ _ h => h) fun l₁ built hbuilt => ?_)
  obtain ⟨hheld, hok, herror⟩ := hbuilt
  cases built with
  | error e =>
    exact ⟨keeps_of_settled hheld.holding hheld.settled,
      fun _ => ⟨(herror e rfl).mono (List.suffix_cons ..), rfl⟩⟩
  | ok built =>
    refine ⟨keeps_of_settled ⟨hheld.holding, fun x hx => hok x (by rw [hx])⟩ hheld.settled,
      fun _ => ?_⟩
    have hstored : stamp (⟨.inr (.setState built), ()⟩ :: l₁) = some n :=
      (stamp_cons (ne_nil_of_stamp hheld.stamp)).trans hheld.stamp
    refine ⟨⟨⟨hheld.holding, built, l₁, rfl, .inr ⟨n, rfl, hstored⟩⟩, fun _ => ⟨_, rfl⟩⟩, fun _ => ?_⟩
    refine leave_obeys (n := n) (b := n) ⟨hheld.holding, ?_, rfl⟩ ?_ (.inr List.mem_cons_self)
    · exact (stamp_cons (List.cons_ne_nil _ _)).trans hstored
    · rw [sub_self]
      decide +kernel

/-- **The locked part.** -/
theorem locked_obeys (hstamp : stamp l = some n) (hl : between l = false)
    (hcorpus : ∀ x ∈ l, ∀ a, x.1 ≠ .inl a) :
    Obeys Keeps (fun l' r => Indexes l' r ∧ between l' = false) l (R.locked (E := E) n) := by
  refine ⟨keeps_of_settled hcorpus hl, fun _ => ?_⟩
  have htaken : Held n (⟨.inr .acquire, ()⟩ :: l) :=
    ⟨Lock.holding_acquire rfl, (stamp_cons (ne_nil_of_stamp hstamp)).trans hstamp, rfl⟩
  refine ⟨keeps_of_settled trivial htaken.settled, fun state => ?_⟩
  have hstate : Held n (⟨.inr .state, state⟩ :: ⟨.inr .acquire, ()⟩ :: l) := htaken.cons rfl rfl rfl
  cases state with
  | none => exact refresh_obeys hstate
  | some x =>
    refine ⟨keeps_of_settled trivial hstate.settled, fun builtAt => ?_⟩
    have hbuilt : Held n (⟨.inr .builtAt, builtAt⟩ :: ⟨.inr .state, some x⟩ ::
        ⟨.inr .acquire, ()⟩ :: l) := hstate.cons rfl rfl rfl
    cases builtAt with
    | none =>
      exact ⟨keeps_of_settled hbuilt.holding hbuilt.settled,
        fun _ => ⟨⟨x, _, List.suffix_cons ..⟩, rfl⟩⟩
    | some b =>
      show Obeys _ _ _ (if indexTtlSeconds < n - b then R.refresh n else leave)
      by_cases hold : indexTtlSeconds < n - b
      · rw [if_pos hold]
        exact refresh_obeys hbuilt
      · rw [if_neg hold]
        exact leave_obeys hbuilt (not_lt.mp hold) (.inl List.mem_cons_self)

theorem index_obeys : Obeys Keeps (fun l' r => Indexes l' r ∧ between l' = false) []
    (R.index (E := E)) := by
  refine ⟨keeps_of_settled rfl rfl, fun (n : ℚ) => ?_⟩
  refine ⟨keeps_of_settled trivial rfl, fun state => ?_⟩
  have hstamp : stamp (B := B) (E := E) (V := V) [⟨.inr .state, state⟩, ⟨.inr .now, n⟩] = some n :=
    rfl
  cases state with
  | none => exact locked_obeys hstamp rfl (by simp)
  | some x =>
    refine ⟨keeps_of_settled trivial rfl, fun builtAt => ?_⟩
    cases builtAt with
    | none => exact ⟨⟨x, _, List.suffix_rfl⟩, rfl⟩
    | some b =>
      show Obeys _ _ _ (if n - b ≤ indexTtlSeconds then
        act .state >>= fun state => pure (Except.ok state) else R.locked n)
      by_cases hfresh : n - b ≤ indexTtlSeconds
      · rw [if_pos hfresh]
        exact ⟨keeps_of_settled trivial rfl, fun state =>
          ⟨⟨_, n, b, List.suffix_rfl, rfl, hfresh, .inl List.mem_cons_self⟩, rfl⟩⟩
      · rw [if_neg hfresh]
        exact locked_obeys rfl rfl (by simp)

theorem search_obeys (query : Option Text) :
    Obeys Keeps (fun l r => R.Answers (E := E) (query.getD []) l r) [] (R.search (E := E) query) := by
  unfold search
  cases hscore : R.minScore with
  | none => exact .inr (.inl ⟨_, rfl⟩)
  | some threshold =>
    dsimp only
    by_cases hquery : strip (query.getD []) = []
    · rw [if_pos hquery]
      exact .inr (.inl ⟨_, rfl⟩)
    rw [if_neg hquery]
    by_cases himported : (!R.imported) = true
    · rw [if_pos himported]
      exact .inr (.inl ⟨_, rfl⟩)
    rw [if_neg himported]
    refine (obeys_bind R.index _).mpr (index_obeys.mono (fun _ _ h => h) fun l₁ r hr => ?_)
    rcases r with e | _ | x
    · exact .inr (.inr ⟨e, rfl, hr.1⟩)
    · refine ⟨keeps_of_settled trivial hr.2, fun found => ?_⟩
      cases found with
      | none => exact .inr (.inr ⟨_, rfl, .inl List.mem_cons_self⟩)
      | some u => exact .inr (.inl ⟨_, rfl⟩)
    · refine ⟨keeps_of_settled trivial hr.2, fun v => ?_⟩
      cases v with
      | none => exact .inr (.inl ⟨_, rfl⟩)
      | some v =>
        exact .inl ⟨x, v, threshold, hscore, hr.1.mono (List.suffix_cons ..), List.mem_cons_self, rfl⟩

theorem resetIndexCache_obeys :
    Obeys Keeps (fun _ _ => True) [] (resetIndexCache (B := B) (E := E) (V := V)) := by
  refine ⟨keeps_of_settled (List.forall_mem_nil _) rfl, fun _ => ?_⟩
  refine ⟨keeps_of_settled ⟨rfl, fun b hb => ?_⟩ rfl, fun _ => ?_⟩
  · cases hb
  · refine ⟨⟨⟨rfl, none, _, rfl, .inl ⟨rfl, rfl⟩⟩, fun _ => ⟨_, rfl⟩⟩, fun _ => ?_⟩
    exact ⟨keeps_of_settled rfl rfl, fun _ => trivial⟩

/-- **What a request obeys.** -/
theorem prog_obeys (call : Call) : Obeys Keeps (fun l r => ∀ query a, call = .search query →
    r = some a → R.Answers (E := E) (query.getD []) l a) [] (R.prog (E := E) call) := by
  cases call with
  | search query =>
    refine (obeys_bind (R.search query) _).mpr
      ((search_obeys query).mono (fun _ _ h => h) fun l r hr => ?_)
    intro query' a hcall ha
    cases hcall
    cases ha
    exact hr
  | reset =>
    refine (obeys_bind resetIndexCache _).mpr
      (resetIndexCache_obeys.mono (fun _ _ h => h) fun l r _ => ?_)
    intro query a hcall
    cases hcall

end Requests

/-! ## What a request reads of the corpus -/

section Texts

variable {R : Policy B V}

/-- Where an index is stored, its texts are of the chunks the corpus was loaded as. -/
def Loaded (s : Action E V) (p : Prog (corpusDir B) (Except Unreadable (List Chunk))) : Prop :=
  ∀ x, s = .setState (some x) → ∃ chunks, p = ret (.ok chunks) ∧ x.texts = textsOf chunks

theorem loaded_of_calling {s : Action E V} (h : setsState (B := B) (.inr s) = false)
    (p : Prog (corpusDir B) (Except Unreadable (List Chunk))) : Loaded s p := by
  rintro x rfl
  cases h

theorem hosts_leave (p : Prog (corpusDir B) (Except Unreadable (List Chunk))) :
    Hosts Loaded (leave (B := B) (E := E) (V := V)) p :=
  ⟨loaded_of_calling rfl p, fun _ => ⟨loaded_of_calling rfl p, fun _ => trivial⟩⟩

/-- Where a build returns an index, its texts are of the chunks the corpus was loaded as. -/
theorem hosts_indexCorpus {α : Type} (n : ℚ)
    {f : Except Unreadable (Option (Indexed E V)) → Prog (service B E V) α}
    (hf : ∀ r p, (∀ x, r = .ok (some x) → ∃ chunks, p = ret (.ok chunks) ∧
      x.texts = textsOf chunks) → Hosts Loaded (f r) p) :
    Hosts Loaded (R.indexCorpus >>= f) R.loader.loadCorpus := by
  unfold indexCorpus
  rw [bind_bind]
  refine hosts_left _ fun r => ?_
  cases r with
  | error e => exact hf _ _ fun x hx => (by cases hx)
  | ok chunks =>
    dsimp only
    rw [bind_bind]
    have hheld : Held (B := B) (E := E) (V := V) n [⟨.inr .acquire, ()⟩, ⟨.inr .now, n⟩] :=
      ⟨rfl, rfl, rfl⟩
    refine hosts_right_bind ((indexChunks_obeys chunks hheld).mono (fun l s hs => ?_)
      fun l built hbuilt => ?_)
    · obtain ⟨-, k, rfl, hk⟩ := hs
      exact ⟨k, rfl, loaded_of_calling hk _⟩
    · cases built with
      | none => exact hf _ _ fun x hx => (by cases hx)
      | some x =>
        refine ⟨loaded_of_calling rfl _, fun found => ?_⟩
        cases found with
        | none => exact hf _ _ fun x hx => (by cases hx)
        | some u =>
          refine hf _ _ fun y hy => ?_
          cases hy
          exact ⟨chunks, rfl, (hbuilt.2 x rfl).2⟩

theorem hosts_refresh (n : ℚ) : Hosts Loaded (R.refresh (E := E) n) R.loader.loadCorpus := by
  refine ⟨loaded_of_calling rfl _, fun found => ?_⟩
  cases found with
  | none => exact ⟨loaded_of_calling rfl _, fun _ => trivial⟩
  | some u =>
    refine hosts_indexCorpus n fun r p hr => ?_
    cases r with
    | error e => exact ⟨loaded_of_calling rfl _, fun _ => trivial⟩
    | ok built =>
      refine ⟨fun x hx => ?_, fun _ => ⟨loaded_of_calling rfl _, fun _ => hosts_leave _⟩⟩
      cases hx
      exact hr x rfl

theorem hosts_locked (n : ℚ) : Hosts Loaded (R.locked (E := E) n) R.loader.loadCorpus := by
  refine ⟨loaded_of_calling rfl _, fun _ => ⟨loaded_of_calling rfl _, fun state => ?_⟩⟩
  cases state with
  | none => exact hosts_refresh n
  | some x =>
    refine ⟨loaded_of_calling rfl _, fun builtAt => ?_⟩
    cases builtAt with
    | none => exact ⟨loaded_of_calling rfl _, fun _ => trivial⟩
    | some b =>
      show Hosts Loaded (if indexTtlSeconds < n - b then R.refresh n else leave) _
      by_cases hold : indexTtlSeconds < n - b
      · rw [if_pos hold]
        exact hosts_refresh n
      · rw [if_neg hold]
        exact hosts_leave _

theorem hosts_index : Hosts Loaded (R.index (E := E)) R.loader.loadCorpus := by
  refine ⟨loaded_of_calling rfl _, fun (n : ℚ) => ⟨loaded_of_calling rfl _, fun state => ?_⟩⟩
  cases state with
  | none => exact hosts_locked n
  | some x =>
    refine ⟨loaded_of_calling rfl _, fun builtAt => ?_⟩
    cases builtAt with
    | none => trivial
    | some b =>
      show Hosts Loaded (if n - b ≤ indexTtlSeconds then
        act .state >>= fun state => pure (Except.ok state) else R.locked n) _
      by_cases hfresh : n - b ≤ indexTtlSeconds
      · rw [if_pos hfresh]
        exact ⟨loaded_of_calling rfl _, fun _ => trivial⟩
      · rw [if_neg hfresh]
        exact hosts_locked n

/-- **What a request reads of the corpus** is what loading it reads. -/
theorem hosts_prog (call : Call) : Hosts Loaded (R.prog (E := E) call) R.loader.loadCorpus := by
  cases call with
  | search query =>
    refine Prog.Hosts.then ?_ fun _ _ => trivial
    unfold search
    cases R.minScore with
    | none => trivial
    | some threshold =>
      dsimp only
      by_cases hquery : strip (query.getD []) = []
      · rw [if_pos hquery]
        trivial
      rw [if_neg hquery]
      by_cases himported : (!R.imported) = true
      · rw [if_pos himported]
        trivial
      rw [if_neg himported]
      refine hosts_index.then fun r p => ?_
      rcases r with e | _ | x
      · trivial
      · refine ⟨loaded_of_calling rfl _, fun found => ?_⟩
        cases found <;> trivial
      · refine ⟨loaded_of_calling rfl _, fun v => ?_⟩
        cases v <;> trivial
  | reset =>
    refine ⟨loaded_of_calling rfl _, fun _ => ⟨?_, fun _ => ⟨loaded_of_calling rfl _, fun _ =>
      ⟨loaded_of_calling rfl _, fun _ => trivial⟩⟩⟩⟩
    intro x hx
    cases hx

end Texts

end Policy

end Meridian.Rag
