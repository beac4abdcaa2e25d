import Meridian.Python.JsonAscii
import Meridian.Rag.Evaluation

/-!
# The embedding cache

`EmbeddingCache` keeps vectors on disk under the digest of the embedder's signature and a text.
`TfidfEmbedder` learns its weights from the corpus and signs itself with a digest of them; a
provider's vectors are never kept. A `RunCall` is what one call of `run` has after its gate, with
what goes wrong in it, and `RunCall.run` what it leaves of the file.

* `signature_injective`: the signature tells the learned weights apart, so a key is of one text
  under one embedder (`key_injective`).
* `embedAll_spec`: a vector that is served from a valid cache is the embedder's own, and the cache
  stays valid. `index_eq_entries`: the index is the one of a run without a cache.
* `run_file`: a call leaves the file as it was, or rewrites it with what its loop has used. So what
  it leaves holds only keys of its own texts, unless it ends with the file as it was
  (`within_run_iff`).
* `cache_forgets_iff` puts the two together over any sequence of calls; `refused_gold_lingers` is
  a sequence that keeps the vectors of a removed document.

Weights and vectors are of any type, with their arithmetic, the digests and the JSON text of the
weights as parameters. A file whose writing was interrupted holds a part of the entries, and is not
read again.
-/

namespace Meridian.Rag

open Python

/-! ## The embedder -/

/-- `_STOPWORDS` -/
def stopwords : List Text :=
  ["a", "an", "and", "are", "as", "at", "be", "by", "for", "from", "in", "is", "it", "of", "on",
    "or", "our", "per", "that", "the", "to", "we", "what", "when", "which", "with"].map
    String.toList

/-- `TfidfEmbedder`, before it is fitted. -/
structure Tfidf (W V : Type) where
  /-- `str.lower` -/
  lower : Text → Text
  /-- `math.log((n + 1) / (c + 1)) + 1.0` -/
  weight : ℕ → ℕ → W
  /-- counts times weights, in order, normalised -/
  vector : List (Text × ℕ × W) → V
  /-- `json.dumps(sorted(self._idf.items()), separators=(",", ":"))` -/
  payload : List (Text × W) → Text
  /-- `hashlib.sha256(payload.encode()).hexdigest()[:16]` -/
  digest16 : Text → Text
  /-- `hashlib.sha256(text.encode()).hexdigest()` -/
  sha256 : Text → Text

/-- The character between a signature and a text. -/
def nul : Char := Char.ofNat 0

namespace Tfidf

section Embedder

variable {W V : Type} (E : Tfidf W V)

/-- `tokenize` -/
def tokenize (t : Text) : List Text :=
  ((E.lower t).splitOnP fun c => !slugChar c).filter fun token => token ≠ [] ∧ token ∉ stopwords

/-- `fit`: the terms of the corpus with their weights, sorted. -/
def fit (texts : List Text) : List (Text × W) :=
  (sortBy (fun t => t) (texts.flatMap E.tokenize).dedup).map fun term =>
    (term, E.weight texts.length (texts.countP fun t => term ∈ E.tokenize t))

/-- `VERSION` -/
def version : Text := "tfidf-v1".toList

/-- `signature` of the fitted weights. -/
def signature (idf : List (Text × W)) : Text := version ++ ':' :: E.digest16 (E.payload idf)

/-- `embed` with the fitted weights: the terms in the order they come in the text. -/
def embed (idf : List (Text × W)) (t : Text) : V :=
  let tokens := E.tokenize t
  E.vector (tokens.eraseDups.filterMap fun term =>
    (idf.lookup term).map fun w => (term, tokens.count term, w))

/-- `EmbeddingCache.key` -/
def key (idf : List (Text × W)) (t : Text) : Text := E.sha256 (E.signature idf ++ nul :: t)

/-- The digests are injective, the short one too, and are written in digits; the text of the weights
tells them apart. -/
structure Injective : Prop where
  sha256 : Function.Injective E.sha256
  digest16 : Function.Injective E.digest16
  digest16_ne_nul : ∀ t, nul ∉ E.digest16 t
  payload : Function.Injective E.payload

variable {E}

/-- **The signature determines the fitted weights.** -/
theorem signature_injective (hE : E.Injective) : Function.Injective E.signature := by
  intro a b h
  have htail := List.append_cancel_left h
  exact hE.payload (hE.digest16 (List.cons.inj htail).2)

theorem nul_not_mem_signature (hE : E.Injective) (idf : List (Text × W)) :
    nul ∉ E.signature idf := by
  intro h
  rcases List.mem_append.mp h with h | h
  · exact absurd h (by decide)
  · rcases List.mem_cons.mp h with h | h
    · exact absurd h (by decide)
    · exact hE.digest16_ne_nul _ h

/-- Two texts that agree up to a character neither prefix has agree on both sides of it. -/
theorem append_cons_inj {c : Char} {a b s t : Text} (ha : c ∉ a) (hb : c ∉ b)
    (h : a ++ c :: s = b ++ c :: t) : a = b ∧ s = t := by
  induction a generalizing b with
  | nil =>
    cases b with
    | nil => exact ⟨rfl, (List.cons.inj h).2⟩
    | cons d b => exact absurd (List.mem_cons.mpr (.inl (List.cons.inj h).1)) hb
  | cons d a ih =>
    cases b with
    | nil => exact absurd (List.mem_cons.mpr (.inl (List.cons.inj h).1.symm)) ha
    | cons e b =>
      obtain ⟨rfl, htail⟩ := List.cons.inj h
      obtain ⟨rfl, hst⟩ := ih (fun hc => ha (List.mem_cons_of_mem _ hc))
        (fun hc => hb (List.mem_cons_of_mem _ hc)) htail
      exact ⟨rfl, hst⟩

/-- **A key is of one text under one embedder.** -/
theorem key_injective (hE : E.Injective) {idf idf' : List (Text × W)} {t t' : Text}
    (h : E.key idf t = E.key idf' t') : idf = idf' ∧ t = t' := by
  obtain ⟨hsign, ht⟩ := append_cons_inj (nul_not_mem_signature hE idf)
    (nul_not_mem_signature hE idf') (hE.sha256 h)
  exact ⟨signature_injective hE hsign, ht⟩

end Embedder

end Tfidf

/-! ## The cache -/

/-- `EmbeddingCache` -/
structure EmbeddingCache (V : Type) where
  data : List (Text × V)
  used : List Text
  hits : ℕ
  misses : ℕ

/-- The cache file: its entries, and whether all of them were written. -/
structure CacheFile (V : Type) where
  entries : List (Text × V)
  complete : Bool

namespace EmbeddingCache

variable {W V : Type}

/-- `__init__`, where the file can be read. -/
def ofFile : Option (CacheFile V) → Option (EmbeddingCache V)
  | none => some ⟨[], [], 0, 0⟩
  | some f => if f.complete then some ⟨f.entries, [], 0, 0⟩ else none

/-- `get_or_embed`: the vector, whether it was in the cache, and the cache after it. -/
def getOrEmbed (cache : EmbeddingCache V) (k : Text) (embed : V) : V × Bool × EmbeddingCache V :=
  let used := if k ∈ cache.used then cache.used else cache.used ++ [k]
  match cache.data.lookup k with
  | some v => (v, true, { cache with used, hits := cache.hits + 1 })
  | none => (embed, false,
      { cache with data := cache.data ++ [(k, embed)], used, misses := cache.misses + 1 })

/-- What `save` writes. -/
def saved (cache : EmbeddingCache V) : List (Text × V) :=
  cache.used.filterMap fun k => (cache.data.lookup k).map fun v => (k, v)

/-- The loop over the chunks: each text with its vector and whether that was in the cache. -/
def embedAll (E : Tfidf W V) (idf : List (Text × W)) :
    EmbeddingCache V → List Text → List (Text × V × Bool) × EmbeddingCache V
  | cache, [] => ([], cache)
  | cache, t :: texts =>
    let r := cache.getOrEmbed (E.key idf t) (E.embed idf t)
    let rest := embedAll E idf r.2.2 texts
    ((t, r.1, r.2.1) :: rest.1, rest.2)

end EmbeddingCache

/-! ## A call of the run -/

/-- An exception: an `Exception`, or one that no `except Exception` catches. -/
inductive Raise
  | exception
  | interrupt
  deriving DecidableEq

/-- Where `save` raises: before the file is opened, with so many entries in it, or at the end. -/
inductive SavePoint
  | opening
  | writing (written : ℕ)
  | closing

/-- What goes wrong in a call that its own checks do not raise. -/
structure Faults where
  /-- between the chunks and the cache: the gold file, or making, checking or fitting an embedder -/
  early : Bool
  /-- reading the cache file -/
  load : Bool
  /-- removing it -/
  unlink : Bool
  /-- at a chunk of the loop -/
  loop : Option (ℕ × Raise)
  /-- in `save` -/
  save : Option (SavePoint × Raise)

/-- `make_embedder`: TF-IDF, or a provider. -/
inductive Backend (V : Type)
  | tfidf
  | provider (embed : Text → V)

/-- `embed` of the fitted embedder. -/
def Backend.embed {W V : Type} (E : Tfidf W V) : Backend V → List Text → Text → V
  | .tfidf, texts => E.embed (E.fit texts)
  | .provider embed, _ => embed

/-- A call of `run` that has chunked its corpus. -/
structure RunCall (V : Type) where
  bench : Bench V
  corpus : Corpus
  depth : ℕ
  gold : Text
  backend : Backend V
  faults : Faults

/-- The file a call leaves, what it took from the cache, and its index once that is built. -/
structure RunEnd (V : Type) where
  file : Option (CacheFile V)
  served : List (Text × V)
  index : Option (List (Text × V))

namespace RunCall

open EmbeddingCache

variable {W V : Type} (E : Tfidf W V) (c : RunCall V)

def texts : List Text := c.corpus.chunks.map Chunk.text

/-- The chunk the loop raises at, if there is one. -/
def raisesAt : Option (ℕ × Raise) := c.faults.loop.filter fun r => r.1 < c.texts.length

/-- `cache_path.unlink(missing_ok=True)` -/
def purge (file : Option (CacheFile V)) : Option (CacheFile V) :=
  if c.faults.unlink then file else none

/-- What an exception of the loop or of `save` leaves of the file. -/
def handle (r : Raise) (file : Option (CacheFile V)) : Option (CacheFile V) :=
  match r with
  | .exception => c.purge file
  | .interrupt => file

/-- What was taken from the cache. -/
def hits (l : List (Text × V × Bool)) : List (Text × V) :=
  (l.filter fun r => r.2.2).map fun r => (r.1, r.2.1)

/-- The index of what the loop gave. -/
def indexOf (l : List (Text × V × Bool)) : List (Text × V) :=
  c.corpus.chunkIds.zip (l.map fun r => r.2.1)

/-- What a `save` that raises has written over the file. -/
def written (entries : List (Text × V)) (file : Option (CacheFile V)) :
    SavePoint → Option (CacheFile V)
  | .opening => file
  | .writing n => some ⟨entries.take n, false⟩
  | .closing => some ⟨entries, true⟩

/-- The loop under a cache, and `save`. -/
def indexCached (file : Option (CacheFile V)) (cache : EmbeddingCache V) : RunEnd V :=
  let idf := E.fit c.texts
  match c.raisesAt with
  | some (i, r) => ⟨c.handle r file, hits (embedAll E idf cache (c.texts.take i)).1, none⟩
  | none =>
    let loop := embedAll E idf cache c.texts
    match c.faults.save with
    | some (p, r) => ⟨c.handle r (written loop.2.saved file p), hits loop.1, none⟩
    | none => ⟨some ⟨loop.2.saved, true⟩, hits loop.1, some (c.indexOf loop.1)⟩

/-- The loop of a provider, which keeps no vectors. -/
def indexUncached (embed : Text → V) (file : Option (CacheFile V)) : RunEnd V :=
  if c.faults.unlink then ⟨file, [], none⟩
  else
    ⟨none, [], if c.raisesAt.isSome then none
      else some (c.corpus.chunkIds.zip (c.texts.map embed))⟩

/-- `run`, from its chunks to its index. -/
def run (file : Option (CacheFile V)) : RunEnd V :=
  match acceptGold c.bench c.corpus c.depth c.gold with
  | .error .noCorpus => ⟨c.purge file, [], none⟩
  | .error _ => ⟨file, [], none⟩
  | .ok _ =>
    if c.faults.early || c.faults.load then ⟨file, [], none⟩
    else
      match ofFile file with
      | none => ⟨file, [], none⟩
      | some cache =>
        match c.backend with
        | .tfidf => c.indexCached E file cache
        | .provider embed => c.indexUncached embed file

/-- The file after a sequence of calls. A call that ends before its chunks does not touch it. -/
def fileAfter (calls : List (RunCall V)) : Option (CacheFile V) :=
  calls.foldl (fun file c => (c.run E file).file) none

end RunCall

/-! ## What the cache holds -/

section Contents

variable {W V : Type} {E : Tfidf W V}

/-- Every entry is the vector of a text under some fitted embedder. -/
def ValidEntries (E : Tfidf W V) (entries : List (Text × V)) : Prop :=
  ∀ e ∈ entries, ∃ texts t, e = (E.key (E.fit texts) t, E.embed (E.fit texts) t)

/-- Every key is of one of the texts. -/
def KeysOf (E : Tfidf W V) (texts : List Text) (entries : List (Text × V)) : Prop :=
  ∀ e ∈ entries, ∃ fitted, ∃ t ∈ texts, e.1 = E.key (E.fit fitted) t

theorem ValidEntries.sublist {l l' : List (Text × V)} (h : ValidEntries E l) (hl : l' ⊆ l) :
    ValidEntries E l' := fun e he => h e (hl he)

theorem KeysOf.sublist {texts : List Text} {l l' : List (Text × V)} (h : KeysOf E texts l)
    (hl : l' ⊆ l) : KeysOf E texts l' := fun e he => h e (hl he)

theorem mem_of_lookup {l : List (Text × V)} {k : Text} {v : V} (h : l.lookup k = some v) :
    (k, v) ∈ l := by
  induction l with
  | nil => exact nomatch h
  | cons e l ih =>
    rw [List.lookup_cons] at h
    by_cases hk : k = e.1
    · subst hk
      simp only [beq_self_eq_true, Option.some.injEq] at h
      rw [← h]
      exact List.mem_cons_self
    · rw [beq_false_of_ne hk] at h
      exact List.mem_cons_of_mem _ (ih h)

namespace EmbeddingCache

variable {cache : EmbeddingCache V}

/-- **A lookup gives the embedder's own vector**, and keeps the cache valid. -/
theorem getOrEmbed_spec (hE : E.Injective) (hvalid : ValidEntries E cache.data) (texts : List Text)
    (t : Text) :
    (cache.getOrEmbed (E.key (E.fit texts) t) (E.embed (E.fit texts) t)).1 =
        E.embed (E.fit texts) t ∧
      ValidEntries E (cache.getOrEmbed (E.key (E.fit texts) t) (E.embed (E.fit texts) t)).2.2.data ∧
      ∀ k ∈ (cache.getOrEmbed (E.key (E.fit texts) t) (E.embed (E.fit texts) t)).2.2.used,
        k ∈ cache.used ∨ k = E.key (E.fit texts) t := by
  have hused : ∀ k ∈ (if E.key (E.fit texts) t ∈ cache.used then cache.used
      else cache.used ++ [E.key (E.fit texts) t]), k ∈ cache.used ∨ k = E.key (E.fit texts) t := by
    intro k hk
    split at hk
    · exact .inl hk
    · simpa using hk
  unfold getOrEmbed
  cases hlookup : cache.data.lookup (E.key (E.fit texts) t) with
  | some v =>
    obtain ⟨texts', t', he⟩ := hvalid _ (mem_of_lookup hlookup)
    obtain ⟨hk, hv⟩ := Prod.mk.inj he
    obtain ⟨hfit, rfl⟩ := Tfidf.key_injective hE hk
    exact ⟨by rw [hv, hfit], hvalid, hused⟩
  | none =>
    refine ⟨rfl, fun e he => ?_, hused⟩
    rcases List.mem_append.mp he with he | he
    · exact hvalid e he
    · exact ⟨texts, t, List.mem_singleton.mp he⟩

/-- **The loop** gives each text the embedder's vector. -/
theorem embedAll_spec (hE : E.Injective) (hvalid : ValidEntries E cache.data)
    (texts ts : List Text) :
    (embedAll E (E.fit texts) cache ts).1.map (fun r => (r.1, r.2.1)) =
        ts.map (fun t => (t, E.embed (E.fit texts) t)) ∧
      ValidEntries E (embedAll E (E.fit texts) cache ts).2.data ∧
      ∀ k ∈ (embedAll E (E.fit texts) cache ts).2.used,
        k ∈ cache.used ∨ ∃ t ∈ ts, k = E.key (E.fit texts) t := by
  induction ts generalizing cache with
  | nil => exact ⟨rfl, hvalid, fun k hk => .inl hk⟩
  | cons t ts ih =>
    obtain ⟨hvec, hdata, hused⟩ := getOrEmbed_spec hE hvalid texts t
    obtain ⟨hrest, hdata', hused'⟩ := ih hdata
    refine ⟨?_, hdata', fun k hk => ?_⟩
    · simp only [embedAll, List.map_cons, hrest, hvec]
    · rcases hused' k hk with hk | ⟨t', ht', rfl⟩
      · rcases hused k hk with hk | rfl
        · exact .inl hk
        · exact .inr ⟨t, List.mem_cons_self, rfl⟩
      · exact .inr ⟨t', List.mem_cons_of_mem _ ht', rfl⟩

theorem mem_saved {e : Text × V} (h : e ∈ cache.saved) : e.1 ∈ cache.used ∧ e ∈ cache.data := by
  obtain ⟨k, hk, he⟩ := List.mem_filterMap.mp h
  obtain ⟨v, hv, rfl⟩ := Option.map_eq_some_iff.mp he
  exact ⟨hk, mem_of_lookup hv⟩

end EmbeddingCache

/-- Every entry of the file is the vector of a text under some fitted embedder. -/
def Valid (E : Tfidf W V) (file : Option (CacheFile V)) : Prop :=
  ∀ f, file = some f → ValidEntries E f.entries

/-- There is no file, or it holds only keys of these texts. -/
def Within (E : Tfidf W V) (texts : List Text) (file : Option (CacheFile V)) : Prop :=
  ∀ f, file = some f → KeysOf E texts f.entries

@[simp] theorem valid_none : Valid E none := fun _ h => nomatch h

@[simp] theorem within_none {texts : List Text} : Within E texts none := fun _ h => nomatch h

end Contents

namespace RunCall

open EmbeddingCache

variable {W V : Type} {E : Tfidf W V} {c : RunCall V} {file : Option (CacheFile V)}

/-! ## What a call leaves -/

/-- A call that indexes what it chunked ends with the file as it was. -/
def indexLeaves (c : RunCall V) : Bool :=
  match c.backend with
  | .provider _ => c.faults.unlink
  | .tfidf =>
    match c.raisesAt, c.faults.save with
    | some (_, r), _ => decide (r = .interrupt) || c.faults.unlink
    | none, some (.opening, r) => decide (r = .interrupt) || c.faults.unlink
    | none, _ => false

/-- A call ends, after its chunks, with the file neither removed nor rewritten. -/
def leaves (c : RunCall V) (file : Option (CacheFile V)) : Bool :=
  match acceptGold c.bench c.corpus c.depth c.gold with
  | .error .noCorpus => c.faults.unlink
  | .error _ => true
  | .ok _ => c.faults.early || c.faults.load || (ofFile file).isNone || c.indexLeaves

/-- What a call writes: nothing but what its loop has used. -/
def Rewritten (E : Tfidf W V) (c : RunCall V) (file file' : Option (CacheFile V)) : Prop :=
  file' = none ∨ ∃ cache f, ofFile file = some cache ∧ file' = some f ∧
    f.entries ⊆ (embedAll E (E.fit c.texts) cache c.texts).2.saved

theorem handle_cases (c : RunCall V) (r : Raise) (file : Option (CacheFile V)) :
    (decide (r = .interrupt) || c.faults.unlink) = true ∧ c.handle r file = file ∨
      (decide (r = .interrupt) || c.faults.unlink) = false ∧ c.handle r file = none := by
  cases r <;> cases hu : c.faults.unlink <;> simp [handle, purge, hu]

/-- The loop and `save` leave the file, or rewrite it. -/
theorem indexCached_file {cache : EmbeddingCache V} (hcache : ofFile file = some cache)
    (hb : c.backend = .tfidf) :
    c.indexLeaves = true ∧ (c.indexCached E file cache).file = file ∨
      c.indexLeaves = false ∧ Rewritten E c file (c.indexCached E file cache).file := by
  unfold indexLeaves indexCached
  rw [hb]
  cases hraise : c.raisesAt with
  | some ir =>
    obtain ⟨h, hfile⟩ | ⟨h, hfile⟩ := c.handle_cases ir.2 file
    · exact .inl ⟨h, hfile⟩
    · exact .inr ⟨h, .inl hfile⟩
  | none =>
    cases hsave : c.faults.save with
    | none => exact .inr ⟨rfl, .inr ⟨cache, _, hcache, rfl, fun _ h => h⟩⟩
    | some pr =>
      obtain ⟨p, r⟩ := pr
      cases p with
      | opening =>
        obtain ⟨h, hfile⟩ | ⟨h, hfile⟩ := c.handle_cases r file
        · exact .inl ⟨h, hfile⟩
        · exact .inr ⟨h, .inl hfile⟩
      -- the file was opened, so what it held is gone either way
      | writing n =>
        refine .inr ⟨rfl, ?_⟩
        obtain ⟨-, hfile⟩ | ⟨-, hfile⟩ := c.handle_cases r
          (written (embedAll E (E.fit c.texts) cache c.texts).2.saved file (.writing n))
        · exact .inr ⟨cache, _, hcache, hfile, List.take_subset _ _⟩
        · exact .inl hfile
      | closing =>
        refine .inr ⟨rfl, ?_⟩
        obtain ⟨-, hfile⟩ | ⟨-, hfile⟩ := c.handle_cases r
          (written (embedAll E (E.fit c.texts) cache c.texts).2.saved file .closing)
        · exact .inr ⟨cache, _, hcache, hfile, fun _ h => h⟩
        · exact .inl hfile

/-- **A call leaves the file, or rewrites it.** -/
theorem run_file (E : Tfidf W V) (c : RunCall V) (file : Option (CacheFile V)) :
    c.leaves file = true ∧ (c.run E file).file = file ∨
      c.leaves file = false ∧ Rewritten E c file (c.run E file).file := by
  unfold leaves run
  cases hgold : acceptGold c.bench c.corpus c.depth c.gold with
  | error e =>
    cases e with
    | noCorpus =>
      cases hu : c.faults.unlink
      · exact .inr ⟨rfl, .inl (by simp only [purge, hu]; rfl)⟩
      · exact .inl ⟨rfl, by simp only [purge, hu]; rfl⟩
    | _ => exact .inl ⟨rfl, rfl⟩
  | ok rows =>
    cases hfault : c.faults.early || c.faults.load with
    | true => exact .inl ⟨rfl, rfl⟩
    | false =>
      cases hcache : ofFile file with
      | none => exact .inl ⟨rfl, rfl⟩
      | some cache =>
        simp only [Option.isNone_some, Bool.false_or, Bool.false_eq_true, if_false]
        cases hb : c.backend with
        | tfidf => exact indexCached_file hcache hb
        | provider embed =>
          cases hu : c.faults.unlink
          · exact .inr ⟨by simp [indexLeaves, hb, hu], .inl (by simp [indexUncached, hu])⟩
          · exact .inl ⟨by simp [indexLeaves, hb, hu], by simp [indexUncached, hu]⟩

theorem ofFile_data {cache : EmbeddingCache V} (hvalid : Valid E file)
    (h : ofFile file = some cache) : ValidEntries E cache.data ∧ cache.used = [] := by
  cases file with
  | none =>
    obtain rfl := Option.some.inj h
    exact ⟨fun _ he => (nomatch he), rfl⟩
  | some f =>
    simp only [ofFile, Option.ite_none_right_eq_some, Option.some.injEq] at h
    obtain ⟨-, rfl⟩ := h
    exact ⟨hvalid f rfl, rfl⟩

/-- What a call writes is valid, and of its own texts. -/
theorem Rewritten.spec {file' : Option (CacheFile V)} (hE : E.Injective) (hvalid : Valid E file)
    (h : Rewritten E c file file') : Valid E file' ∧ Within E c.texts file' := by
  obtain rfl | ⟨cache, f, hcache, rfl, hsub⟩ := h
  · exact ⟨valid_none, within_none⟩
  · obtain ⟨hdata, hnil⟩ := ofFile_data hvalid hcache
    obtain ⟨-, hdata', hused⟩ := embedAll_spec hE hdata c.texts c.texts
    constructor
    · rintro _ ⟨⟩ e he
      exact hdata' e (mem_saved (hsub he)).2
    · rintro _ ⟨⟩ e he
      obtain hold | hnew := hused e.1 (mem_saved (hsub he)).1
      · rw [hnil] at hold
        exact nomatch hold
      · exact ⟨c.texts, hnew⟩

/-- What is taken from the cache is the embedder's own. -/
theorem mem_hits {l : List (Text × V × Bool)} {embed : Text → V} {ts : List Text} {p : Text × V}
    (hl : l.map (fun r => (r.1, r.2.1)) = ts.map fun t => (t, embed t)) (h : p ∈ hits l) :
    p.2 = embed p.1 := by
  obtain ⟨r, hr, rfl⟩ := List.mem_map.mp h
  have hmem := List.mem_map_of_mem (f := fun r : Text × V × Bool => (r.1, r.2.1))
    (List.mem_filter.mp hr).1
  rw [hl] at hmem
  obtain ⟨t, -, ht⟩ := List.mem_map.mp hmem
  obtain ⟨htext, hvec⟩ := Prod.mk.inj ht
  exact hvec.symm.trans (congrArg embed htext)

/-- **What a call takes from the cache** is what its fitted embedder would compute. -/
theorem run_served (hE : E.Injective) (hvalid : Valid E file) {p : Text × V}
    (h : p ∈ (c.run E file).served) : p.2 = E.embed (E.fit c.texts) p.1 := by
  unfold run at h
  split at h
  · cases h
  · cases h
  split at h
  · cases h
  split at h
  · cases h
  rename_i cache hcache
  have hspec : ∀ ts, _ := fun ts =>
    (embedAll_spec hE (ofFile_data hvalid hcache).1 c.texts ts).1
  cases hb : c.backend with
  | provider embed =>
    rw [hb] at h
    simp only [indexUncached] at h
    split at h <;> cases h
  | tfidf =>
    rw [hb] at h
    simp only [indexCached] at h
    split at h
    · exact mem_hits (hspec _) h
    · split at h <;> exact mem_hits (hspec _) h

/-- **The index** of a call is the one of a call without a cache. -/
theorem index_eq_entries (hE : E.Injective) (hvalid : Valid E file) {index : List (Text × V)}
    (h : (c.run E file).index = some index) :
    index = entries { c.bench with embed := c.backend.embed E } c.corpus := by
  have hzip : ∀ f : Text → V, c.corpus.chunkIds.zip (c.texts.map f) =
      c.corpus.chunks.map fun k => (k.chunkId, f k.text) := by
    intro f
    rw [texts, List.map_map, Corpus.chunkIds, List.zip_map']
    rfl
  unfold run at h
  split at h
  · cases h
  · cases h
  split at h
  · cases h
  split at h
  · cases h
  rename_i cache hcache
  cases hb : c.backend with
  | provider embed =>
    simp only [hb, indexUncached] at h
    split at h
    · cases h
    · split at h
      · cases h
      · rw [← Option.some.inj h, hzip]
        rfl
  | tfidf =>
    simp only [hb, indexCached] at h
    split at h
    · cases h
    · split at h
      · cases h
      · have hloop := congrArg (List.map Prod.snd)
          (embedAll_spec hE (ofFile_data hvalid hcache).1 c.texts c.texts).1
        simp only [List.map_map, Function.comp_def] at hloop
        rw [← Option.some.inj h, indexOf, hloop, hzip]
        rfl

/-! ## What a sequence of calls leaves -/

theorem valid_run (hE : E.Injective) (hvalid : Valid E file) : Valid E (c.run E file).file := by
  obtain ⟨-, hfile⟩ | ⟨-, hwritten⟩ := c.run_file E file
  · rw [hfile]
    exact hvalid
  · exact (hwritten.spec hE hvalid).1

/-- **Every file that calls leave is valid.** -/
theorem valid_fileAfter (hE : E.Injective) (calls : List (RunCall V)) :
    Valid E (fileAfter E calls) := by
  induction calls using List.reverseRecOn with
  | nil => exact valid_none
  | append_singleton calls c ih =>
    rw [fileAfter, List.foldl_append]
    exact valid_run hE ih

/-- **A call leaves only keys of its own texts** exactly when it does not end with the file as it
was, or the file had no others. -/
theorem within_run_iff (hE : E.Injective) (hvalid : Valid E file) :
    Within E c.texts (c.run E file).file ↔ c.leaves file = false ∨ Within E c.texts file := by
  obtain ⟨hleaves, hfile⟩ | ⟨hleaves, hwritten⟩ := c.run_file E file
  · simp [hleaves, hfile]
  · simp [hleaves, (hwritten.spec hE hvalid).2]

/-- After any sequence of calls, what a call takes from the cache is what its fitted embedder would
compute; and it leaves only keys of its own texts exactly when it does not end with the file as it
was, or the file had no others. -/
theorem cache_forgets_iff (hE : E.Injective) (calls : List (RunCall V)) (c : RunCall V) :
    (∀ p ∈ (c.run E (fileAfter E calls)).served, p.2 = E.embed (E.fit c.texts) p.1) ∧
      (Within E c.texts (c.run E (fileAfter E calls)).file ↔
        c.leaves (fileAfter E calls) = false ∨ Within E c.texts (fileAfter E calls)) :=
  ⟨fun _ hp => run_served hE (valid_fileAfter hE calls) hp,
    within_run_iff hE (valid_fileAfter hE calls)⟩

end RunCall

/-! ## A gold set that is refused -/

section Lingering

/-- An embedder with JSON texts for its digests. In a corpus of one text, every weight is
`log(2 / 2) + 1`. -/
def plainTfidf : Tfidf ℤ (List (Text × ℤ)) where
  lower t := t.map Char.toLower
  weight _ _ := 1
  vector l := l.map fun p => (p.1, p.2.1 * p.2.2)
  payload items := dumps (items.map fun p => .text (dumps [.text p.1, .int p.2]))
  digest16 t := dumps [.text t]
  sha256 t := t

/-- A call over a corpus of one chunk. -/
def policyCall (doc gold : String) : RunCall (List (Text × ℤ)) where
  bench :=
    { lower t := t.map Char.toLower
      scanText _ := false
      personName _ := false
      embed _ _ := []
      cosine _ _ := 0
      next x := x
      hasJudge := false
      displayedSummaries := [] }
  corpus := ⟨[⟨(doc ++ "#_intro").toList, doc.toList, intro, doc.toList⟩], []⟩
  depth := 9
  gold := gold.toList
  backend := .tfidf
  faults := ⟨false, false, false, none, none⟩

/-- A gold set that is accepted. -/
def noQueries : String := "\x7b\"queries\": []\x7d"

theorem nul_not_mem_unit (n : ℕ) : nul ∉ Item.unit n := by
  have hdigit : ∀ d < 16, nul ≠ Item.hexDigit d := by decide
  intro h
  simp only [Item.unit, List.mem_cons, List.not_mem_nil, or_false] at h
  obtain h | h | h | h | h | h := h
  · exact absurd h (by decide)
  · exact absurd h (by decide)
  all_goals exact hdigit _ (Nat.mod_lt _ (by decide)) h

theorem nul_not_mem_escape (c : Char) : nul ∉ Item.escape c := by
  intro h
  unfold Item.escape at h
  split_ifs at h with hq hb hn hr ht hbs hff hplain hplane
  iterate 7 exact absurd h (by decide)
  · obtain rfl := List.mem_singleton.mp h
    exact absurd hplain.1 (by decide)
  · exact nul_not_mem_unit _ h
  · exact (List.mem_append.mp h).elim (nul_not_mem_unit _) (nul_not_mem_unit _)

theorem plainTfidf_injective : plainTfidf.Injective where
  sha256 _ _ h := h
  digest16 _ _ h := Item.text.inj (List.cons.inj (dumps_injective h)).1
  digest16_ne_nul t h := by
    have hflat : nul ∈ t.flatMap Item.escape := by
      simpa [plainTfidf, dumps, Item.dump, show nul ≠ '[' by decide, show nul ≠ '"' by decide,
        show nul ≠ ']' by decide] using h
    obtain ⟨c, -, hc⟩ := List.mem_flatMap.mp hflat
    exact nul_not_mem_escape c hc
  payload := by
    have hitem : Function.Injective fun p : Text × ℤ =>
        Item.text (dumps [.text p.1, .int p.2]) := by
      rintro ⟨t, w⟩ ⟨t', w'⟩ h
      have hitems := dumps_injective (Item.text.inj h)
      simpa using hitems
    exact dumps_injective.comp (List.map_injective_iff.mpr hitem)

/-- A corpus whose gold set is accepted is all that is kept. -/
theorem next_corpus_forgets :
    ((policyCall "alpha" noQueries).run plainTfidf (RunCall.fileAfter plainTfidf
        [policyCall "beta" noQueries, policyCall "alpha" noQueries])).served ≠ [] ∧
      (∀ p ∈ ((policyCall "alpha" noQueries).run plainTfidf (RunCall.fileAfter plainTfidf
        [policyCall "beta" noQueries, policyCall "alpha" noQueries])).served,
          p.2 = plainTfidf.embed (plainTfidf.fit ["alpha".toList]) p.1) ∧
      Within plainTfidf ["alpha".toList] ((policyCall "alpha" noQueries).run plainTfidf
        (RunCall.fileAfter plainTfidf
          [policyCall "beta" noQueries, policyCall "alpha" noQueries])).file := by
  obtain ⟨hserved, hwithin⟩ := RunCall.cache_forgets_iff plainTfidf_injective
    [policyCall "beta" noQueries, policyCall "alpha" noQueries] (policyCall "alpha" noQueries)
  exact ⟨by decide +kernel, hserved, hwithin.mpr (.inl (by decide +kernel))⟩

/-- **A refused gold set keeps the vectors of a removed document**: the file holds the key of a text
that the corpus no longer has. -/
theorem refused_gold_lingers : plainTfidf.Injective ∧ ¬∀ calls c,
    Within plainTfidf (RunCall.texts c)
      (RunCall.run plainTfidf c (RunCall.fileAfter plainTfidf calls)).file := by
  refine ⟨plainTfidf_injective, fun hall => ?_⟩
  have hwithin := hall [policyCall "alpha" noQueries] (policyCall "beta" "\x7b\x7d")
  have hheld : ((policyCall "beta" "\x7b\x7d").run plainTfidf
      (RunCall.fileAfter plainTfidf [policyCall "alpha" noQueries])).file.map CacheFile.entries =
      some [(plainTfidf.key (plainTfidf.fit ["alpha".toList]) "alpha".toList,
        [("alpha".toList, 1)])] := by
    decide +kernel
  obtain ⟨f, hf, hentries⟩ := Option.map_eq_some_iff.mp hheld
  obtain ⟨fitted, t, ht, hkey⟩ := hwithin f hf _ (hentries ▸ List.mem_singleton_self _)
  obtain rfl : t = "beta".toList := List.mem_singleton.mp ht
  exact absurd (Tfidf.key_injective plainTfidf_injective hkey).2 (by decide)

end Lingering

end Meridian.Rag
