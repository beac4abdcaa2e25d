import Mathlib.Algebra.Order.Ring.Rat
import Meridian.Interleave.Beside
import Meridian.Interleave.Lock
import Meridian.Rag.Evaluation
import Meridian.Rag.Manifest

/-!
# The policy index

`policy_retrieval.py` keeps one index of the corpus for all requests of a process. `_index` reads the
clock first; where the index is there and not older than its time to live, it is returned without a
lock. Otherwise the lock is taken, both are looked at again, and the index may be built, which reads
the whole corpus and calls the embedder for every chunk.

* `Process` is the clock, the lock, the two globals and the embedder's provider; `Action` has a
  statement for every read and write of the globals, so that between any two of them other requests
  and the environment move.
* `service` is this process beside the corpus directory.
* `search` and `resetIndexCache` are what a request does.

The embedders and the hygiene scan are parameters. Out of scope: the log lines but for the directory
they look up, what `tool_result` shows a model of an answer, and a corpus directory that moves.
-/

namespace Meridian.Rag

open Python Interleave Prog

/-! ## The process -/

/-- `(index, embedder, {chunk_id: text})` -/
structure Indexed (E V : Type) where
  entries : List (Text × V)
  embedder : E
  texts : List (Text × Text)

/-- What the embedder does when it is called; `none` where it raises. -/
structure Embeddings (E V : Type) where
  /-- `make_embedder` -/
  make : Option E
  fit : E → List Text → Option E
  embed : E → Text → Option V

structure Process (E V : Type) where
  /-- `time.monotonic()` -/
  clock : ℚ
  /-- `_lock` -/
  locked : Bool
  /-- `_index_state` -/
  state : Option (Indexed E V)
  /-- `_index_built_at` -/
  builtAt : Option ℚ
  embeddings : Embeddings E V
  /-- `corpus_dir()` answers and does not raise an `OSError` -/
  located : Bool

inductive Action (E V : Type)
  | now
  | state
  | builtAt
  | acquire
  | release
  | setState (x : Option (Indexed E V))
  | setBuiltAt (t : Option ℚ)
  | make
  | fit (e : E) (texts : List Text)
  | embed (e : E) (text : Text)
  /-- `corpus_dir()` -/
  | locate

/-- Time passes, and the provider and the file system answer as they will. -/
inductive Outside (E V : Type)
  | elapse (d : {d : ℚ // 0 ≤ d})
  | embeddings (p : Embeddings E V)
  | located (b : Bool)

section Machines

variable {E V : Type}

abbrev Action.Res : Action E V → Type
  | now => ℚ
  | state => Option (Indexed E V)
  | builtAt => Option ℚ
  | acquire | release | setState _ | setBuiltAt _ => Unit
  | make => Option E
  | fit _ _ => Option E
  | embed _ _ => Option V
  | locate => Option Unit

def Process.exec : (s : Action E V) → Process E V → Option (s.Res × Process E V)
  | .now, w => some (w.clock, w)
  | .state, w => some (w.state, w)
  | .builtAt, w => some (w.builtAt, w)
  | .acquire, w => if w.locked then none else some ((), { w with locked := true })
  | .release, w => some ((), { w with locked := false })
  | .setState x, w => some ((), { w with state := x })
  | .setBuiltAt t, w => some ((), { w with builtAt := t })
  | .make, w => some (w.embeddings.make, w)
  | .fit e texts, w => some (w.embeddings.fit e texts, w)
  | .embed e text, w => some (w.embeddings.embed e text, w)
  | .locate, w => some (if w.located then some () else none, w)

def Process.move : Outside E V → Process E V → Process E V
  | .elapse d, w => { w with clock := w.clock + d }
  | .embeddings p, w => { w with embeddings := p }
  | .located b, w => { w with located := b }

abbrev process (E V : Type) : Machine where
  World := Process E V
  Stmt := Action E V
  Res := Action.Res
  Env := Outside E V
  exec := Process.exec
  env := Process.move

/-- The process and the corpus directory. -/
abbrev service (B E V : Type) : Machine := (corpusDir B).beside (process E V)

end Machines

/-- A statement of the process. -/
def act {B E V : Type} (s : Action E V) : Prog (service B E V) s.Res :=
  issue (M := service B E V) (.inr s)

/-! ## Searching -/

/-- `_INDEX_TTL_SECONDS` -/
def indexTtlSeconds : ℚ := 900

/-- What a search is configured with. -/
structure Policy (B V : Type) where
  loader : Loader B
  cosine : V → V → ℚ
  /-- `policy_retrieval_min_score()` -/
  minScore : Option ℚ
  /-- `_HARNESS_IMPORT_ERROR is None` -/
  imported : Bool

/-- The abstention reasons. -/
inductive Abstention
  | thresholdUnset
  | corpusUnavailable
  | emptyQuery
  | belowThreshold
  | harnessUnavailable
  deriving DecidableEq

/-- `PolicyAnswer`; a hit has no reason. -/
structure PolicyAnswer where
  isHit : Bool
  score : ℚ
  chunkId : Text
  text : Text
  reason : Option Abstention
  deriving DecidableEq

/-- `abstain` -/
def abstain (reason : Abstention) (score : ℚ) : PolicyAnswer := ⟨false, score, [], [], some reason⟩

/-- What leaves a search as an exception. -/
inductive PolicyError
  /-- the corpus could not be found, looked at or read -/
  | osError
  /-- `now - None` -/
  | typeError
  /-- `texts[chunk_id]` -/
  | keyError
  deriving DecidableEq

namespace Policy

variable {B E V : Type} (R : Policy B V)

/-- `index.add(chunk.chunk_id, embedder.embed(chunk.text))` for every chunk. -/
def embedChunks (e : E) : List Chunk → Prog (service B E V) (Option (List (Text × V)))
  | [] => pure (some [])
  | chunk :: chunks => do
    match ← act (.embed e chunk.text) with
    | none => pure none
    | some v => do
      let rest ← embedChunks e chunks
      pure (rest.map fun entries => (chunk.chunkId, v) :: entries)

/-- `{c.chunk_id: c.text for c in chunks}`, the ids being distinct. -/
def textsOf (chunks : List Chunk) : List (Text × Text) := chunks.map fun c => (c.chunkId, c.text)

/-- `_build_index` behind the corpus. -/
def indexChunks (chunks : List Chunk) : Prog (service B E V) (Option (Indexed E V)) := do
  if chunks = [] then pure none
  else if ¬(chunks.map Chunk.chunkId).Nodup then pure none
  else do
    match ← act .make with
    | none => pure none
    | some e => do
      match ← act (.fit e (chunks.map Chunk.text)) with
      | none => pure none
      | some e => do
        let entries ← embedChunks e chunks
        pure (entries.map fun entries => ⟨entries, e, textsOf chunks⟩)

/-- `_build_index` behind `corpus_dir()`; its last log line looks that up again. -/
def indexCorpus : Prog (service B E V) (Except Unreadable (Option (Indexed E V))) := do
  match ← R.loader.loadCorpus.left with
  | .error e => pure (.error e)
  | .ok chunks => do
    match ← indexChunks chunks with
    | none => pure (.ok none)
    | some built => do
      match ← act .locate with
      | none => pure (.error .osError)
      | some _ => pure (.ok (some built))

/-- `_build_index` -/
def buildIndex : Prog (service B E V) (Except Unreadable (Option (Indexed E V))) := do
  match ← act .locate with
  | none => pure (.error .osError)
  | some _ => R.indexCorpus

/-- The end of the locked part: the index is read once more. -/
def leave : Prog (service B E V) (Except PolicyError (Option (Indexed E V))) := do
  let state ← act .state
  let _ ← act .release
  pure (.ok state)

/-- The locked part where the index is built. -/
def refresh (now : ℚ) : Prog (service B E V) (Except PolicyError (Option (Indexed E V))) := do
  match ← R.buildIndex with
  | .error _ => do
    let _ ← act .release
    pure (.error .osError)
  | .ok built => do
    let _ ← act (.setState built)
    let _ ← act (.setBuiltAt (some now))
    leave

/-- `_index` from the lock on. -/
def locked (now : ℚ) : Prog (service B E V) (Except PolicyError (Option (Indexed E V))) := do
  let _ ← act .acquire
  match ← act .state with
  | none => R.refresh now
  | some _ =>
    match ← act .builtAt with
    | none => do
      let _ ← act .release
      pure (.error .typeError)
    | some builtAt => if indexTtlSeconds < now - builtAt then R.refresh now else leave

/-- `_index` -/
def index : Prog (service B E V) (Except PolicyError (Option (Indexed E V))) := do
  let now ← act .now
  match ← act .state with
  | none => R.locked now
  | some _ =>
    match ← act .builtAt with
    | none => pure (.error .typeError)
    | some builtAt =>
      if now - builtAt ≤ indexTtlSeconds then do
        let state ← act .state
        pure (.ok state)
      else R.locked now

/-- The answer to a query's vector. -/
def answer (threshold : ℚ) (state : Indexed E V) (vector : V) : Except PolicyError PolicyAnswer :=
  match Rag.search R.cosine state.entries 1 vector with
  | [] => .ok (abstain .corpusUnavailable 0)
  | (chunkId, score) :: _ =>
    if score < threshold then .ok (abstain .belowThreshold score)
    else
      match state.texts.lookup chunkId with
      | none => .error .keyError
      | some text => .ok ⟨true, score, chunkId, text, none⟩

/-- `search`; `none` is a query that is no string. -/
def search (query : Option Text) : Prog (service B E V) (Except PolicyError PolicyAnswer) :=
  match R.minScore, query.getD [] with
  | none, _ => pure (.ok (abstain .thresholdUnset 0))
  | some threshold, query =>
    if strip query = [] then pure (.ok (abstain .emptyQuery 0))
    else if !R.imported then pure (.ok (abstain .harnessUnavailable 0))
    else do
      match ← R.index with
      | .error e => pure (.error e)
      | .ok none => do
        match ← act .locate with
        | none => pure (.error .osError)
        | some _ => pure (.ok (abstain .corpusUnavailable 0))
      | .ok (some state) =>
        match ← act (.embed state.embedder query) with
        | none => pure (.ok (abstain .corpusUnavailable 0))
        | some vector => pure (R.answer threshold state vector)

/-- `reset_index_cache` -/
def resetIndexCache : Prog (service B E V) Unit := do
  let _ ← act .acquire
  let _ ← act (.setState none)
  let _ ← act (.setBuiltAt none)
  let _ ← act .release
  pure ()

/-- What a caller of the module asks for. -/
inductive Call
  | search (query : Option Text)
  | reset

/-- What it gets: nothing from a reset. -/
def prog : Call → Prog (service B E V) (Option (Except PolicyError PolicyAnswer))
  | .search query => do
    let answer ← R.search query
    pure (some answer)
  | .reset => do
    let _ ← resetIndexCache
    pure none

/-- A process that has not built an index. -/
def start {ι : Type} (calls : ι → Call) (corpus : Directory B) (clock : ℚ) (embeddings : Embeddings E V) :
    Config (service B E V) ι (Option (Except PolicyError PolicyAnswer)) :=
  ⟨(corpus, ⟨clock, false, none, none, embeddings, true⟩), fun i => R.prog (calls i)⟩

end Policy

end Meridian.Rag
