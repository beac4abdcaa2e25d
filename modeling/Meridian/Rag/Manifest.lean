import Meridian.Interleave.Run
import Meridian.Python.Sorted
import Meridian.Rag.Chunker

/-!
# Loading the corpus

`_load_corpus` of the policy retrieval, behind `corpus_dir()`. Without a manifest it walks the
directory flat and goes by the names. With one, a file of the corpus is opened up to five times: by
the audit, by the digest check before the walk, and in the walk by the digest check, the hygiene scan
and the chunker. Each access is one statement of a `Machine` whose world is the corpus directory. The
environment writes and removes files between any two, and makes any of them raise.

* `loadListed_obeys`: a file is chunked right after its digest and its scan passed, in this order.
* `approved_chunks`: where no file changes between the walk's digest check of it and its chunking,
  every chunk is of approved bytes, in every interleaving; `swapped_before_chunking` is a run in
  which one does.

A listing of the directory is one statement; what is proved holds for any answer to it. The bodies
of `scan_text` and of `scan_file` after its read are parameters of a `Loader`. Out of scope: the log
lines, and the count of listed files the walk cannot index.
-/

namespace Meridian.Rag

open Python Interleave Prog

/-! ## The manifest -/

/-- `t.partition(sep)`, where `sep` occurs. -/
def partition (sep : Text) : Text → Option (Text × Text)
  | [] => none
  | c :: t =>
    match sep.isPrefixOf? (c :: t) with
    | some rest => some ([], rest)
    | none => (partition sep t).map fun r => (c :: r.1, r.2)

/-- `_MANIFEST_DIGEST` -/
def isDigest (t : Text) : Bool :=
  t.length = 64 && t.all fun c => ('0' ≤ c && c ≤ '9') || ('a' ≤ c && c ≤ 'f')

/-- A manifest: the digest of each file it lists. -/
abbrev Manifest := List (Text × Text)

/-- `entries[name] = digest` -/
def Manifest.set (m : Manifest) (name digest : Text) : Manifest :=
  if (m.lookup name).isSome then m.map fun e => if e.1 = name then (name, digest) else e
  else m ++ [(name, digest)]

/-- The name and the digest of a line. -/
def manifestLine (line : Text) : Option (Text × Text) :=
  match (partition "  ".toList line).or (partition " *".toList line) with
  | none => none
  | some (digest, name) =>
    if strip name = [] || !isDigest digest then none else some (strip name, digest)

/-- `load_corpus_manifest` from a line on, or the number of the first line that is malformed. -/
def loadLines : ℕ → Manifest → List Text → Except ℕ Manifest
  | _, entries, [] => .ok entries
  | lineno, entries, raw :: lines =>
    if strip raw = [] then loadLines (lineno + 1) entries lines
    else
      match manifestLine (strip raw) with
      | none => .error lineno
      | some (name, digest) => loadLines (lineno + 1) (entries.set name digest) lines

/-- `load_corpus_manifest` -/
def loadCorpusManifest (text : Text) : Except ℕ Manifest := loadLines 1 [] (splitlines text)

/-- `_MANIFEST_SUBTREE_PREFIX` -/
def subtreePrefix : Text := "policies/".toList

/-- The entries of the policy subtree, by their names in it. -/
def Manifest.prefixed (m : Manifest) : Manifest :=
  m.filterMap fun e => (subtreePrefix.isPrefixOf? e.1).map fun name => (name, e.2)

/-- What a manifest lists of the corpus. -/
def Manifest.relative (m : Manifest) : Manifest := if m.prefixed = [] then m else m.prefixed

/-! ## The corpus directory -/

/-- Which function reads a file. -/
inductive Stage
  | audit
  | recheck
  | digest
  | scan
  | chunk
  deriving DecidableEq

inductive Access
  | isFile (name : Text)
  | isDir
  /-- `rglob("*")`, the files -/
  | list
  /-- `rglob("*.md")` -/
  | walk
  /-- `glob("*.md")` -/
  | flatWalk
  | read (stage : Stage) (name : Text)
  deriving DecidableEq

structure Directory (B : Type) where
  isDir : Bool
  files : List (Text × B)
  /-- what raises an `OSError` -/
  failing : Access → Bool

/-- A move of what else writes to the mount, or of the mount itself. -/
inductive Change (B : Type)
  | write (name : Text) (b : B)
  | remove (name : Text)
  | mount (isDir : Bool)
  | fail (failing : Access → Bool)

section Directories

variable {B : Type}

def Directory.bytes (d : Directory B) (name : Text) : Option B := d.files.lookup name

def Directory.apply (d : Directory B) : Change B → Directory B
  | .write name b => { d with files := (name, b) :: d.files.filter fun f => f.1 ≠ name }
  | .remove name => { d with files := d.files.filter fun f => f.1 ≠ name }
  | .mount isDir => { d with isDir }
  | .fail failing => { d with failing }

/-- What an access gives; `none` is an `OSError`. -/
def Directory.answer {α : Type} (d : Directory B) (s : Access) (a : Option α) : Option α :=
  if d.failing s then none else a

/-- `name.endswith(".md")` -/
def isMarkdown (name : Text) : Bool := ".md".toList.isSuffixOf name

/-- The corpus directory, with its accesses. -/
abbrev corpusDir (B : Type) : Machine where
  World := Directory B
  Stmt := Access
  Res
    | .isFile _ | .isDir => Option Bool
    | .list | .walk | .flatWalk => Option (List Text)
    | .read _ _ => Option B
  Env := Change B
  exec s d :=
    match s with
    | .isFile name => some (d.answer (.isFile name) (some (d.bytes name).isSome), d)
    | .isDir => some (d.answer .isDir (some d.isDir), d)
    | .list => some (d.answer .list (some (d.files.map Prod.fst)), d)
    | .walk => some (d.answer .walk (some ((d.files.map Prod.fst).filter isMarkdown)), d)
    | .flatWalk => some (d.answer .flatWalk
        (some ((d.files.map Prod.fst).filter fun name => isMarkdown name && '/' ∉ name)), d)
    | .read stage name => some (d.answer (.read stage name) (d.bytes name), d)
  env e d := d.apply e

end Directories

/-! ## Reading it -/

/-- What the loader goes by: the manifest file, and what the checks that are not modelled say. -/
structure Loader (B : Type) where
  /-- `POLICY_CORPUS_MANIFEST` is set -/
  configured : Bool
  /-- the text of the file it names, none where it cannot be read -/
  manifestText : Option Text
  sha256 : B → Text
  /-- as UTF-8 -/
  decode : B → Option Text
  /-- `str.lower` -/
  lower : Text → Text
  /-- `scan_text` has a finding -/
  scanText : Text → Bool
  /-- the rest of `scan_file`, by the suffix of the name: no finding -/
  scanBytes : Text → B → Bool

/-- The parts of a path. -/
def parts (name : Text) : List Text := name.splitOn '/'

/-- `path.name` -/
def baseName (name : Text) : Text := (parts name).getLastD []

inductive Problem
  | nothingListed
  | noDirectory
  | missing (name : Text)
  | unlisted (position : ℕ)
  | otherDigest (name : Text)
  deriving DecidableEq

/-- `path.stem` -/
def stem (name : Text) : Text :=
  let base := baseName name
  let dot := base.length - (base.reverse.takeWhile (· ≠ '.')).length - 1
  if '.' ∈ base ∧ 0 < dot ∧ dot < base.length - 1 then base.take dot else base

/-- `[a-z0-9]` -/
def isSlugChar (c : Char) : Bool := ('a' ≤ c && c ≤ 'z') || ('0' ≤ c && c ≤ '9')

/-- `_SAFE_FILENAME.fullmatch(part)`: a slug, behind a dot or not. -/
def isSafeFilename (part : Text) : Bool :=
  match if part.head? = some '.' then part.tail else part with
  | [] => false
  | c :: t => isSlugChar c && t.all fun c => isSlugChar c || c ∈ ['.', '_', '-']

/-- `unsafe_corpus_path_reason` -/
inductive Unsafe
  | pii
  | notInManifest
  | digestMismatch
  | nonSlug
  deriving DecidableEq

/-- An `OSError` that is not caught. -/
inductive Unreadable
  | osError
  deriving DecidableEq

namespace Loader

variable {B : Type} (D : Loader B)

def isFile (name : Text) : Prog (corpusDir B) (Option Bool) := @issue (corpusDir B) (.isFile name)

def isDir : Prog (corpusDir B) (Option Bool) := @issue (corpusDir B) .isDir

def list : Prog (corpusDir B) (Option (List Text)) := @issue (corpusDir B) .list

def walk : Prog (corpusDir B) (Option (List Text)) := @issue (corpusDir B) .walk

def flatWalk : Prog (corpusDir B) (Option (List Text)) := @issue (corpusDir B) .flatWalk

def readBytes (stage : Stage) (name : Text) : Prog (corpusDir B) (Option B) :=
  @issue (corpusDir B) (.read stage name)

/-- The digests the audit compares. -/
def auditDigests (manifest : Manifest) :
    List Text → Prog (corpusDir B) (Except Unreadable (List Problem))
  | [] => pure (.ok [])
  | name :: names => do
    match ← readBytes .audit name with
    | none => pure (.error .osError)
    | some b => do
      let rest ← auditDigests manifest names
      pure (rest.map fun problems =>
        if manifest.lookup name = some (D.sha256 b) then problems
        else .otherDigest name :: problems)

/-- `audit_corpus_against_manifest` -/
def audit (manifest : Manifest) : Prog (corpusDir B) (Except Unreadable (List Problem)) := do
  if manifest = [] then pure (.ok [.nothingListed])
  else do
    match ← isDir with
    | none => pure (.error .osError)
    | some false => pure (.ok [.noDirectory])
    | some true => do
      match ← list with
      | none => pure (.error .osError)
      | some onDisk => do
        let listed := sortBy (fun t => t) (manifest.map Prod.fst)
        let missing := listed.filter fun name => name ∉ onDisk
        let unlisted := onDisk.filter fun name => name ∉ listed
        let other ← D.auditDigests manifest (listed.filter fun name => name ∈ onDisk)
        pure (other.map fun other => missing.map .missing ++
          (List.range unlisted.length).map (fun i => .unlisted (i + 1)) ++ other)

/-- The names without a subtree that are files of the corpus; none where one cannot be looked at. -/
def ambiguous : List Text → Prog (corpusDir B) (Option (List Text))
  | [] => pure (some [])
  | name :: names =>
    if '/' ∈ name then ambiguous names
    else do
      match ← isFile name with
      | none => pure none
      | some here => do
        let rest ← ambiguous names
        pure (rest.map fun rest => if here then name :: rest else rest)

/-- `_corpus_relative_manifest`; none where it raises a `ValueError` or an `OSError`. -/
def corpusRelativeManifest (manifest : Manifest) : Prog (corpusDir B) (Option Manifest) := do
  if manifest.prefixed = [] then pure (some manifest)
  else do
    let ambiguous ← ambiguous (manifest.map Prod.fst)
    pure (if ambiguous = some [] then some manifest.prefixed else none)

/-- `unsafe_corpus_path_reason` -/
def unsafeReason (manifest : Option Manifest) (stage : Stage) (name : Text) :
    Prog (corpusDir B) (Option Unsafe) := do
  if D.scanText name then pure (some .pii)
  else
    match manifest with
    | none => pure (if (parts name).all isSafeFilename then none else some .nonSlug)
    | some manifest =>
      match manifest.lookup name with
      | none => pure (some .notInManifest)
      | some listed => do
        let b ← readBytes stage name
        pure (if b.map D.sha256 = some listed then none else some .digestMismatch)

/-- The entries that are not approved on their content. -/
def recheck (manifest : Manifest) : List Text → Prog (corpusDir B) (List Unsafe)
  | [] => pure []
  | name :: names => do
    let reason ← D.unsafeReason (some manifest) .recheck name
    let rest ← recheck manifest names
    pure (reason.toList ++ rest)

/-- `scan_file` of what was read. -/
def scanRead (name : Text) (b : Option B) : Bool :=
  !D.scanText (baseName name) && b.any fun b => D.scanBytes (baseName name) b

/-- `scan_file`: whether the file passes. -/
def scanFile (name : Text) : Prog (corpusDir B) Bool := do
  if D.scanText (baseName name) then pure false
  else do
    let b ← readBytes .scan name
    pure (D.scanRead name b)

/-- `corpus_doc_id` of a file that is not refused. -/
def docId (manifest : Option Manifest) (name : Text) : Text :=
  match manifest with
  | none => D.lower (stem name)
  | some manifest => "doc-".toList ++ ((manifest.lookup name).getD []).take 12

/-- The chunks of what was read of a file; a file that cannot be chunked is skipped. -/
def chunksOf (manifest : Option Manifest) (name : Text) (b : Option B) : List Chunk :=
  match b.bind D.decode with
  | none => []
  | some text =>
    match chunkMarkdown D.lower (D.docId manifest name) text with
    | .error _ => []
    | .ok chunks => chunks

/-- One file of the walk. -/
def indexFile (manifest : Option Manifest) (name : Text) : Prog (corpusDir B) (List Chunk) := do
  let reason ← D.unsafeReason manifest .digest name
  if reason.isSome then pure []
  else do
    let passed ← D.scanFile name
    if !passed then pure []
    else do
      let b ← readBytes .chunk name
      pure (D.chunksOf manifest name b)

/-- The walk. -/
def index (manifest : Option Manifest) : List Text → Prog (corpusDir B) (List Chunk)
  | [] => pure []
  | name :: names => do
    let chunks ← D.indexFile manifest name
    let rest ← index manifest names
    pure (chunks ++ rest)

/-- `_load_corpus` with a manifest. -/
def loadListed : Prog (corpusDir B) (Except Unreadable (List Chunk)) := do
  match D.manifestText.map loadCorpusManifest with
  | some (.ok declared) => do
    match ← corpusRelativeManifest declared with
    | none => pure (.ok [])
    | some manifest => do
      match ← D.audit manifest with
      | .error e => pure (.error e)
      | .ok problems =>
        if problems ≠ [] then pure (.ok [])
        else do
          let unapproved ← D.recheck manifest (manifest.map Prod.fst)
          if unapproved ≠ [] then pure (.ok [])
          else do
            match ← walk with
            | none => pure (.error .osError)
            | some names => do
              let chunks ← D.index (some manifest) (sortBy parts names)
              pure (.ok chunks)
  | _ => pure (.ok [])

/-- `_load_corpus` without one. -/
def loadFlat : Prog (corpusDir B) (Except Unreadable (List Chunk)) := do
  match ← flatWalk with
  | none => pure (.error .osError)
  | some names => do
    let chunks ← D.index none (sortBy parts names)
    pure (.ok chunks)

/-- `_load_corpus` -/
def loadCorpus : Prog (corpusDir B) (Except Unreadable (List Chunk)) :=
  if D.configured then D.loadListed else D.loadFlat

/-! ## What one call obeys -/

/-- What the manifest file lists of the corpus. -/
def listed : Manifest :=
  match D.manifestText.map loadCorpusManifest with
  | some (.ok declared) => declared.relative
  | _ => []

/-- The bytes have the digest that is listed for the name, and the scan passes them. -/
structure Approved (name : Text) (b : B) : Prop where
  digest : D.listed.lookup name = some (D.sha256 b)
  passed : D.scanRead name (some b) = true

/-- The chunk was cut from approved bytes. -/
def ApprovedChunk (c : Chunk) : Prop :=
  ∃ name b, D.Approved name b ∧ c ∈ D.chunksOf (some D.listed) name (some b)

/-- A file is chunked right after its digest and its scan passed. -/
def Checked (l : Log (corpusDir B)) (s : Access) : Prop :=
  ∀ name, s = .read .chunk name → ∃ b r l', l = ⟨.read .scan name, r⟩ ::
    ⟨.read .digest name, some b⟩ :: l' ∧ D.listed.lookup name = some (D.sha256 b) ∧
      D.scanRead name r = true

/-- A chunk that is returned was cut from what one of these reads answered. -/
def CutIn (l : Log (corpusDir B)) (c : Chunk) : Prop :=
  ∃ name r l', (⟨.read .chunk name, r⟩ :: l') <:+ l ∧ c ∈ D.chunksOf (some D.listed) name r

variable {D} {l : Log (corpusDir B)}

theorem CutIn.mono {l' : Log (corpusDir B)} {c : Chunk} (h : D.CutIn l c) (hl : l <:+ l') :
    D.CutIn l' c := by
  obtain ⟨name, r, l₀, hs, hc⟩ := h
  exact ⟨name, r, l₀, hs.trans hl, hc⟩

/-- A read that is not the chunker's. -/
theorem checked_of_ne {s : Access} (h : ∀ name, s ≠ .read .chunk name) : D.Checked l s :=
  fun name hs => absurd hs (h name)

theorem ambiguous_obeys (names : List Text) :
    Obeys D.Checked (fun _ _ => True) l (ambiguous names) := by
  induction names generalizing l with
  | nil => trivial
  | cons name names ih =>
    unfold ambiguous
    split
    · exact ih
    · refine ⟨checked_of_ne nofun, fun here => ?_⟩
      cases here with
      | none => trivial
      | some here =>
        exact (obeys_bind (ambiguous names) _).mpr (ih.mono (fun _ _ h => h) fun _ _ _ => trivial)

theorem corpusRelativeManifest_obeys (declared : Manifest) :
    Obeys D.Checked (fun _ m => ∀ manifest, m = some manifest → manifest = declared.relative) l
      (corpusRelativeManifest declared) := by
  unfold corpusRelativeManifest Manifest.relative
  split
  · intro manifest h
    exact (Option.some.inj h).symm
  · refine (obeys_bind _ _).mpr ((ambiguous_obeys _).mono (fun _ _ h => h) fun _ names _ => ?_)
    intro manifest h
    split at h
    · exact (Option.some.inj h).symm
    · cases h

theorem auditDigests_obeys (manifest : Manifest) (names : List Text) :
    Obeys D.Checked (fun _ _ => True) l (D.auditDigests manifest names) := by
  induction names generalizing l with
  | nil => trivial
  | cons name names ih =>
    refine ⟨checked_of_ne nofun, fun b => ?_⟩
    cases b with
    | none => trivial
    | some b =>
      exact (obeys_bind (D.auditDigests manifest names) _).mpr
        (ih.mono (fun _ _ h => h) fun _ _ _ => trivial)

theorem audit_obeys (manifest : Manifest) :
    Obeys D.Checked (fun _ _ => True) l (D.audit manifest) := by
  unfold audit
  split
  · trivial
  · refine ⟨checked_of_ne nofun, fun isDir => ?_⟩
    rcases isDir with _ | _ | _
    · trivial
    · trivial
    · refine ⟨checked_of_ne nofun, fun onDisk => ?_⟩
      cases onDisk with
      | none => trivial
      | some onDisk =>
        exact (obeys_bind (D.auditDigests manifest _) _).mpr
          ((auditDigests_obeys manifest _).mono (fun _ _ h => h) fun _ _ _ => trivial)

/-- **The digest check**: where it finds nothing, its last statement read what is listed. -/
theorem unsafeReason_obeys (stage : Stage) (hstage : stage ≠ .chunk) (name : Text) :
    Obeys D.Checked (fun l' reason => l <:+ l' ∧ (reason = none → ∃ b, l' =
      ⟨.read stage name, some b⟩ :: l ∧ D.listed.lookup name = some (D.sha256 b))) l
      (D.unsafeReason (some D.listed) stage name) := by
  unfold unsafeReason
  split
  · exact ⟨List.suffix_rfl, nofun⟩
  · dsimp only
    split
    · exact ⟨List.suffix_rfl, nofun⟩
    · rename_i listed hlisted
      refine ⟨checked_of_ne ?_, fun b => ⟨List.suffix_cons .., fun h => ?_⟩⟩
      · rintro other hread
        cases hread
        exact hstage rfl
      · split at h
        · rename_i hdigest
          obtain ⟨b, rfl, rfl⟩ := Option.map_eq_some_iff.mp hdigest
          exact ⟨b, rfl, hlisted⟩
        · exact nomatch h

theorem recheck_obeys (names : List Text) :
    Obeys D.Checked (fun _ _ => True) l (D.recheck D.listed names) := by
  induction names generalizing l with
  | nil => trivial
  | cons name names ih =>
    refine (obeys_bind (D.unsafeReason (some D.listed) .recheck name) _).mpr
      ((unsafeReason_obeys .recheck nofun name).mono (fun _ _ h => h) fun _ _ _ => ?_)
    exact (obeys_bind (D.recheck D.listed names) _).mpr
      (ih.mono (fun _ _ h => h) fun _ _ _ => trivial)

/-- **The scan**: where it passes, its only statement read what passes. -/
theorem scanFile_obeys (name : Text) :
    Obeys D.Checked (fun l' passed => l <:+ l' ∧ (passed = true → ∃ r, l' =
      ⟨.read .scan name, r⟩ :: l ∧ D.scanRead name r = true)) l (D.scanFile name) := by
  unfold scanFile
  split
  · exact ⟨List.suffix_rfl, nofun⟩
  · exact ⟨checked_of_ne nofun, fun r => ⟨List.suffix_cons .., fun h => ⟨r, rfl, h⟩⟩⟩

/-- **One file** is chunked after its checks, and gives the chunks of what was read then. -/
theorem indexFile_obeys (name : Text) :
    Obeys D.Checked (fun l' chunks => l <:+ l' ∧ ∀ c ∈ chunks, D.CutIn l' c) l
      (D.indexFile (some D.listed) name) := by
  unfold indexFile
  refine (obeys_bind (D.unsafeReason (some D.listed) .digest name) _).mpr
    ((unsafeReason_obeys .digest nofun name).mono (fun _ _ h => h) fun l₁ reason h₁ => ?_)
  obtain ⟨hl₁, hdigest⟩ := h₁
  cases reason with
  | some reason => exact ⟨hl₁, nofun⟩
  | none =>
    obtain ⟨b, rfl, hlisted⟩ := hdigest rfl
    refine (obeys_bind (D.scanFile name) _).mpr
      ((scanFile_obeys name).mono (fun _ _ h => h) fun l₂ passed h₂ => ?_)
    obtain ⟨hl₂, hscan⟩ := h₂
    cases passed with
    | false => exact ⟨hl₁.trans hl₂, nofun⟩
    | true =>
      obtain ⟨r, rfl, hpass⟩ := hscan rfl
      refine ⟨?_, fun read => ⟨(hl₁.trans hl₂).trans (List.suffix_cons ..), fun c hc => ?_⟩⟩
      · rintro other hread
        cases hread
        exact ⟨b, r, l, rfl, hlisted, hpass⟩
      · exact ⟨name, read, _, List.suffix_rfl, hc⟩

/-- The walk. -/
theorem index_obeys (names : List Text) :
    Obeys D.Checked (fun l' chunks => l <:+ l' ∧ ∀ c ∈ chunks, D.CutIn l' c) l
      (D.index (some D.listed) names) := by
  induction names generalizing l with
  | nil => exact ⟨List.suffix_rfl, nofun⟩
  | cons name names ih =>
    refine (obeys_bind (D.indexFile (some D.listed) name) _).mpr
      ((indexFile_obeys name).mono (fun _ _ h => h) fun l₁ chunks h₁ => ?_)
    refine (obeys_bind (D.index (some D.listed) names) _).mpr
      (ih.mono (fun _ _ h => h) fun l₂ rest h₂ => ⟨h₁.1.trans h₂.1, fun c hc => ?_⟩)
    rcases List.mem_append.mp hc with hc | hc
    · exact (h₁.2 c hc).mono h₂.1
    · exact h₂.2 c hc

/-- **What a call obeys**, whatever the directory answers. -/
theorem loadListed_obeys (D : Loader B) :
    Obeys D.Checked (fun l res => ∀ chunks, res = .ok chunks → ∀ c ∈ chunks, D.CutIn l c) []
      D.loadListed := by
  have hnothing : ∀ (l : Log (corpusDir B)) chunks, Except.ok (ε := Unreadable) [] = .ok chunks →
      ∀ c ∈ chunks, D.CutIn l c := by
    intro l chunks h
    cases h
    exact nofun
  unfold loadListed
  split
  · rename_i declared hdeclared
    refine (obeys_bind (corpusRelativeManifest declared) _).mpr
      ((corpusRelativeManifest_obeys declared).mono (fun _ _ h => h) fun l₁ m h₁ => ?_)
    cases m with
    | none => exact hnothing l₁
    | some manifest =>
      have hmanifest : manifest = D.listed := by
        rw [h₁ manifest rfl, listed, hdeclared]
      subst hmanifest
      refine (obeys_bind (D.audit D.listed) _).mpr
        ((audit_obeys D.listed).mono (fun _ _ h => h) fun l₂ problems _ => ?_)
      cases problems with
      | error e => exact nofun
      | ok problems =>
        dsimp only
        split
        · exact hnothing l₂
        · refine (obeys_bind (D.recheck D.listed _) _).mpr
            ((recheck_obeys _).mono (fun _ _ h => h) fun l₃ unapproved _ => ?_)
          split
          · exact hnothing l₃
          · refine ⟨checked_of_ne nofun, fun names => ?_⟩
            cases names with
            | none => exact nofun
            | some names =>
              refine (obeys_bind (D.index (some D.listed) _) _).mpr
                ((index_obeys _).mono (fun _ _ h => h) fun l₄ chunks h₄ => ?_)
              intro returned hreturned
              cases hreturned
              exact h₄.2
  · exact hnothing []

theorem loadCorpus_obeys (hconfigured : D.configured = true) :
    Obeys D.Checked (fun l res => ∀ chunks, res = .ok chunks → ∀ c ∈ chunks, D.CutIn l c) []
      D.loadCorpus := by
  rw [loadCorpus, if_pos hconfigured]
  exact D.loadListed_obeys

/-! ## Any interleaving -/

section Runs

variable {ι : Type} [DecidableEq ι]

/-- A call's last statement read bytes of a file that passed the digest check of the walk, or the
scan after it. -/
def Pending (D : Loader B) (tr : List (Entry (corpusDir B) ι)) (i : ι) (name : Text)
    (r : Option B) : Prop :=
  (∃ l, own i tr = ⟨.read .digest name, r⟩ :: l ∧
      ∃ b, r = some b ∧ D.listed.lookup name = some (D.sha256 b)) ∨
    ∃ l, own i tr = ⟨.read .scan name, r⟩ :: l ∧ D.scanRead name r = true

/-- A step changes no file that a call has checked and not yet chunked. -/
def Undisturbed (D : Loader B) (tr : List (Entry (corpusDir B) ι)) (e : Entry (corpusDir B) ι) :
    Prop :=
  ∀ i name r, D.Pending tr i name r → e.post.bytes name = e.pre.bytes name

variable {tr tr' : List (Entry (corpusDir B) ι)} {w₀ : Directory B}
  {c : Config (corpusDir B) ι (Except Unreadable (List Chunk))}

/-- No statement of a call changes the directory. -/
theorem exec_post {s : Access} {r : (corpusDir B).Res s} {w w' : Directory B}
    (h : (corpusDir B).exec s w = some (r, w')) : w' = w := by
  cases s <;> cases h <;> rfl

/-- A read that does not raise answers what is there. -/
theorem read_answer {stage : Stage} {name : Text} {b : B} {w w' : Directory B}
    (h : (corpusDir B).exec (.read stage name) w = some (some b, w')) :
    w.bytes name = some b := by
  have hanswer : w.answer (.read stage name) (w.bytes name) = some b :=
    (Prod.mk.inj (Option.some.inj h)).1
  unfold Directory.answer at hanswer
  split at hanswer
  · cases hanswer
  · exact hanswer

theorem Pending.isSome {i : ι} {name : Text} {r : Option B} (h : D.Pending tr i name r) :
    ∃ b, r = some b := by
  rcases h with ⟨l, -, b, rfl, -⟩ | ⟨l, -, hpass⟩
  · exact ⟨b, rfl⟩
  · cases r with
    | none => simp [scanRead] at hpass
    | some b => exact ⟨b, rfl⟩

/-- **What a call has checked is still there** in a run that disturbs nothing. -/
theorem pending_bytes (hconfigured : D.configured = true)
    (h : Run ⟨w₀, fun _ => D.loadCorpus⟩ tr c) (hC : Along D.Undisturbed tr)
    {i : ι} {name : Text} {r : Option B} (hp : D.Pending tr i name r) :
    c.world.bytes name = r := by
  have hinv := Run.invariant (C := D.Undisturbed)
    (I := fun tr w => ∀ i name r, D.Pending tr i name r → w.bytes name = r)
    (fun _ => loadCorpus_obeys hconfigured) (fun i name r hp => ?_) ?_ ?_ h hC
  · exact hinv i name r hp
  · obtain ⟨l, hl, -⟩ | ⟨l, hl, -⟩ := hp <;> exact nomatch hl
  · intro tr c j s r w _ hI _ hx _ i name r' hp
    obtain rfl := exec_post hx
    by_cases hji : j = i
    · subst hji
      -- the last statement is the one that was just executed
      have hlast : ∀ {stage : Stage} {l : Log (corpusDir B)},
          own j (Entry.call j s r c.world c.world :: tr) = ⟨.read stage name, r'⟩ :: l →
            c.world.bytes name = r' := by
        intro stage l hl
        obtain ⟨b, rfl⟩ := hp.isSome
        rw [own_call_self] at hl
        obtain ⟨hs, -⟩ := List.cons.inj hl
        cases hs
        exact read_answer hx
      obtain ⟨l, hl, -⟩ | ⟨l, hl, -⟩ := hp
      · exact hlast hl
      · exact hlast hl
    · refine hI i name r' ?_
      unfold Pending at hp ⊢
      rwa [own_call_ne hji] at hp
  · intro tr c e _ hI hundisturbed i name r hp
    have hpending : D.Pending tr i name r := hp
    rw [← hI i name r hpending]
    exact hundisturbed i name r hpending

/-- What is cut from a read is cut from what the read answered. -/
theorem chunksOf_some {manifest : Option Manifest} {name : Text} {r : Option B} {chunk : Chunk}
    (h : chunk ∈ D.chunksOf manifest name r) : ∃ b, r = some b := by
  cases r with
  | none => cases h
  | some b => exact ⟨b, rfl⟩

/-- **Only approved bytes are indexed** in a run that changes no file between the walk's check of it
and its chunking: every chunk that is returned was cut from bytes that have the digest listed for
the file and that the scan passes. -/
theorem approved_chunks (D : Loader B) (hconfigured : D.configured = true)
    (h : Run ⟨w₀, fun _ => D.loadCorpus⟩ tr c)
    (hC : Along D.Undisturbed tr) {i : ι} {chunks : List Chunk}
    (hreturn : c.procs i = ret (.ok chunks)) : ∀ chunk ∈ chunks, D.ApprovedChunk chunk := by
  intro chunk hchunk
  have hobeys : ∀ _ : ι, Obeys D.Checked (fun l res => ∀ chunks, res = .ok chunks →
      ∀ c ∈ chunks, D.CutIn l c) [] D.loadCorpus := fun _ => loadCorpus_obeys hconfigured
  obtain ⟨name, r, l, hcut, hmem⟩ := h.returned hobeys hreturn chunks rfl chunk hchunk
  obtain ⟨b', rfl⟩ := chunksOf_some hmem
  obtain ⟨w, w', tr₁, hread, rfl⟩ := exists_of_own hcut
  obtain ⟨b, r₂, l₂, hlog, hdigest, hpass⟩ := h.issued hobeys hread name rfl
  -- the scan before it read the same, and so did the digest check before that
  have hscan : some b' = r₂ := by
    obtain ⟨c₁, c₂, h₁, hstep⟩ := h.entry hread
    have hkept := pending_bytes hconfigured h₁ (hC.suffix ((List.suffix_cons ..).trans hread))
      (.inr ⟨_, hlog, hpass⟩)
    rw [← read_answer (h.exec hread), ← hkept, ← hstep.pre_eq]
    rfl
  subst hscan
  have hsame : b' = b := by
    obtain ⟨w₂, w₂', tr₂, hentry, hlog₂⟩ := exists_of_own_eq hlog
    obtain ⟨c₁, c₂, h₁, hstep⟩ := h.entry (hentry.trans ((List.suffix_cons ..).trans hread))
    have hkept := pending_bytes hconfigured h₁
      (hC.suffix ((List.suffix_cons ..).trans (hentry.trans ((List.suffix_cons ..).trans hread))))
      (.inl ⟨_, hlog₂, b, rfl, hdigest⟩)
    have hpre : w₂.bytes name = c₁.world.bytes name := congrArg (·.bytes name) hstep.pre_eq
    have hanswer := read_answer (h.exec (hentry.trans ((List.suffix_cons ..).trans hread)))
    exact Option.some.inj (hanswer.symm.trans (hpre.trans hkept))
  subst hsame
  exact ⟨name, b', ⟨hdigest, hpass⟩, hmem⟩

/-- The file whose check was the last statement. -/
def checking : Log (corpusDir B) → Option Text
  | ⟨.read .digest name, _⟩ :: _ => some name
  | ⟨.read .scan name, _⟩ :: _ => some name
  | _ => none

theorem Pending.checking {i : ι} {name : Text} {r : Option B} (h : D.Pending tr i name r) :
    checking (own i tr) = some name := by
  rcases h with ⟨l, hl, -⟩ | ⟨l, hl, -⟩ <;> rw [hl] <;> rfl

/-- The steps that change the bytes of no file under check disturb nothing. -/
theorem along_undisturbed (h : ∀ e tr', e :: tr' <:+ tr → ∀ i name,
    checking (own i tr') = some name → e.post.bytes name = e.pre.bytes name) :
    Along D.Undisturbed tr := by
  induction tr with
  | nil => trivial
  | cons e tr ih =>
    refine ⟨fun i name r hp => ?_, ih fun e' tr' hs => h e' tr' (hs.trans (List.suffix_cons e tr))⟩
    exact h e tr List.suffix_rfl i name hp.checking

end Runs

end Loader

/-! ## A swap -/

section Swap

/-- The digest of the approved text. -/
def approvedDigest : Text := List.replicate 64 '0'

/-- A corpus of one text, `old`, whose bytes are their own text. -/
def smallCorpus : Loader Text where
  configured := true
  manifestText := some (approvedDigest ++ "  a.md".toList)
  sha256 b := if b = "old".toList then approvedDigest else 'x' :: b
  decode := some
  lower t := t
  scanText _ := false
  scanBytes _ _ := true

def oldMount : Directory Text := ⟨true, [("a.md".toList, "old".toList)], fun _ => false⟩

theorem smallCorpus_injective : Function.Injective smallCorpus.sha256 := by
  have hdigest : ∀ b : Text, approvedDigest ≠ 'x' :: b := fun b h =>
    absurd (List.cons.inj h).1 (by decide)
  intro a b h
  simp only [smallCorpus] at h
  split_ifs at h with ha hb hb
  · rw [ha, hb]
  · exact absurd h (hdigest b)
  · exact absurd h.symm (hdigest a)
  · exact (List.cons.inj h).2

/-- No step of the trace changes a file under check. -/
def quiet : List (Entry (corpusDir Text) Unit) → Bool
  | [] => true
  | e :: tr => (Loader.checking (own () tr)).all (fun name => e.post.bytes name = e.pre.bytes name) &&
    quiet tr

theorem along_of_quiet {tr : List (Entry (corpusDir Text) Unit)} (h : quiet tr = true) :
    Along smallCorpus.Undisturbed tr := by
  refine Loader.along_undisturbed fun e tr' hs i name hcheck => ?_
  induction tr with
  | nil => cases List.suffix_nil.mp hs
  | cons e₁ tr ih =>
    obtain ⟨hfirst, hrest⟩ := Bool.and_eq_true_iff.mp h
    rcases List.suffix_cons_iff.mp hs with heq | hs
    · obtain ⟨rfl, rfl⟩ := List.cons.inj heq
      rw [show Loader.checking (own () tr') = some name from hcheck] at hfirst
      simpa using hfirst
    · exact ih hrest hs

/-- The file is written before the checks of the walk and after its chunking, and another one between
its digest check and its scan: the approved text is indexed. -/
theorem approved_chunks_alone : ∃ tr c chunks,
    Run ⟨oldMount, fun _ : Unit => smallCorpus.loadCorpus⟩ tr c ∧
      c.procs () = ret (.ok chunks) ∧ chunks ≠ [] ∧ c.world.bytes "a.md".toList = some "new".toList ∧
        ∀ chunk ∈ chunks, smallCorpus.ApprovedChunk chunk := by
  obtain ⟨tr, c, hrun, hquiet, hnew, hres⟩ := exists_run
    [.env (Change.write "a.md".toList "draft".toList),
      .env (Change.write "a.md".toList "old".toList), .call (), .call (), .call (), .call (),
      .call (), .call (), .env (Change.write "b.txt".toList "note".toList), .call (), .call (),
      .env (Change.write "a.md".toList "new".toList)]
    ⟨oldMount, fun _ : Unit => smallCorpus.loadCorpus⟩
    (fun x => quiet x.1 = true ∧ x.2.world.bytes "a.md".toList = some "new".toList ∧
      (x.2.procs ()).result = some (.ok [⟨"doc-000000000000#_intro".toList,
        "doc-000000000000".toList, intro, " — _intro\nold".toList⟩])) (by decide +kernel)
  exact ⟨tr, c, _, hrun, eq_ret_of_result hres, by simp, hnew,
    smallCorpus.approved_chunks rfl hrun (along_of_quiet hquiet) (eq_ret_of_result hres)⟩

/-- **A file that changes after its scan is indexed as it is now**: the chunk that is returned is of
no approved bytes. -/
theorem swapped_before_chunking : Function.Injective smallCorpus.sha256 ∧ ∃ tr c chunks,
    Run ⟨oldMount, fun _ : Unit => smallCorpus.loadCorpus⟩ tr c ∧
      c.procs () = ret (.ok chunks) ∧ ∃ chunk ∈ chunks, ¬smallCorpus.ApprovedChunk chunk := by
  obtain ⟨tr, c, hrun, hres⟩ := exists_run
    [.call (), .call (), .call (), .call (), .call (), .call (), .call (),
      .env (Change.write "a.md".toList "new".toList), .call ()]
    ⟨oldMount, fun _ : Unit => smallCorpus.loadCorpus⟩
    (fun x => (x.2.procs ()).result =
      some (.ok [⟨"doc-000000000000#_intro".toList, "doc-000000000000".toList, intro,
        " — _intro\nnew".toList⟩])) (by decide +kernel)
  refine ⟨smallCorpus_injective, tr, c, _, hrun, eq_ret_of_result hres, _, List.mem_cons_self, ?_⟩
  rintro ⟨name, b, ⟨hdigest, -⟩, hmem⟩
  have hlisted : smallCorpus.listed = [("a.md".toList, approvedDigest)] := by decide +kernel
  rw [hlisted] at hdigest hmem
  by_cases hname : name = "a.md".toList
  · subst hname
    have hold : smallCorpus.sha256 "old".toList = smallCorpus.sha256 b :=
      Option.some.inj hdigest
    obtain rfl := smallCorpus_injective hold
    exact absurd hmem (by decide +kernel)
  · have hbeq : (name == "a.md".toList) = false := beq_false_of_ne hname
    rw [List.lookup_cons, hbeq] at hdigest
    cases hdigest

end Swap

end Meridian.Rag
