import Meridian.Grouping.Adjacent
import Meridian.Python.Lines
import Meridian.Regex.Scanning

/-!
# Chunks of a policy document

`chunk_markdown` of the evaluation harness reads a document line by line. Its state is the title
once it has one, the section it is in, the lines of that section, and whether the line stands in a
fence. `flush` turns the lines of a section into a chunk.

What a document says of its lines is told by their positions: `inFence`, `isTitle`, `isHeading`, and
`sections`, the lines that are neither title nor heading grouped by the headings before them.

* `sections_flatten`: the sections hold each of these lines once and in order.
* `name_of_mem`: the name of a section is the nearest heading before each of its lines.
* `reads_spec`: what the reader holds at a position, or the id that came twice.
* `chunks_sections` puts it together; `indented_line` is a line that does not come back.
-/

namespace Meridian.Rag

open Python

/-! ## The chunker -/

structure Chunk where
  chunkId : Text
  doc : Text
  sectionName : Text
  text : Text
  deriving DecidableEq

/-- The `ValueError` of two sections with one id. -/
structure DuplicateId where
  chunkId : Text
  deriving DecidableEq

/-- The section before the first heading. -/
def intro : Text := "_intro".toList

/-- `[a-z0-9]` -/
def slugChar (c : Char) : Bool := ('a' ≤ c && c ≤ 'z') || ('0' ≤ c && c ≤ '9')

/-- `re.sub(r"[^a-z0-9]+", "-", t)` -/
def dashed (t : Text) : Text :=
  Regex.sub (.rep true 1 none (.one (!slugChar ·))) (fun _ => ['-']) t

/-- `t.strip("-")` -/
def stripDashes (t : Text) : Text :=
  ((t.dropWhile (· = '-')).reverse.dropWhile (· = '-')).reverse

/-- Whether a line opens or closes a fence. -/
def isFence (line : Text) : Bool := startsWith (lstrip line) "```"

structure Builder where
  title : Text
  sectionName : Text
  buf : List Text
  chunks : List Chunk
  seen : List Text
  inCode : Bool

def Builder.start : Builder := ⟨[], intro, [], [], [], false⟩

section Reading

variable (lower : Text → Text) (doc : Text)

/-- `_slug`, `lower` being `str.lower`. -/
def slug (heading : Text) : Text :=
  let s := stripDashes (dashed (lower heading))
  if s = [] then intro else s

/-- The id of a section. -/
def idOf (name : Text) : Text := doc ++ '#' :: if name = intro then intro else slug lower name

/-- `flush` -/
def Builder.flush (b : Builder) : Except DuplicateId Builder :=
  let text := strip (joinLines b.buf)
  if text = [] then .ok { b with buf := [] }
  else
    let chunkId := idOf lower doc b.sectionName
    if b.seen.contains chunkId then .error ⟨chunkId⟩
    else .ok { b with
      seen := b.seen ++ [chunkId]
      chunks := b.chunks ++ [⟨chunkId, doc, b.sectionName, text⟩]
      buf := [] }

/-- One line of the document. -/
def Builder.line (b : Builder) (line : Text) : Except DuplicateId Builder :=
  if isFence line then .ok { b with inCode := !b.inCode, buf := b.buf ++ [line] }
  else if !b.inCode && startsWith line "# " && b.title = [] then
    .ok { b with title := strip (line.drop 2) }
  else if !b.inCode && startsWith line "## " then do
    let b ← b.flush lower doc
    pure { b with sectionName := strip (line.drop 3) }
  else .ok { b with buf := b.buf ++ [line] }

/-- The title and the section in front of a chunk's text. -/
def titled (title : Text) (c : Chunk) : Chunk :=
  { c with text := title ++ " — ".toList ++ c.sectionName ++ '\n' :: c.text }

/-- `chunk_markdown` of the text of a document. -/
def chunkMarkdown (text : Text) : Except DuplicateId (List Chunk) := do
  let b ← (splitlines text).foldlM (fun b line => b.line lower doc line) Builder.start
  let b ← b.flush lower doc
  pure (b.chunks.map (titled b.title))

end Reading

/-! ## What a document says of its lines -/

section Lines

variable (ls : List Text)

/-- The line at a position. -/
def lineAt (k : ℕ) : Text := ls.getD k []

/-- The line stands in a fence that was opened before it. -/
def inFence (k : ℕ) : Bool := (ls.take k).countP isFence % 2 = 1

/-- A line that starts as `s` does, outside every fence. -/
def opensWith (s : String) (k : ℕ) : Bool :=
  !isFence (lineAt ls k) && !inFence ls k && startsWith (lineAt ls k) s

/-- The text of a title line. -/
def titleText (k : ℕ) : Text := strip ((lineAt ls k).drop 2)

/-- The title lines before a position that have a text. -/
def titlesBefore (k : ℕ) : List ℕ :=
  (List.range k).filter fun j => opensWith ls "# " j && titleText ls j ≠ []

/-- What a position finds of the document's title. -/
def titleAt (k : ℕ) : Text := ((titlesBefore ls k).head?.map (titleText ls)).getD []

/-- A title line: no title with a text is before it. -/
def isTitle (k : ℕ) : Bool := opensWith ls "# " k && titlesBefore ls k = []

def isHeading (k : ℕ) : Bool := opensWith ls "## " k

/-- The positions of the headings before a position. -/
def headingsBefore (k : ℕ) : List ℕ := (List.range k).filter (isHeading ls)

/-- How many they are. -/
def depth (k : ℕ) : ℕ := (headingsBefore ls k).length

/-- What the last of some headings names. -/
def nameAfter (hs : List ℕ) : Text :=
  (hs.getLast?.map fun k => strip ((lineAt ls k).drop 3)).getD intro

/-- The nearest heading before a position. -/
def sectionOf (k : ℕ) : Text := nameAfter ls (headingsBefore ls k)

/-- The lines before a position that are neither title nor heading. -/
def keptBefore (m : ℕ) : List ℕ := (List.range m).filter fun k => !isTitle ls k && !isHeading ls k

structure Section where
  name : Text
  lines : List ℕ
  deriving DecidableEq

/-- The section after `i` headings, as far as a position sees it. -/
def sectionAt (m i : ℕ) : Section :=
  ⟨nameAfter ls ((headingsBefore ls m).take i), (keptBefore ls m).filter fun k => depth ls k = i⟩

/-- The sections a heading before the position has ended. -/
def closed (m : ℕ) : List Section := (List.range (depth ls m)).map (sectionAt ls m)

/-- The section the position is in. -/
def current (m : ℕ) : Section := sectionAt ls m (depth ls m)

/-- The sections, the one before the first heading included. -/
def sections (m : ℕ) : List Section := closed ls m ++ [current ls m]

/-- The text of a section. -/
def Section.body (s : Section) : Text := strip (joinLines (s.lines.map (lineAt ls)))

/-- The sections with a text. -/
def shown (ss : List Section) : List Section := ss.filter fun s => s.body ls ≠ []

end Lines

section Chunks

variable (lower : Text → Text) (doc : Text) (ls : List Text)

def chunkOf (s : Section) : Chunk := ⟨idOf lower doc s.name, doc, s.name, s.body ls⟩

/-- The ids of the sections with a text. -/
def idsOf (ss : List Section) : List Text := (shown ls ss).map fun s => idOf lower doc s.name

/-- What the reader holds, given the sections it has closed and the lines of the current one. -/
def holds (m : ℕ) (ss : List Section) (buf : List ℕ) : Builder where
  title := titleAt ls m
  sectionName := sectionOf ls m
  buf := buf.map (lineAt ls)
  chunks := (shown ls ss).map (chunkOf lower doc ls)
  seen := idsOf lower doc ls ss
  inCode := inFence ls m

/-- A result that goes on with `b`, all ids of `ss` told apart, or stops at an id that came
twice. -/
def Reads (r : Except DuplicateId Builder) (b : Builder) (ss : List Section) : Prop :=
  (r = .ok b ∧ (idsOf lower doc ls ss).Nodup) ∨
    ∃ id, r = .error ⟨id⟩ ∧ 2 ≤ (idsOf lower doc ls ss).count id

end Chunks

section Positions

variable {ls : List Text} {m k i : ℕ}

theorem inFence_succ (hm : m < ls.length) :
    inFence ls (m + 1) = (inFence ls m ^^ isFence (lineAt ls m)) := by
  have hline : lineAt ls m = ls[m] := by simp [lineAt, hm]
  unfold inFence
  rw [List.take_add_one, List.getElem?_eq_getElem hm, Option.toList_some, List.countP_append, hline]
  by_cases hf : isFence ls[m] = true
  · simp only [List.countP_cons_of_pos hf, List.countP_nil, hf, Bool.xor_true]
    by_cases hodd : (ls.take m).countP isFence % 2 = 1
    · have : (((ls.take m).countP isFence + (0 + 1)) % 2) ≠ 1 := by omega
      simp [hodd, this]
    · have : (((ls.take m).countP isFence + (0 + 1)) % 2) = 1 := by omega
      simp [hodd, this]
  · simp [List.countP_cons_of_neg hf, hf]

/-- A heading is no title. -/
theorem not_heading_of_title (h : opensWith ls "# " k = true) : isHeading ls k = false := by
  simp only [opensWith, Bool.and_eq_true] at h
  have hno : startsWith (lineAt ls k) "## " = false := not_startsWith h.2 (by decide) (by decide)
  simp [isHeading, opensWith, hno]

theorem headingsBefore_succ (m : ℕ) : headingsBefore ls (m + 1) =
    headingsBefore ls m ++ if isHeading ls m then [m] else [] := by
  simp [headingsBefore, List.range_succ, List.filter_cons]

theorem keptBefore_succ (m : ℕ) : keptBefore ls (m + 1) =
    keptBefore ls m ++ if !isTitle ls m && !isHeading ls m then [m] else [] := by
  simp [keptBefore, List.range_succ, List.filter_cons]

theorem depth_succ (m : ℕ) : depth ls (m + 1) = depth ls m + if isHeading ls m then 1 else 0 := by
  unfold depth
  rw [headingsBefore_succ]
  by_cases h : isHeading ls m = true <;> simp [h]

theorem depth_mono (h : k ≤ m) : depth ls k ≤ depth ls m := by
  induction m, h using Nat.le_induction with
  | base => exact le_rfl
  | succ m _ ih => exact ih.trans (by rw [depth_succ]; omega)

/-- What comes after a position does not change the section it had closed. -/
theorem sectionAt_succ (hi : i ≤ depth ls m)
    (h : isTitle ls m = true ∨ isHeading ls m = true ∨ i < depth ls m) :
    sectionAt ls (m + 1) i = sectionAt ls m i := by
  have hname : (headingsBefore ls (m + 1)).take i = (headingsBefore ls m).take i := by
    rw [headingsBefore_succ, List.take_append_of_le_length hi]
  have hlines : ((keptBefore ls (m + 1)).filter fun k => depth ls k = i) =
      (keptBefore ls m).filter fun k => depth ls k = i := by
    rw [keptBefore_succ, List.filter_append]
    rcases h with h | h | h
    · simp [h]
    · simp [h]
    · by_cases hkept : (!isTitle ls m && !isHeading ls m) = true
      · simp [hkept, h.ne']
      · simp [hkept]
  simp only [sectionAt, hname, hlines]

theorem closed_succ :
    closed ls (m + 1) = if isHeading ls m then sections ls m else closed ls m := by
  unfold sections closed current
  rw [depth_succ]
  by_cases h : isHeading ls m = true
  · rw [if_pos h, if_pos h, List.range_succ, List.map_append, List.map_singleton]
    congr 1
    · refine List.map_congr_left fun i hi => sectionAt_succ ?_ (.inr (.inl h))
      exact (List.mem_range.mp hi).le
    · rw [sectionAt_succ le_rfl (.inr (.inl h))]
  · rw [if_neg h, if_neg h]
    refine List.map_congr_left fun i hi => sectionAt_succ ?_ (.inr (.inr ?_))
    · exact (List.mem_range.mp hi).le
    · exact List.mem_range.mp hi

theorem lt_of_mem_kept (h : k ∈ keptBefore ls m) : k < m :=
  List.mem_range.mp (List.mem_of_mem_filter h)

theorem current_name (m : ℕ) : (current ls m).name = sectionOf ls m := by
  simp only [current, sectionAt, depth, List.take_length, sectionOf]

/-- A heading opens a section without lines, a title adds none to the one that is open. -/
theorem current_lines_succ : (current ls (m + 1)).lines =
    if isHeading ls m then []
    else (current ls m).lines ++ if isTitle ls m then [] else [m] := by
  by_cases h : isHeading ls m = true
  · rw [if_pos h]
    refine List.filter_eq_nil_iff.mpr fun k hk hdepth => ?_
    have hmono : depth ls k ≤ depth ls m := depth_mono (Nat.lt_succ_iff.mp (lt_of_mem_kept hk))
    have hsucc : depth ls (m + 1) = _ := depth_succ m
    have : depth ls k = depth ls (m + 1) := by simpa using hdepth
    simp only [h, if_true] at hsucc
    omega
  · have hsucc : depth ls (m + 1) = depth ls m := by simp [depth_succ, h]
    simp only [current, sectionAt, hsucc, keptBefore_succ, List.filter_append, if_neg h]
    by_cases ht : isTitle ls m = true
    · simp [ht]
    · simp [ht, h]

theorem sectionOf_succ (m : ℕ) : sectionOf ls (m + 1) =
    if isHeading ls m then strip ((lineAt ls m).drop 3) else sectionOf ls m := by
  unfold sectionOf nameAfter
  rw [headingsBefore_succ]
  by_cases h : isHeading ls m = true
  · simp [h]
  · simp [h]

theorem titlesBefore_succ (m : ℕ) : titlesBefore ls (m + 1) = titlesBefore ls m ++
    if opensWith ls "# " m && titleText ls m ≠ [] then [m] else [] := by
  simp [titlesBefore, List.range_succ, List.filter_cons]

theorem titleAt_eq_nil : titleAt ls m = [] ↔ titlesBefore ls m = [] := by
  unfold titleAt
  cases h : titlesBefore ls m with
  | nil => simp
  | cons k ks =>
    have hmem : k ∈ titlesBefore ls m := by rw [h]; exact List.mem_cons_self
    have htext := (List.mem_filter.mp hmem).2
    simp_all

theorem titleAt_succ (m : ℕ) :
    titleAt ls (m + 1) = if isTitle ls m then titleText ls m else titleAt ls m := by
  unfold titleAt isTitle
  rw [titlesBefore_succ]
  cases h : titlesBefore ls m with
  | nil =>
    by_cases hopens : opensWith ls "# " m = true
    · by_cases htext : titleText ls m = []
      · simp [hopens, htext]
      · simp [hopens, htext]
    · simp [hopens]
  | cons k ks => simp

end Positions

section Run

variable {lower : Text → Text} {doc : Text} {ls : List Text} {m : ℕ} {b b' : Builder}
  {r : Except DuplicateId Builder} {ss ss' : List Section}

theorem idsOf_append (ss ss' : List Section) :
    idsOf lower doc ls (ss ++ ss') = idsOf lower doc ls ss ++ idsOf lower doc ls ss' := by
  simp [idsOf, shown]

/-- Whatever goes on reading goes on with one more step. -/
theorem Reads.bind {f : Builder → Except DuplicateId Builder} (h : Reads lower doc ls r b ss)
    (hsub : ss <+: ss') (hf : (idsOf lower doc ls ss).Nodup → Reads lower doc ls (f b) b' ss') :
    Reads lower doc ls (r >>= f) b' ss' := by
  rcases h with ⟨rfl, hids⟩ | ⟨id, rfl, hid⟩
  · exact hf hids
  · obtain ⟨rest, rfl⟩ := hsub
    refine .inr ⟨id, rfl, hid.trans ?_⟩
    rw [idsOf_append, List.count_append]
    omega

/-- **Flushing** closes the section that is open. -/
theorem flush_holds (hids : (idsOf lower doc ls (closed ls m)).Nodup) :
    Reads lower doc ls ((holds lower doc ls m (closed ls m) (current ls m).lines).flush lower doc)
      (holds lower doc ls m (sections ls m) []) (sections ls m) := by
  have hbody : strip (joinLines (holds lower doc ls m (closed ls m) (current ls m).lines).buf) =
      (current ls m).body ls := rfl
  have hname : (holds lower doc ls m (closed ls m) (current ls m).lines).sectionName =
      (current ls m).name := (current_name m).symm
  unfold Builder.flush
  rw [hbody, hname]
  by_cases htext : (current ls m).body ls = []
  · -- a section without a text is no chunk
    have hshown : shown ls (sections ls m) = shown ls (closed ls m) := by
      simp [shown, sections, htext]
    have heq : idsOf lower doc ls (sections ls m) = idsOf lower doc ls (closed ls m) := by
      rw [idsOf, hshown, idsOf]
    refine .inl ⟨?_, by rwa [heq]⟩
    simp only [htext, if_true, holds, heq, hshown, List.map_nil, current_name]
  · have hshown : shown ls (sections ls m) = shown ls (closed ls m) ++ [current ls m] := by
      simp [shown, sections, htext]
    have heq : idsOf lower doc ls (sections ls m) =
        idsOf lower doc ls (closed ls m) ++ [idOf lower doc (current ls m).name] := by
      rw [idsOf, hshown, List.map_append]
      rfl
    have hseen : (holds lower doc ls m (closed ls m) (current ls m).lines).seen =
        idsOf lower doc ls (closed ls m) := rfl
    simp only [htext, if_false, hseen]
    by_cases hdup : idOf lower doc (current ls m).name ∈ idsOf lower doc ls (closed ls m)
    · rw [if_pos (by simpa using hdup)]
      refine .inr ⟨_, rfl, ?_⟩
      have hone : 1 ≤ (idsOf lower doc ls (closed ls m)).count
          (idOf lower doc (current ls m).name) := List.one_le_count_iff.mpr hdup
      rw [heq, List.count_append, List.count_singleton_self]
      omega
    · rw [if_neg (by simpa using hdup)]
      refine .inl ⟨?_, ?_⟩
      · simp only [holds, heq, hshown, List.map_append, List.map_nil, List.map_singleton, chunkOf,
          current_name]
      · rw [heq]
        rw [← List.concat_eq_append]
        exact hids.concat hdup

/-- The branches of a line, told by what it is. -/
theorem line_branches (m : ℕ) (ss : List Section) (buf : List ℕ) :
    (holds lower doc ls m ss buf).line lower doc (lineAt ls m) =
      if isFence (lineAt ls m) then
        .ok { holds lower doc ls m ss (buf ++ [m]) with inCode := !inFence ls m }
      else if isTitle ls m then .ok { holds lower doc ls m ss buf with title := titleText ls m }
      else if isHeading ls m then do
        let b ← (holds lower doc ls m ss buf).flush lower doc
        pure { b with sectionName := strip ((lineAt ls m).drop 3) }
      else .ok (holds lower doc ls m ss (buf ++ [m])) := by
  have htitle : isTitle ls m = (opensWith ls "# " m && titleAt ls m = []) := by
    rw [isTitle, decide_eq_decide.mpr titleAt_eq_nil]
  have hbuf : (buf ++ [m]).map (lineAt ls) = buf.map (lineAt ls) ++ [lineAt ls m] := by simp
  unfold Builder.line
  by_cases hfence : isFence (lineAt ls m) = true
  · rw [if_pos hfence, if_pos hfence]
    simp only [holds, hbuf]
  · have hno : isFence (lineAt ls m) = false := Bool.eq_false_iff.mpr hfence
    rw [if_neg hfence, if_neg hfence, htitle, isHeading]
    simp only [opensWith, hno, Bool.not_false, Bool.true_and, holds, hbuf, titleText]
    rfl

/-- **One line** takes the reader from a position to the next. -/
theorem line_holds (hm : m < ls.length) (hids : (idsOf lower doc ls (closed ls m)).Nodup) :
    Reads lower doc ls
      ((holds lower doc ls m (closed ls m) (current ls m).lines).line lower doc (lineAt ls m))
      (holds lower doc ls (m + 1) (closed ls (m + 1)) (current ls (m + 1)).lines)
      (closed ls (m + 1)) := by
  have hcode : inFence ls (m + 1) = (inFence ls m ^^ isFence (lineAt ls m)) := inFence_succ hm
  rw [line_branches]
  by_cases hhead : isHeading ls m = true
  · have hfence : isFence (lineAt ls m) = false := by
      simp only [isHeading, opensWith, Bool.and_eq_true, Bool.not_eq_true'] at hhead
      exact hhead.1.1
    have htitle : isTitle ls m = false := by
      refine Bool.eq_false_iff.mpr fun h => ?_
      rw [isTitle, Bool.and_eq_true] at h
      exact Bool.eq_false_iff.mp (not_heading_of_title h.1) hhead
    have hclosed : closed ls (m + 1) = sections ls m := by simp [closed_succ, hhead]
    rw [if_neg (by simp [hfence]), if_neg (by simp [htitle]), if_pos hhead, hclosed]
    refine (flush_holds hids).bind (List.prefix_refl _) fun hall => .inl ⟨?_, hall⟩
    simp [holds, titleAt_succ, sectionOf_succ, current_lines_succ, hcode, hhead, htitle, hfence,
      pure, Except.pure]
  · have hhead : isHeading ls m = false := Bool.eq_false_iff.mpr hhead
    have hclosed : closed ls (m + 1) = closed ls m := by simp [closed_succ, hhead]
    refine .inl ⟨?_, by rwa [hclosed]⟩
    by_cases hfence : isFence (lineAt ls m) = true
    · have htitle : isTitle ls m = false := by simp [isTitle, opensWith, hfence]
      simp [holds, titleAt_succ, sectionOf_succ, current_lines_succ, hcode, hhead, htitle, hfence,
        hclosed]
    · by_cases htitle : isTitle ls m = true
      · simp [holds, titleAt_succ, sectionOf_succ, current_lines_succ, hcode, hhead, htitle, hfence,
          hclosed]
      · simp [holds, titleAt_succ, sectionOf_succ, current_lines_succ, hcode, hhead, htitle, hfence,
          hclosed]

/-- **The reader at a position**, or the id that came twice before it. -/
theorem reads_spec (hm : m ≤ ls.length) :
    Reads lower doc ls ((ls.take m).foldlM (fun b line => b.line lower doc line) Builder.start)
      (holds lower doc ls m (closed ls m) (current ls m).lines) (closed ls m) := by
  induction m with
  | zero => exact .inl ⟨rfl, List.nodup_nil⟩
  | succ m ih =>
    have hlt : m < ls.length := hm
    have hline : ls.take (m + 1) = ls.take m ++ [lineAt ls m] := by
      rw [List.take_add_one, List.getElem?_eq_getElem hlt]
      simp [lineAt, hlt]
    have hsub : closed ls m <+: closed ls (m + 1) := by
      rw [closed_succ]
      by_cases hhead : isHeading ls m = true
      · rw [if_pos hhead]
        exact List.prefix_append _ _
      · rw [if_neg hhead]
    rw [hline, List.foldlM_append]
    refine (ih hlt.le).bind hsub fun hids => ?_
    rw [List.foldlM_cons]
    exact (line_holds hlt hids).bind (List.prefix_refl _) fun hids' => .inl ⟨rfl, hids'⟩

theorem depth_le_of_kept {k : ℕ} (h : k ∈ keptBefore ls m) : depth ls k < depth ls m + 1 :=
  Nat.lt_succ_of_le (depth_mono (lt_of_mem_kept h).le)

theorem sections_eq (m : ℕ) :
    sections ls m = (List.range (depth ls m + 1)).map (sectionAt ls m) := by
  rw [List.range_succ, List.map_append, List.map_singleton]
  rfl

/-- **The sections** hold each line once and in order. -/
theorem sections_flatten (m : ℕ) : (sections ls m).flatMap Section.lines = keptBefore ls m := by
  have hsorted : (keptBefore ls m).Pairwise fun a b => depth ls a ≤ depth ls b :=
    (List.pairwise_lt_range.filter _).imp fun h => depth_mono h.le
  rw [sections_eq, List.flatMap_map]
  exact Grouping.flatMap_groups hsorted fun k hk => depth_le_of_kept hk

theorem headingsBefore_prefix {k : ℕ} (h : k ≤ m) :
    headingsBefore ls k <+: headingsBefore ls m := by
  induction m, h using Nat.le_induction with
  | base => exact List.prefix_refl _
  | succ m _ ih =>
    rw [headingsBefore_succ]
    exact ih.trans (List.prefix_append _ _)

/-- **The name of a section** is the nearest heading before each of its lines. -/
theorem name_of_mem {s : Section} (hs : s ∈ sections ls m) {k : ℕ} (hk : k ∈ s.lines) :
    s.name = sectionOf ls k := by
  rw [sections_eq] at hs
  obtain ⟨i, -, rfl⟩ := List.mem_map.mp hs
  obtain ⟨hkept, hdepth⟩ := List.mem_filter.mp hk
  have hi : i = (headingsBefore ls k).length := (of_decide_eq_true hdepth).symm
  have hpre : headingsBefore ls k <+: headingsBefore ls m :=
    headingsBefore_prefix (lt_of_mem_kept hkept).le
  rw [sectionAt, hi, ← List.prefix_iff_eq_take.mp hpre]
  rfl

/-- What stands in a fence, or bounds it, is kept. -/
theorem kept_of_fence {k : ℕ} (hk : k < m)
    (h : inFence ls k = true ∨ isFence (lineAt ls k) = true) : k ∈ keptBefore ls m := by
  have hopens : ∀ s, opensWith ls s k = false := fun s => by
    rcases h with h | h
    · simp [opensWith, h]
    · simp [opensWith, h]
  refine List.mem_filter.mpr ⟨List.mem_range.mpr hk, ?_⟩
  simp [isTitle, isHeading, hopens]

end Run

/-- **Chunking** a document either stops at an id two sections have, or gives the sections that
have a text: their ids differ, the sections hold every line that is neither title nor heading once and in
order, what a fence holds is no heading, and a section has the name of the nearest heading before
each of its lines. -/
theorem chunks_sections (lower : Text → Text) (doc text : Text) :
    let ls := splitlines text
    let n := ls.length
    ((∃ id, chunkMarkdown lower doc text = .error ⟨id⟩ ∧
        2 ≤ (idsOf lower doc ls (sections ls n)).count id) ∨
      ∃ cs, chunkMarkdown lower doc text = .ok cs ∧
        cs = ((shown ls (sections ls n)).map fun s =>
          titled (titleAt ls n) (chunkOf lower doc ls s)) ∧
        (cs.map Chunk.chunkId).Nodup) ∧
      (sections ls n).flatMap Section.lines = keptBefore ls n ∧
      (∀ s ∈ sections ls n, ∀ k ∈ s.lines, s.name = sectionOf ls k) ∧
      ∀ k < n, inFence ls k = true ∨ isFence (lineAt ls k) = true → k ∈ keptBefore ls n := by
  intro ls n
  refine ⟨?_, sections_flatten n, fun s hs k hk => name_of_mem hs hk, fun k hk => kept_of_fence hk⟩
  have hread : Reads lower doc ls ((ls.take n).foldlM _ Builder.start) _ _ := reads_spec le_rfl
  rw [List.take_length] at hread
  have hflush := hread.bind (List.prefix_append (closed ls n) [current ls n]) flush_holds
  have hchunks : chunkMarkdown lower doc text =
      ((ls.foldlM (fun b line => b.line lower doc line) Builder.start >>= fun b =>
        b.flush lower doc) >>= fun b => pure (b.chunks.map (titled b.title))) := by
    rw [chunkMarkdown, bind_assoc]
  rw [hchunks]
  rcases hflush with ⟨hok, hids⟩ | ⟨id, herr, hid⟩
  · refine .inr ⟨_, by rw [hok]; rfl, ?_, ?_⟩
    · simp only [holds, List.map_map]
      rfl
    · rw [List.map_map]
      simp only [holds, List.map_map]
      exact hids
  · exact .inl ⟨id, by rw [herr]; rfl, hid⟩

/-- The first line of a section with a text comes back without its indentation. -/
theorem indented_line : ¬ ∀ (lower : Text → Text) (doc text : Text) (cs : List Chunk),
    chunkMarkdown lower doc text = .ok cs →
      (cs.flatMap fun c => (splitlines c.text).drop 1).filter (strip · ≠ []) =
        ((keptBefore (splitlines text) (splitlines text).length).map
          (lineAt (splitlines text))).filter (strip · ≠ []) := by
  intro h
  have := h (fun t => t.map Char.toLower) "doc".toList "# T\n## A\n  x".toList
    [⟨"doc#a".toList, "doc".toList, "A".toList, "T — A\nx".toList⟩] (by decide +kernel)
  revert this
  decide +kernel

end Meridian.Rag
