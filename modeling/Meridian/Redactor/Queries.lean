import Meridian.Redactor.Rules

/-!
# The query of a request line
-/

namespace Meridian.Redactor

open Python Regex

/-! ## Matches of the patterns -/

section Patterns

variable {s t : Cursor Char} {p : Char → Bool}

theorem mem_seq_nil : t ∈ ends (seq []) s ↔ t = s := mem_empty

theorem mem_seq_cons {r : P} {l : List P} :
    t ∈ ends (seq (r :: l)) s ↔ ∃ u ∈ ends r s, t ∈ ends (seq l) u := mem_cat

theorem mem_ones {ps : List (Char → Bool)} : t ∈ ends (seq (ps.map .one)) s ↔
    ∃ w, List.Forall₂ (fun p c => p c = true) ps w ∧ Takes s t w := by
  induction ps generalizing s with
  | nil =>
    rw [List.map_nil, mem_seq_nil]
    constructor
    · rintro rfl
      exact ⟨[], .nil, takes_nil t⟩
    · rintro ⟨w, hw, hst⟩
      cases hw
      exact hst.eq (takes_nil s)
  | cons p ps ih =>
    rw [List.map_cons, mem_seq_cons]
    constructor
    · rintro ⟨u, hu, ht⟩
      obtain ⟨c, rest, hs, hc, rfl⟩ := mem_one.mp hu
      obtain ⟨w, hw, hst⟩ := ih.mp ht
      have hfirst : Takes s ⟨some c, rest, s.groups⟩ [c] := ⟨⟨hs, by simp⟩, rfl⟩
      exact ⟨c :: w, .cons hc hw, hfirst.trans hst⟩
    · rintro ⟨w, hw, hst⟩
      cases hw with
      | cons hc hw =>
        obtain ⟨u, hu, hrest⟩ := Takes.split (v := [_]) hst
        have hone := mem_one.mpr ⟨_, _, hu.after, hc, hu.eq ⟨⟨hu.after, by simp⟩, rfl⟩⟩
        exact ⟨u, hone, ih.mpr ⟨_, hw, hrest⟩⟩

theorem mem_anyOf {rs : List P} : t ∈ ends (anyOf rs) s ↔ ∃ r ∈ rs, t ∈ ends r s := by
  induction rs with
  | nil => simp [anyOf, ends]
  | cons r rs ih =>
    cases rs with
    | nil => simp [anyOf]
    | cons q rs =>
      have halt : t ∈ ends (anyOf (r :: q :: rs)) s ↔ t ∈ ends r s ∨ t ∈ ends (anyOf (q :: rs)) s :=
        mem_alt
      rw [halt, ih]
      simp

theorem mem_plus : t ∈ ends (plus (.one p)) s ↔
    ∃ w, Takes s t w ∧ w ≠ [] ∧ ∀ c ∈ w, p c = true := by
  constructor
  · intro h
    obtain ⟨w, hw, hgroups, hall, hleast, -⟩ := mem_rep_one h
    exact ⟨w, ⟨hw, hgroups⟩, List.length_pos_iff.mp hleast, hall⟩
  · rintro ⟨w, hw, hne, hall⟩
    exact mem_rep_one_of hw hall (List.length_pos_iff.mpr hne) nofun

end Patterns

/-! ## Letters under `re.IGNORECASE` -/

/-- The letter a character stands for. -/
def fold (d : Char) : Char :=
  if d.toNat = 0x130 ∨ d.toNat = 0x131 then 'i'
  else if d.toNat = 0x17f then 's'
  else if d.toNat = 0x212a then 'k'
  else d.toLower

theorem toLower_cases (d : Char) :
    (0x41 ≤ d.toNat ∧ d.toNat ≤ 0x5a ∧ d.toLower.toNat = d.toNat + 0x20) ∨ d.toLower = d := by
  unfold Char.toLower
  split
  · rename_i h
    refine .inl ?_
    simp only [ge_iff_le, UInt32.le_iff_toNat_le] at h
    have htoNat : d.toNat = d.val.toNat := rfl
    simp at h
    refine ⟨by omega, by omega, ?_⟩
    have hdiff : ('a'.val - 'A'.val).toNat = 0x20 := by decide
    show (d.val + ('a'.val - 'A'.val)).toNat = d.val.toNat + 0x20
    rw [UInt32.toNat_add, hdiff]
    omega
  · exact .inr rfl

theorem caseless_cases {c d : Char} (h : caseless c d = true) : d.toLower = c ∨
    c = 'i' ∧ (d.toNat = 0x130 ∨ d.toNat = 0x131) ∨ c = 's' ∧ d.toNat = 0x17f ∨
    c = 'k' ∧ d.toNat = 0x212a := by
  unfold caseless at h
  split at h <;> simp at h <;> simp [h]

/-- A character stands for one letter. -/
theorem fold_of_caseless {c d : Char} (hc : lower c = true) (h : caseless c d = true) :
    fold d = c := by
  have hascii : c.toNat ≤ 0x7a := by
    simp only [lower, Bool.and_eq_true, decide_eq_true_eq] at hc
    exact hc.2
  unfold fold
  rcases caseless_cases h with hd | ⟨rfl, hd⟩ | ⟨rfl, hd⟩ | ⟨rfl, hd⟩
  · have hlow : d.toNat ≤ 0x7a := by
      rcases toLower_cases d with ⟨-, hd', -⟩ | hd'
      · omega
      · rwa [← hd', hd]
    rw [if_neg (by omega), if_neg (by omega), if_neg (by omega), hd]
  · exact if_pos hd
  · simp [hd]
  · simp [hd]

/-- A letter is not white space. -/
theorem isSpace_of_caseless {c d : Char} (hc : lower c = true) (h : caseless c d = true) :
    isSpace d = false := by
  have hletter : 0x61 ≤ c.toNat ∧ c.toNat ≤ 0x7a := by
    simp only [lower, Bool.and_eq_true, decide_eq_true_eq] at hc
    exact hc
  have hrange : 0x41 ≤ d.toNat ∧ d.toNat ≤ 0x7a ∨ d.toNat = 0x130 ∨ d.toNat = 0x131 ∨
      d.toNat = 0x17f ∨ d.toNat = 0x212a := by
    rcases caseless_cases h with h | ⟨-, h⟩ | ⟨-, h⟩ | ⟨-, h⟩
    · rcases toLower_cases d with hd | hd
      · omega
      · rw [← hd, h]
        omega
    all_goals omega
  simp only [isSpace, inRuns, spaces, List.any_cons, List.any_nil, Bool.or_eq_false_iff,
    Bool.and_eq_false_iff, decide_eq_false_iff_not, Bool.or_false]
  omega

/-- Nor is a digit. -/
theorem isSpace_of_decimal {c : Char} (h : decimal c = true) : isSpace c = false :=
  (Option.isSome_iff_exists.mp h).elim fun _ hd => isSpace_of_digit hd

/-! ## Request lines -/

/-- The methods, in the order they are tried. -/
def methods : List String := ["get", "post", "put", "patch", "delete", "head", "options"]

/-- A word under `re.IGNORECASE`. -/
def Spells (n w : Text) : Prop := List.Forall₂ (fun c d => caseless c d = true) n w

/-- White space, one character at least. -/
def Blank (w : Text) : Prop := w ≠ [] ∧ ∀ c ∈ w, isSpace c = true

/-- `HTTP/\d` -/
def Protocol (w : Text) : Prop :=
  ∃ name c, w = name ++ ['/', c] ∧ Spells "http".toList name ∧ decimal c = true

/-- A text `_REQUEST_LINE` matches. -/
structure Request where
  method : Text
  sp : Text
  target : Text
  sp' : Text
  protocol : Text
  named : ∃ n ∈ methods, Spells n.toList method
  blank : Blank sp
  solid : target ≠ [] ∧ ∀ c ∈ target, (!isSpace c) = true
  blank' : Blank sp'
  versioned : Protocol protocol

namespace Request

def text (r : Request) : Text := r.method ++ (r.sp ++ (r.target ++ (r.sp' ++ r.protocol)))

def groups (r : Request) : List (ℕ × Text) :=
  [(4, r.sp' ++ r.protocol), (3, r.target), (2, r.sp), (1, r.method)]

end Request

variable {u : Unicode} {s t : Cursor Char}

theorem mem_word {n : String} : t ∈ ends (word n) s ↔ ∃ w, Spells n.toList w ∧ Takes s t w := by
  have hword : word n = seq ((n.toList.map caseless).map .one) := by
    rw [word, List.map_map]
    rfl
  rw [hword, mem_ones]
  simp only [Spells, List.forall₂_map_left_iff]

theorem mem_protocol : t ∈ ends (seq [word "http", char '/', digit]) s ↔
    ∃ w, Protocol w ∧ Takes s t w := by
  have hlast : ∀ {v : Cursor Char}, t ∈ ends (seq [char '/', digit]) v ↔
      ∃ w, List.Forall₂ (fun p c => p c = true) [(decide <| · = '/'), decimal] w ∧ Takes v t w :=
    fun {v} => (mem_ones : t ∈ ends (seq ([(decide <| · = '/'), decimal].map .one)) v ↔ _)
  simp only [mem_seq_cons (l := [_, _]), mem_word, hlast]
  constructor
  · rintro ⟨v, ⟨name, hname, hv⟩, w, hw, ht⟩
    obtain ⟨c, d, rfl⟩ := List.length_eq_two.mp hw.length_eq.symm
    simp only [List.forall₂_cons, decide_eq_true_eq, List.forall₂_nil_left_iff, and_true] at hw
    exact ⟨_, ⟨name, d, by rw [hw.1], hname, hw.2⟩, hv.trans ht⟩
  · rintro ⟨_, ⟨name, c, rfl, hname, hc⟩, ht⟩
    obtain ⟨v, hv, ht⟩ := ht.split
    exact ⟨v, ⟨name, hname, hv⟩, ['/', c], by simp [hc], ht⟩

theorem mem_tail : t ∈ ends (seq [plus space, word "http", char '/', digit]) s ↔
    ∃ w, (∃ sp protocol, w = sp ++ protocol ∧ Blank sp ∧ Protocol protocol) ∧ Takes s t w := by
  simp only [mem_seq_cons (l := [_, _, _]), space, mem_plus, mem_protocol]
  constructor
  · rintro ⟨v, ⟨sp, hsp, hblank⟩, protocol, hprotocol, ht⟩
    exact ⟨_, ⟨sp, protocol, rfl, hblank, hprotocol⟩, hsp.trans ht⟩
  · rintro ⟨_, ⟨sp, protocol, rfl, hblank, hprotocol⟩, ht⟩
    obtain ⟨v, hv, ht⟩ := ht.split
    exact ⟨v, ⟨sp, hv, hblank⟩, protocol, hprotocol, ht⟩

/-- **What the pattern matches** is a request line. -/
theorem mem_requestLine : t ∈ ends (requestLine u) s ↔
    s.prev.any u.word ≠ s.after.head?.any u.word ∧
      ∃ r : Request, Leads s t r.text ∧ t.groups = r.groups ++ s.groups := by
  have hmethod : ∀ {s t : Cursor Char}, t ∈ ends (anyOf (methods.map word)) s ↔
      ∃ w, (∃ n ∈ methods, Spells n.toList w) ∧ Takes s t w := by
    intro s t
    simp only [mem_anyOf, List.mem_map, exists_exists_and_eq_and, mem_word]
    constructor
    · rintro ⟨n, hn, w, hw, ht⟩
      exact ⟨w, ⟨n, hn, hw⟩, ht⟩
    · rintro ⟨w, ⟨n, hn, hw⟩, ht⟩
      exact ⟨n, hn, w, hw, ht⟩
  have hplus : ∀ {p : Char → Bool} {s t : Cursor Char}, t ∈ ends (plus (.one p)) s ↔
      ∃ w, (w ≠ [] ∧ ∀ c ∈ w, p c = true) ∧ Takes s t w := by
    simp [mem_plus, and_comm]
  have hseq : t ∈ ends (requestLine u) s ↔ ∃ a ∈ ends (edge u) s,
      ∃ b ∈ ends (.group 1 (anyOf (methods.map word))) a, ∃ c ∈ ends (.group 2 (plus space)) b,
        ∃ d ∈ ends (.group 3 (plus (.one (!isSpace ·)))) c,
          t ∈ ends (.group 4 (seq [plus space, word "http", char '/', digit])) d := by
    simp only [requestLine, mem_seq_cons, mem_seq_nil, exists_eq_right']
    rfl
  rw [hseq]
  constructor
  · rintro ⟨a, ha, b, hb, c, hc, d, hd, ht⟩
    obtain ⟨rfl, hedge⟩ := mem_edge.mp ha
    obtain ⟨method, hnamed, hmethod, hb⟩ := (mem_group_takes fun _ => hmethod).mp hb
    obtain ⟨sp, hblank, hsp, hc⟩ := (mem_group_takes fun _ => hplus).mp hc
    obtain ⟨target, hsolid, htarget, hd⟩ := (mem_group_takes fun _ => hplus).mp hd
    obtain ⟨_, ⟨sp', protocol, rfl, hblank', hprotocol⟩, htail, ht⟩ :=
      (mem_group_takes fun _ => mem_tail).mp ht
    refine ⟨hedge, ⟨method, sp, target, sp', protocol, hnamed, hblank, hsolid, hblank', hprotocol⟩,
      hmethod.trans (hsp.trans (htarget.trans htail)), ?_⟩
    rw [ht, hd, hc, hb]
    rfl
  · rintro ⟨hedge, r, hleads, hgroups⟩
    obtain ⟨b, hb, hleads, hbg⟩ := hleads.split ((1, r.method) :: s.groups)
    obtain ⟨c, hc, hleads, hcg⟩ := hleads.split ((2, r.sp) :: b.groups)
    obtain ⟨d, hd, hleads, hdg⟩ := hleads.split ((3, r.target) :: c.groups)
    refine ⟨s, mem_edge.mpr ⟨rfl, hedge⟩,
      b, (mem_group_takes fun _ => hmethod).mpr ⟨_, r.named, hb, hbg⟩,
      c, (mem_group_takes fun _ => hplus).mpr ⟨_, r.blank, hc, hcg⟩,
      d, (mem_group_takes fun _ => hplus).mpr ⟨_, r.solid, hd, hdg⟩,
      (mem_group_takes fun _ => mem_tail).mpr
        ⟨_, ⟨_, _, rfl, r.blank', r.versioned⟩, hleads, ?_⟩⟩
    rw [hgroups, hdg, hcg, hbg]
    rfl

/-! ## One match at each place -/

/-- A start without `d` is a start of what stands before `d`. -/
theorem append_of_append {α : Type} {v r a b : List α} {d : α} (hd : d ∉ v)
    (h : v ++ r = a ++ d :: b) : ∃ c, a = v ++ c ∧ r = c ++ d :: b := by
  rcases List.append_eq_append_iff.mp h with ⟨c, ha, hr⟩ | ⟨c, hv, hd'⟩
  · exact ⟨c, ha, hr⟩
  · cases c with
    | nil =>
      rw [List.append_nil] at hv
      exact ⟨[], by rw [hv, List.append_nil], hd'.symm⟩
    | cons e c =>
      rw [List.cons_append] at hd'
      obtain ⟨rfl, -⟩ := List.cons.inj hd'
      exact absurd (by simp [hv]) hd

theorem head_append {p : Char → Bool} {b : Bool} {v w : Text} (hne : v ≠ [])
    (hv : ∀ c ∈ v, p c = b) : ∀ c ∈ (v ++ w).head?, p c = b := by
  obtain ⟨a, v, rfl⟩ := List.exists_cons_of_ne_nil hne
  rintro c ⟨⟩
  exact hv a List.mem_cons_self

theorem Spells.lower {n : Text} {w : Text} (hn : ∀ c ∈ n, lower c = true) (h : Spells n w) :
    w.map fold = n := by
  induction h with
  | nil => rfl
  | cons hc _ ih =>
    rw [List.map_cons, fold_of_caseless (hn _ List.mem_cons_self) hc,
      ih fun c hc => hn c (List.mem_cons_of_mem _ hc)]

theorem Spells.solid {n : Text} {w : Text} (hn : ∀ c ∈ n, Redactor.lower c = true)
    (h : Spells n w) : ∀ c ∈ w, isSpace c = false := by
  induction h with
  | nil => simp
  | cons hc _ ih =>
    refine List.forall_mem_cons.mpr ⟨isSpace_of_caseless (hn _ List.mem_cons_self) hc, ?_⟩
    exact ih fun c hc => hn c (List.mem_cons_of_mem _ hc)

theorem methods_lower : ∀ n ∈ methods, ∀ c ∈ n.toList, lower c = true := by
  have hall : (methods.all fun n => n.toList.all lower) = true := by decide
  exact fun n hn => List.all_eq_true.mp (List.all_eq_true.mp hall n hn)

namespace Request

variable (r : Request)

theorem method_solid : ∀ c ∈ r.method, isSpace c = false := by
  obtain ⟨n, hn, hspells⟩ := r.named
  exact hspells.solid (methods_lower n hn)

theorem target_solid : ∀ c ∈ r.target, isSpace c = false := by simpa using r.solid.2

theorem protocol_length : r.protocol.length = 6 := by
  obtain ⟨name, c, hprotocol, hname, -⟩ := r.versioned
  rw [hprotocol, List.length_append, ← hname.length_eq]
  rfl

theorem protocol_solid : ∀ c ∈ r.protocol, isSpace c = false := by
  obtain ⟨name, c, hprotocol, hname, hc⟩ := r.versioned
  rw [hprotocol]
  intro d hd
  rcases List.mem_append.mp hd with hd | hd
  · exact hname.solid (forall_of_all (by decide)) d hd
  · rcases List.mem_cons.mp hd with rfl | hd
    · decide
    · rw [List.mem_singleton.mp hd]
      exact isSpace_of_decimal hc

theorem protocol_ne_nil : r.protocol ≠ [] := fun hnil => by
  have := r.protocol_length
  rw [hnil] at this
  cases this

/-- A text starts with one request line at most. -/
theorem unique {r r' : Request} {rest rest' : Text} (h : r.text ++ rest = r'.text ++ rest') :
    r = r' := by
  have hblank : ∀ {w v : Text}, Blank w → ∀ c ∈ (w ++ v).head?, (!isSpace c) = false :=
    fun hw => head_append hw.1 fun c hc => by simp [hw.2 c hc]
  have hnot : ∀ {w : Text}, (∀ c ∈ w, isSpace c = false) → ∀ c ∈ w, (!isSpace c) = true := by
    intro w hw c hc
    rw [hw c hc]
    rfl
  simp only [text, List.append_assoc] at h
  obtain ⟨hmethod, h⟩ := run_inj (hnot r.method_solid) (hnot r'.method_solid) (hblank r.blank)
    (hblank r'.blank) h
  obtain ⟨hsp, h⟩ := run_inj r.blank.2 r'.blank.2 (head_append r.solid.1 r.target_solid)
    (head_append r'.solid.1 r'.target_solid) h
  obtain ⟨htarget, h⟩ := run_inj r.solid.2 r'.solid.2 (hblank r.blank') (hblank r'.blank') h
  obtain ⟨hsp', h⟩ := run_inj r.blank'.2 r'.blank'.2 (head_append r.protocol_ne_nil r.protocol_solid)
    (head_append r'.protocol_ne_nil r'.protocol_solid) h
  have hversion := List.append_inj_left h (r.protocol_length.trans r'.protocol_length.symm)
  cases r
  cases r'
  simp_all

end Request

/-! ## The hits of a scan -/

/-- A hit is the request line that stands there behind a word boundary. -/
theorem found_requestLine {prev : Option Char} {text : Text} {m : Hit Char} :
    found (requestLine u) prev text = some m ↔
      prev.any u.word ≠ text.head?.any u.word ∧
        ∃ (r : Request) (rest : Text), text = r.text ++ rest ∧ m = ⟨r.text, r.groups⟩ := by
  have hone : ∀ t t' : Cursor Char, t ∈ ends (requestLine u) ⟨prev, text, []⟩ →
      t' ∈ ends (requestLine u) ⟨prev, text, []⟩ → t = t' := by
    intro t t' ht ht'
    obtain ⟨-, r, hr, hg⟩ := mem_requestLine.mp ht
    obtain ⟨-, r', hr', hg'⟩ := mem_requestLine.mp ht'
    obtain rfl : r = r' := Request.unique (hr.after.symm.trans hr'.after)
    have hafter := List.append_cancel_left (hr.after.symm.trans hr'.after)
    have hprev := hr.prev.trans hr'.prev.symm
    have hgroups := hg.trans hg'.symm
    cases t
    cases t'
    simp_all
  have hne : ∀ r : Request, r.text ≠ [] := by
    intro r hnil
    have hlength := congrArg List.length hnil
    simp only [Request.text, List.length_append, r.protocol_length, List.length_nil] at hlength
    omega
  unfold found
  constructor
  · intro h
    obtain ⟨t, ht, rfl⟩ := Option.map_eq_some_iff.mp h
    obtain ⟨hedge, r, hr, hg⟩ :=
      mem_requestLine.mp (matchAt_mem (Option.filter_eq_some_iff.mp ht).1)
    refine ⟨hedge, r, t.after, hr.after, ?_⟩
    rw [hr.since, hg, List.append_nil]
  · rintro ⟨hedge, r, rest, htext, rfl⟩
    obtain ⟨t, hr, -, hg⟩ : ∃ t : Cursor Char, Leads ⟨prev, text, []⟩ t r.text ∧
        t.after = rest ∧ t.groups = r.groups ++ [] :=
      ⟨⟨r.text.getLast?.or prev, rest, r.groups ++ []⟩, ⟨htext, rfl⟩, rfl, rfl⟩
    have ht := mem_requestLine.mpr ⟨hedge, r, hr, hg⟩
    have hmatch : matchAt (requestLine u) ⟨prev, text, []⟩ = some t := by
      unfold matchAt
      cases hends : ends (requestLine u) ⟨prev, text, []⟩ with
      | nil =>
        rw [hends] at ht
        cases ht
      | cons t' ts => rw [List.head?_cons, hone t' t (hends ▸ List.mem_cons_self) ht]
    have hlt : t.after.length < text.length := by
      have := hr.length
      have := List.length_pos_iff.mpr (hne r)
      dsimp only at *
      omega
    rw [hmatch, Option.filter_some, if_pos (by simpa using hlt), Option.map_some, hr.since, hg,
      List.append_nil]

/-! ## Access-log lines -/

/-- The characters of a method token. -/
def tokenChar (c : Char) : Bool := letter c || asciiDigit c || oneOf "!#$%&'*+-.^_`|~" c

/-- An access-log line with the request line METHOD SP target SP HTTP/d.d in it, its target cut
where the query goes. -/
structure AccessLine where
  before : Text
  method : Text
  path : Text
  major : Char
  minor : Char
  behind : Text
  token : method ≠ [] ∧ ∀ c ∈ method, tokenChar c = true
  solid : ∀ c ∈ path, isSpace c = false ∧ c ≠ '?'
  version : asciiDigit major = true ∧ asciiDigit minor = true

/-- The line with a query. -/
def AccessLine.text (l : AccessLine) (query : Text) : Text :=
  l.before ++ l.method ++ ' ' :: (l.path ++ '?' :: query) ++
    ' ' :: ("HTTP/".toList ++ [l.major, '.', l.minor] ++ l.behind)

/-- A method's name. -/
def Named (name : Text) : Prop := ∃ n ∈ methods, Spells n.toList name

/-- **The lines rule 0 covers**: the method ends, behind a word boundary, in a name the pattern
lists, and the scan of what stands before the query gets to that name. -/
def Covered (u : Unicode) (l : AccessLine) : Prop :=
  ∃ x name, l.before ++ l.method = x ++ name ∧ Named name ∧ (∀ c ∈ x.getLast?, u.word c = false) ∧
    Stops (requestLine u) x (name ++ ' ' :: l.path)

/-- No name ends in another. -/
theorem named_suffix {v w : Text} (hv : Named v) {y : Text} (hw : Named w) (h : v = y ++ w) :
    y = [] := by
  obtain ⟨n, hn, hvn⟩ := hv
  obtain ⟨m, hm, hwm⟩ := hw
  have hfold : n.toList = y.map fold ++ m.toList := by
    rw [← hvn.lower (methods_lower n hn), ← hwm.lower (methods_lower m hm), h, List.map_append]
  have hsuffix : ∀ n ∈ methods, ∀ m ∈ methods, m.toList <:+ n.toList → n = m := by decide
  obtain rfl := hsuffix n hn m hm ⟨_, hfold.symm⟩
  simpa using hfold

theorem Named.solid {w : Text} (h : Named w) : ∀ c ∈ w, isSpace c = false := by
  obtain ⟨n, hn, hspells⟩ := h
  exact hspells.solid (methods_lower n hn)

theorem Named.ne_nil {w : Text} (h : Named w) : w ≠ [] := by
  obtain ⟨n, hn, hspells⟩ := h
  rintro rfl
  have hlength : ∀ n ∈ methods, n.toList ≠ [] := by decide
  exact hlength n hn (List.forall₂_nil_right_iff.mp hspells)

theorem Request.mark_not_mem_protocol (r : Request) : '?' ∉ r.protocol := by
  obtain ⟨name, c, hprotocol, hname, hc⟩ := r.versioned
  rw [hprotocol]
  intro hmem
  rcases List.mem_append.mp hmem with hmem | hmem
  · have hfold := List.mem_map_of_mem (f := fold) hmem
    rw [hname.lower (forall_of_all (by decide))] at hfold
    exact absurd hfold (by decide)
  · rcases List.mem_cons.mp hmem with heq | hmem
    · cases heq
    · rw [← List.mem_singleton.mp hmem] at hc
      cases hc

/-- **A request line that starts before a name ends before the query** of that name's target. -/
theorem Request.before_query {r : Request} {rest y name path z : Text} (hy : y ≠ [])
    (hname : Named name) (hpath : ∀ c ∈ path, isSpace c = false)
    (h : r.text ++ rest = y ++ (name ++ ' ' :: (path ++ '?' :: z))) :
    ∃ rest', y ++ (name ++ ' ' :: path) = r.text ++ rest' := by
  obtain ⟨a, l, hl⟩ := List.eq_nil_or_concat' name |>.resolve_left hname.ne_nil
  have hlast : isSpace l = false := hname.solid l (by simp [hl])
  have hnot : ∀ {w : Text}, (∀ c ∈ w, isSpace c = false) → ' ' ∉ w :=
    fun hw hmem => absurd (hw _ hmem) (by decide)
  have hnot' : ∀ {w : Text}, Blank w → l ∉ w := fun hw hmem => by
    rw [hw.2 l hmem] at hlast
    cases hlast
  -- what is left of the text up to the name ends as the name does
  have hend : ∀ {v c : Text}, y ++ name = v ++ c → c ≠ [] → ∃ c', c = c' ++ [l] := by
    intro v c hc hne
    obtain ⟨c', e, rfl⟩ := List.eq_nil_or_concat' c |>.resolve_left hne
    rw [hl, ← List.append_assoc, ← List.append_assoc] at hc
    have := List.append_inj_right' hc rfl
    exact ⟨c', by rw [this]⟩
  simp only [text, List.append_assoc] at h
  rw [← List.append_assoc y] at h ⊢
  obtain ⟨c, hc, h⟩ := append_of_append (hnot r.method_solid) h
  have hcne : c ≠ [] := by
    rintro rfl
    rw [List.append_nil] at hc
    exact hy (named_suffix r.named hname hc.symm)
  obtain ⟨c, rfl⟩ := hend hc hcne
  rw [List.append_assoc, List.singleton_append] at h
  obtain ⟨d, hd, hrest⟩ := append_of_append (hnot' r.blank) h
  have hshift : ∀ v w : Text, v ++ l :: w = (v ++ [l]) ++ w := by simp
  rw [hshift] at hrest
  obtain ⟨e, he, hrest⟩ := append_of_append (hnot r.target_solid) hrest
  have htarget : y ++ name = r.method ++ (r.sp ++ (r.target ++ e)) := by
    rw [hc, ← he, hd, List.append_assoc]
  by_cases hene : e = []
  · -- the target ends with the name, and the protocol is in the path
    subst hene
    obtain ⟨b, sp, hsp⟩ := List.exists_cons_of_ne_nil r.blank'.1
    rw [hsp, List.nil_append, List.cons_append] at hrest
    obtain ⟨rfl, hpath'⟩ := List.cons.inj hrest
    have hsolid : ∀ c ∈ path ++ ['?'], isSpace c = false := by
      intro c hc
      rcases List.mem_append.mp hc with hc | hc
      · exact hpath c hc
      · rw [List.mem_singleton.mp hc]
        decide
    have hsplit : path ++ '?' :: z = [] ++ ((path ++ ['?']) ++ z) := by simp
    obtain ⟨hnil, hversion⟩ := run_inj (fun c hc => r.blank'.2 c (by simp [hsp, hc])) (by simp)
      (head_append r.protocol_ne_nil r.protocol_solid) (head_append (by simp) hsolid)
      (hpath'.trans hsplit)
    rw [List.append_assoc, List.singleton_append] at hversion
    obtain ⟨g, rfl, -⟩ := append_of_append r.mark_not_mem_protocol hversion
    exact ⟨g, by simp [text, htarget, hsp, hnil]⟩
  · obtain ⟨e, rfl⟩ := hend (v := r.method ++ (r.sp ++ r.target)) (by simp [htarget]) hene
    rw [List.append_assoc, List.singleton_append] at hrest
    obtain ⟨f, hf, hversion⟩ := append_of_append (hnot' r.blank') hrest
    rw [hshift] at hversion
    obtain ⟨g, hg, -⟩ := append_of_append (hnot r.protocol_solid) hversion
    refine ⟨g ++ ' ' :: path, ?_⟩
    rw [htarget, hf, List.append_assoc r.sp', hg]
    simp [text]

/-- A name starts a word. -/
theorem Named.word {w : Text} (h : Named w) (v : Text) : (w ++ v).head?.any u.word = true := by
  obtain ⟨n, hn, hspells⟩ := h
  have hfirst : ∀ n ∈ methods, ∃ c ∈ "gpdho".toList, ∃ cs, n.toList = c :: cs := by
    simp [methods]
  obtain ⟨c, hc, cs, hcs⟩ := hfirst n hn
  rw [hcs] at hspells
  cases hspells with
  | @cons _ d _ w hd hspells =>
    have hletter : ∀ c ∈ "gpdho".toList, 0x61 ≤ c.toNat ∧ c.toNat ≤ 0x7a ∧ c ≠ 'i' ∧ c ≠ 's' ∧
        c ≠ 'k' := forall_of_all (by decide)
    obtain ⟨hlow, hhigh, hi, hs, hk⟩ := hletter c hc
    have hd : d.toLower = c := by
      rcases caseless_cases hd with hd | ⟨hc, -⟩ | ⟨hc, -⟩ | ⟨hc, -⟩
      · exact hd
      · exact absurd hc hi
      · exact absurd hc hs
      · exact absurd hc hk
    have hrange : 0x41 ≤ d.toNat ∧ d.toNat ≤ 0x5a ∨ 0x61 ≤ d.toNat ∧ d.toNat ≤ 0x7a := by
      rcases toLower_cases d with hd' | hd'
      · exact .inl ⟨hd'.1, hd'.2.1⟩
      · rw [← hd', hd]
        exact .inr ⟨hlow, hhigh⟩
    have halnum : d.isAlphanum = true := by
      have htoNat : d.toNat = d.val.toNat := rfl
      show ((decide ('A'.val ≤ d.val ∧ d.val ≤ 'Z'.val) ||
        (decide ('a'.val ≤ d.val) && decide (d.val ≤ 'z'.val))) || d.isDigit) = true
      simp only [Bool.or_eq_true, Bool.and_eq_true, decide_eq_true_eq, UInt32.le_iff_toNat_le]
      rcases hrange with hrange | hrange
      · exact .inl (.inl (by simpa [← htoNat] using hrange))
      · exact .inl (.inr (by simpa [← htoNat] using hrange))
    show u.word d = true
    rw [Unicode.word, u.ascii d (by omega), halnum]
    rfl

/-- The query and what is behind it. -/
def AccessLine.rest (l : AccessLine) (query : Text) : Text :=
  '?' :: (query ++ ' ' :: ("HTTP/".toList ++ [l.major, '.', l.minor] ++ l.behind))

theorem AccessLine.text_eq {l : AccessLine} {x name : Text} (h : l.before ++ l.method = x ++ name)
    (query : Text) : l.text query = x ++ (name ++ ' ' :: (l.path ++ l.rest query)) := by
  rw [text, h, rest]
  simp

/-- The scan of a line finds the same in front of the name, whatever the query. -/
theorem AccessLine.found_before {l : AccessLine} {name y : Text} (hname : Named name) (hy : y ≠ [])
    (prev : Option Char) (query : Text) :
    found (requestLine u) prev (y ++ (name ++ ' ' :: (l.path ++ l.rest query))) =
      found (requestLine u) prev (y ++ (name ++ ' ' :: l.path)) := by
  have hhead : ∀ w : Text, (y ++ w).head? = y.head? := by
    intro w
    obtain ⟨c, y, rfl⟩ := List.exists_cons_of_ne_nil hy
    rfl
  refine Option.ext fun m => ?_
  rw [found_requestLine, found_requestLine, hhead, hhead]
  refine and_congr_right fun _ => exists_congr fun r => ⟨?_, ?_⟩
  · rintro ⟨rest, htext, hm⟩
    obtain ⟨rest', htext'⟩ :=
      Request.before_query hy hname (fun c hc => (l.solid c hc).1) htext.symm
    exact ⟨rest', htext', hm⟩
  · rintro ⟨rest, htext, hm⟩
    refine ⟨rest ++ l.rest query, ?_, hm⟩
    rw [← List.append_assoc r.text, ← htext]
    simp

/-- The hit at the name of a covered line is its request line, and its query is dropped. -/
theorem AccessLine.found_at {l : AccessLine} {name : Text} (hname : Named name) {prev : Option Char}
    (hprev : ∀ c ∈ prev, u.word c = false) {query : Text}
    (hquery : ∀ c ∈ query, isSpace c = false) :
    ∃ m, found (requestLine u) prev (name ++ ' ' :: (l.path ++ l.rest query)) = some m ∧
      name ++ ' ' :: (l.path ++ l.rest query) = m.text ++ '.' :: l.minor :: l.behind ∧
      m.text.getLast? = some l.major ∧
      maskRequestTargetQuery m = name ++ ' ' :: (l.path ++ queryMark ++ ' ' :: ("HTTP/".toList ++ [l.major])) := by
  have hspells : Spells "http".toList "HTTP".toList := by
    simp only [Spells]
    decide
  have hblank : Blank [' '] := ⟨List.cons_ne_nil _ _, forall_of_all (by decide)⟩
  have hsolid : ∀ c ∈ l.path ++ '?' :: query, isSpace c = false := by
    intro c hc
    rcases List.mem_append.mp hc with hc | hc
    · exact (l.solid c hc).1
    · rcases List.mem_cons.mp hc with rfl | hc
      · decide
      · exact hquery c hc
  let r : Request :=
    { method := name
      sp := [' ']
      target := l.path ++ '?' :: query
      sp' := [' ']
      protocol := "HTTP".toList ++ ['/', l.major]
      named := hname
      blank := hblank
      solid := ⟨by simp, fun c hc => by rw [hsolid c hc]; rfl⟩
      blank' := hblank
      versioned := ⟨_, _, rfl, hspells, decimal_of_asciiDigit l.version.1⟩ }
  have hquestion : (l.path ++ '?' :: query).contains '?' = true := by simp
  have hpath : (l.path ++ '?' :: query).takeWhile (· ≠ '?') = l.path := by
    rw [List.takeWhile_append_of_pos fun c hc => by simpa using (l.solid c hc).2]
    simp
  refine ⟨⟨r.text, r.groups⟩, found_requestLine.mpr ⟨?_, r, '.' :: l.minor :: l.behind, ?_, rfl⟩,
    ?_, ?_, ?_⟩
  · rw [hname.word]
    cases prev with
    | none => simp
    | some c => simp [hprev c rfl]
  · simp [r, Request.text, AccessLine.rest]
  · simp [r, Request.text, AccessLine.rest]
  · have hend : r.text = (name ++ ' ' :: (l.path ++ '?' :: query) ++ ' ' :: "HTTP/".toList) ++
        [l.major] := by simp [r, Request.text]
    rw [hend, List.getLast?_concat]
  · have hmask : maskRequestTargetQuery ⟨r.text, r.groups⟩ =
        if r.target.contains '?' then
          r.method ++ r.sp ++ (r.target.takeWhile (· ≠ '?') ++ queryMark) ++ (r.sp' ++ r.protocol)
        else r.text := rfl
    rw [hmask, if_pos hquestion]
    simp only [r, hpath]
    simp

/-- A covered line comes out of rule 0 the same whatever the query. -/
theorem maskQueries_covered {l : AccessLine} (h : Covered u l) :
    ∃ out, ∀ query, (∀ c ∈ query, isSpace c = false) → maskQueries u (l.text query) = out := by
  obtain ⟨x, name, hx, hname, hprev, hstops⟩ := h
  obtain ⟨ps, -, hps⟩ := scan_of_found hstops
  refine ⟨ps.flatMap (Piece.out maskRequestTargetQuery) ++
    (name ++ ' ' :: (l.path ++ queryMark ++ ' ' :: ("HTTP/".toList ++ [l.major])) ++
    (scanFrom (requestLine u) ('.' :: l.minor :: l.behind).length (some l.major)
      ('.' :: l.minor :: l.behind)).flatMap (Piece.out maskRequestTargetQuery)), ?_⟩
  intro query hquery
  have hscan := hps (name ++ ' ' :: (l.path ++ l.rest query)) fun prev x' y _ hy =>
    AccessLine.found_before hname hy prev query
  obtain ⟨m, hfound, htext, hlast, hout⟩ :=
    AccessLine.found_at (l := l) hname hprev hquery
  obtain ⟨rest, hrest, -, hgo⟩ := scanFrom_of_found hfound
  have hbehind : rest = '.' :: l.minor :: l.behind :=
    List.append_cancel_left (hrest.symm.trans htext)
  rw [maskQueries, sub, AccessLine.text_eq hx, hscan, hgo, List.flatMap_append, List.flatMap_cons,
    hbehind, hlast, ← hout]
  rfl

/-- **The query of a covered line leaves no trace.** -/
theorem query_dropped {u : Unicode} {l : AccessLine} (h : Covered u l) {q₁ q₂ : Text}
    (h₁ : ∀ c ∈ q₁, isSpace c = false) (h₂ : ∀ c ∈ q₂, isSpace c = false) :
    redact u (l.text q₁) = redact u (l.text q₂) := by
  obtain ⟨out, hout⟩ := maskQueries_covered h
  rw [redact, redact, hout q₁ h₁, hout q₂ h₂]

/-- `GET /a? HTTP/1.1` -/
def getLine : AccessLine where
  before := []
  method := "GET".toList
  path := "/a".toList
  major := '1'
  minor := '1'
  behind := []
  token := ⟨by decide, forall_of_all (by decide)⟩
  solid := forall_of_all (by decide)
  version := by decide

theorem get_query_dropped :
    redact asciiUnicode (getLine.text "x".toList) = redact asciiUnicode (getLine.text "y".toList) :=
  query_dropped (l := getLine)
    ⟨[], "GET".toList, rfl, ⟨"get", by decide, by simp only [Spells]; decide⟩, by simp, [], _, rfl, rfl⟩
    (forall_of_all (by decide)) (forall_of_all (by decide))

/-- **A method that is not listed**: the query of `TRACE /a?x HTTP/1.1` stays in the line. -/
theorem trace_query_logged : ∃ (u : Unicode) (l : AccessLine) (q₁ q₂ : Text),
    (∀ c ∈ q₁, isSpace c = false) ∧ (∀ c ∈ q₂, isSpace c = false) ∧
      redact u (l.text q₁) ≠ redact u (l.text q₂) :=
  ⟨asciiUnicode, { getLine with
      method := "TRACE".toList
      token := ⟨by decide, forall_of_all (by decide)⟩ },
    "x".toList, "y".toList, forall_of_all (by decide), forall_of_all (by decide), by decide +kernel⟩

end Meridian.Redactor
