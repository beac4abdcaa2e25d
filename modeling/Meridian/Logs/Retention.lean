import Mathlib.Order.Interval.Finset.Defs
import Mathlib.Data.Int.Interval
import Meridian.Logs.Handler
import Meridian.Python.IsoOrder

/-!
# What a service's log keeps

Rotation at midnight makes a file hold the lines of one day (`Filed`), so disposing of files by
their dates disposes of lines by theirs. The bound on the number of backups disposes of nothing more
(`oldestBackups_expired`): thirty backups of different days before today are of thirty days.

* `Kept` is the invariant: what the files hold is what was emitted since a day, and that day is
  thirty days before the active file's or later.
* `kept_exactly`: after every record, and after a start, it is thirty days before today.
* `others_untouched`: and files that are not the log's are as their owners left them.
-/

namespace Meridian.Logs

open Python

/-! ## Directories -/

namespace Directory

variable {d : Directory} {name : Text} {file : LogFile}

theorem mem_names : name ∈ d.names ↔ ∃ file, (name, file) ∈ d.entries := by
  simp [names]

/-- A name has one file. -/
theorem stat_eq_some : d.stat name = some file ↔ (name, file) ∈ d.entries := by
  have hunique : ∀ e ∈ d.entries, ∀ e' ∈ d.entries, e.1 = e'.1 → e = e' := fun e he e' he' =>
    List.inj_on_of_nodup_map d.nodup he he'
  unfold stat
  constructor
  · intro h
    obtain ⟨e, he, rfl⟩ := Option.map_eq_some_iff.mp h
    have hname : e.1 = name := by simpa using List.find?_some he
    exact hname ▸ List.mem_of_find?_eq_some he
  · intro h
    cases hf : d.entries.find? fun e => decide (e.1 = name) with
    | none => simpa using List.find?_eq_none.mp hf _ h
    | some e =>
      have hname : e.1 = name := by simpa using List.find?_some hf
      rw [hunique e (List.mem_of_find?_eq_some hf) _ h hname]
      rfl

theorem stat_eq_none : d.stat name = none ↔ name ∉ d.names := by
  rw [Option.eq_none_iff_forall_ne_some, mem_names, not_exists]
  exact forall_congr' fun file => not_congr stat_eq_some

@[simp] theorem mem_remove {gone : List Text} {e : Text × LogFile} :
    e ∈ (d.remove gone).entries ↔ e ∈ d.entries ∧ e.1 ∉ gone := by
  simp [remove]

theorem mem_write {line : Line} {e : Text × LogFile} : e ∈ (d.write name line).entries ↔
    ∃ e' ∈ d.entries, e = (e'.1, if e'.1 = name then ⟨line :: e'.2.lines, line.writtenAt⟩
      else e'.2) := by
  simp [write, modify, eq_comm]

theorem mem_rename {source : Text} (h : name ∉ d.names) {e : Text × LogFile} :
    e ∈ (d.rename source name h).entries ↔
      ∃ e' ∈ d.entries, e = (if e'.1 = source then name else e'.1, e'.2) := by
  simp [rename, eq_comm]

theorem mem_openAppend {now : Instant} {e : Text × LogFile}
    (h : e ∈ (d.openAppend name now).entries) :
    e ∈ d.entries ∨ name ∉ d.names ∧ e = (name, ⟨[], now⟩) := by
  unfold openAppend at h
  split at h
  · exact .inl h
  · rename_i hnew
    rcases List.mem_cons.mp h with rfl | h
    · exact .inr ⟨hnew, rfl⟩
    · exact .inl h

theorem mem_names_openAppend {now : Instant} : name ∈ (d.openAppend name now).names := by
  unfold openAppend
  split
  · assumption
  · exact List.mem_cons_self

end Directory

section Log

variable {base : Text}

/-! ## Names -/

theorem suffix?_eq_some {name t : Text} :
    suffix? base name = some t ↔ name = base ++ '.' :: t := by
  simp only [suffix?, List.isPrefixOf_iff_prefix]
  constructor
  · intro h
    split at h
    · rename_i hpre
      obtain ⟨u, rfl⟩ := hpre
      cases h
      simp
    · cases h
  · rintro rfl
    rw [if_pos ⟨t, by simp⟩]
    simp

@[simp] theorem suffix?_base : suffix? base base = none := by
  rw [Option.eq_none_iff_forall_ne_some]
  intro t h
  have := congrArg List.length (suffix?_eq_some.mp h)
  simp at this

@[simp] theorem suffix?_backupName (n : ℤ) : suffix? base (backupName base n) = some (isoDate n) :=
  suffix?_eq_some.mpr rfl

theorem backupName_ne (n : ℤ) : backupName base n ≠ base := by
  intro h
  have hsome : suffix? base (backupName base n) = some (isoDate n) := suffix?_backupName n
  rw [h, suffix?_base] at hsome
  cases hsome

@[simp] theorem ours_base : ours base base = true := by simp [ours]

@[simp] theorem ours_backupName (n : ℤ) : ours base (backupName base n) = true := by simp [ours]

/-- The day of a backup, read off its name. -/
theorem stamped_backupName {n : ℤ} (h : 1 ≤ n) (h' : n ≤ maxOrdinal) :
    (suffix? base (backupName base n)).bind parseDate = some n := by
  rw [suffix?_backupName]
  exact parseDate_isoDate h h'

theorem backupName_inj {n m : ℤ} (hn : 1 ≤ n) (hn' : n ≤ maxOrdinal) (hm : 1 ≤ m)
    (hm' : m ≤ maxOrdinal) (h : backupName base n = backupName base m) : n = m := by
  have hday : (suffix? base (backupName base n)).bind parseDate = some n :=
    stamped_backupName hn hn'
  rw [h, stamped_backupName hm hm'] at hday
  exact (Option.some.inj hday).symm

/-- Backups sort by their days. -/
theorem lt_of_backupName_lt {n m : ℤ} (hn : n ≤ maxOrdinal) (hm : 1 ≤ m)
    (h : backupName base n < backupName base m) : n < m := by
  by_contra hle
  rcases lt_or_eq_of_le (not_lt.mp hle) with hlt | rfl
  · refine lt_asymm h (append_lt_append base (List.cons_lt_cons_iff.mpr (.inr ⟨rfl, ?_⟩)))
    exact isoDate_lt hm hn hlt
  · exact lt_irrefl _ h

/-! ## What the files hold -/

/-- Disposing of files whose lines a condition drops leaves what it keeps. -/
theorem held_remove {d : Directory} {gone : List Text} {q : Line → Bool}
    (h : ∀ e ∈ d.entries, ours base e.1 = true → e.1 ∈ gone → ∀ l ∈ e.2.lines, q l = false) :
    (held base (d.remove gone)).filter q = (held base d).filter q := by
  unfold held Directory.remove
  dsimp only
  revert h
  induction d.entries with
  | nil => intro _; rfl
  | cons e es ih =>
    intro h
    have ih := ih fun e he => h e (List.mem_cons_of_mem _ he)
    by_cases hgone : e.1 ∈ gone
    · have hnone : (if ours base e.1 then e.2.lines else []).filter q = [] := by
        by_cases hours : ours base e.1 = true
        · rw [if_pos hours, List.filter_eq_nil_iff]
          intro l hl
          simp [h e List.mem_cons_self hours hgone l hl]
        · rw [if_neg hours]
          rfl
      rw [List.filter_cons_of_neg (by simpa using hgone), List.flatMap_cons, List.filter_append, ih,
        hnone, List.nil_append]
    · rw [List.filter_cons_of_pos (by simpa using hgone), List.flatMap_cons, List.flatMap_cons,
        List.filter_append, List.filter_append, ih]

theorem held_create {d : Directory} {name : Text} {file : LogFile} (h : name ∉ d.names)
    (hempty : ours base name = true → file.lines = []) :
    held base (d.create name file h) = held base d := by
  unfold held Directory.create
  rw [List.flatMap_cons]
  by_cases hours : ours base name = true
  · rw [if_pos hours, hempty hours, List.nil_append]
  · rw [if_neg hours, List.nil_append]

theorem held_openAppend (d : Directory) (name : Text) (now : Instant) :
    held base (d.openAppend name now) = held base d := by
  unfold Directory.openAppend
  split
  · rfl
  · exact held_create _ fun _ => rfl

theorem held_rename {d : Directory} {source dest : Text} (h : dest ∉ d.names)
    (hs : ours base source = true) (hd : ours base dest = true) :
    held base (d.rename source dest h) = held base d := by
  unfold held Directory.rename
  rw [List.flatMap_map]
  congr 1
  funext e
  by_cases he : e.1 = source
  · simp [he, hs, hd]
  · simp [he]

theorem held_put (d : Directory) (name : {name : Text // ours base name = false})
    (file : Option LogFile) : held base (d.put name file) = held base d := by
  have hremove : held base (d.remove [name.1]) = held base d := by
    have hkeep := @held_remove base d [name.1] (fun _ => true) ?_
    · simpa using hkeep
    · intro e _ hours hgone
      rw [List.mem_singleton.mp hgone, name.2] at hours
      cases hours
  cases file with
  | none => exact hremove
  | some file =>
    unfold Directory.put
    rw [held_create _ fun hours => ?_, hremove]
    rw [name.2] at hours
    cases hours

/-- A line written to the active file is one more. -/
theorem held_write {d : Directory} (h : base ∈ d.names) (line : Line) :
    (held base (d.write base line)).Perm (line :: held base d) := by
  obtain ⟨entries, hnodup⟩ := d
  unfold held Directory.write Directory.modify
  unfold Directory.names at h
  dsimp only at h ⊢
  induction entries with
  | nil => cases h
  | cons e es ih =>
    rw [List.map_cons, List.nodup_cons] at hnodup
    rw [List.map_cons, List.flatMap_cons, List.flatMap_cons]
    by_cases hbase : e.1 = base
    · -- no other entry is the active file
      have hrest : es.map (fun e => (e.1, if e.1 = base then
          (⟨line :: e.2.lines, line.writtenAt⟩ : LogFile) else e.2)) = es := by
        refine (List.map_congr_left fun e' he' => ?_).trans (List.map_id es)
        have hne : e'.1 ≠ base := fun heq =>
          hnodup.1 (hbase ▸ heq ▸ List.mem_map_of_mem (f := Prod.fst) he')
        simp [hne]
      rw [hrest]
      simp [hbase]
    · have hin : base ∈ es.map Prod.fst := by
        rcases List.mem_cons.mp h with heq | hin
        · exact absurd heq.symm hbase
        · exact hin
      simp only [if_neg hbase]
      exact ((ih hnodup.2 hin).append_left _).trans List.perm_middle

/-! ## Files by day -/

/-- A file of the log holds the lines of one day: the active file those of `active`, a backup those
of the earlier day it is named by. -/
structure Filed (base : Text) (active : ℤ) (d : Directory) : Prop where
  current : ∀ file, (base, file) ∈ d.entries →
    file.mtime.day = active ∧ ∀ l ∈ file.lines, l.day = active
  backup : ∀ e ∈ d.entries, ours base e.1 = true → e.1 ≠ base →
    ∃ n, e.1 = backupName base n ∧ 1 ≤ n ∧ n < active ∧ ∀ l ∈ e.2.lines, l.day = n

namespace Filed

variable {active : ℤ} {d : Directory} {now : Instant}

theorem remove (h : Filed base active d) (gone : List Text) : Filed base active (d.remove gone) :=
  ⟨fun file hfile => h.current file (Directory.mem_remove.mp hfile).1,
    fun e he => h.backup e (Directory.mem_remove.mp he).1⟩

/-- Without an active file, its day can be a later one. -/
theorem later (h : Filed base active d) (hnone : base ∉ d.names) {active' : ℤ}
    (hle : active ≤ active') : Filed base active' d := by
  refine ⟨fun file hfile => absurd (Directory.mem_names.mpr ⟨file, hfile⟩) hnone, ?_⟩
  intro e he hours hne
  obtain ⟨n, hname, hpos, hlt, hlines⟩ := h.backup e he hours hne
  exact ⟨n, hname, hpos, hlt.trans_le hle, hlines⟩

theorem openAppend (h : Filed base active d) (hnew : base ∉ d.names → now.day = active) :
    Filed base active (d.openAppend base now) := by
  constructor
  · intro file hfile
    rcases Directory.mem_openAppend hfile with hfile | ⟨hnone, heq⟩
    · exact h.current file hfile
    · obtain rfl := (Prod.mk.inj heq).2
      exact ⟨hnew hnone, by simp⟩
  · intro e he hours hne
    rcases Directory.mem_openAppend he with he | ⟨-, rfl⟩
    · exact h.backup e he hours hne
    · exact absurd rfl hne

/-- The active file becomes the backup of its day. -/
theorem rename (h : Filed base active d) (hpos : 1 ≤ active)
    (hfree : backupName base active ∉ d.names) {active' : ℤ} (hlt : active < active') :
    Filed base active' (d.rename base (backupName base active) hfree) := by
  constructor
  · intro file hfile
    obtain ⟨e, -, heq⟩ := (Directory.mem_rename hfree).mp hfile
    have hname := (Prod.mk.inj heq).1
    by_cases hbase : e.1 = base
    · rw [if_pos hbase] at hname
      exact absurd hname.symm (backupName_ne active)
    · rw [if_neg hbase] at hname
      exact absurd hname.symm hbase
  · intro e he hours hne
    obtain ⟨e, hin, rfl⟩ := (Directory.mem_rename hfree).mp he
    by_cases hbase : e.1 = base
    · refine ⟨active, if_pos hbase, hpos, hlt, (h.current e.2 ?_).2⟩
      rwa [← hbase]
    · simp only [if_neg hbase] at hours
      obtain ⟨n, hname, hn, hbefore, hlines⟩ := h.backup e hin hours hbase
      exact ⟨n, (if_neg hbase).trans hname, hn, hbefore.trans hlt, hlines⟩

theorem write (h : Filed base active d) {line : Line} (hline : line.day = active) :
    Filed base active (d.write base line) := by
  constructor
  · intro file hfile
    obtain ⟨e, he, heq⟩ := Directory.mem_write.mp hfile
    obtain ⟨hname, hfile⟩ := Prod.mk.inj heq
    rw [if_pos hname.symm] at hfile
    subst hfile
    refine ⟨hline, fun l hl => ?_⟩
    rcases List.mem_cons.mp hl with rfl | hl
    · exact hline
    · exact (h.current e.2 (hname ▸ he)).2 l hl
  · intro e he hours hne
    obtain ⟨e, hin, rfl⟩ := Directory.mem_write.mp he
    dsimp only at hours hne ⊢
    rw [if_neg hne]
    exact h.backup e hin hours hne

theorem put (h : Filed base active d) (name : {name : Text // ours base name = false})
    (file : Option LogFile) : Filed base active (d.put name file) := by
  have hremove := h.remove [name.1]
  cases file with
  | none => exact hremove
  | some file =>
    have hnot : ∀ {n}, ours base n = true → n ≠ name.1 := by
      rintro n hours rfl
      rw [name.2] at hours
      cases hours
    constructor
    · intro file' hfile
      rcases List.mem_cons.mp hfile with heq | hfile
      · exact absurd (Prod.mk.inj heq).1 (hnot ours_base)
      · exact hremove.current file' hfile
    · intro e he hours hne
      rcases List.mem_cons.mp he with rfl | he
      · exact absurd rfl (hnot hours)
      · exact hremove.backup e he hours hne

end Filed

/-! ## Disposal -/

section Disposal

variable {active : ℤ} {d : Directory} {now : Instant} {name : Text}

theorem mem_expiredFiles : name ∈ expiredFiles base now d ↔ name ∈ d.names ∧
    ∃ n, (suffix? base name).bind parseDate = some n ∧ n ≤ retentionCutoff now := by
  unfold expiredFiles
  rw [List.mem_filter]
  refine and_congr_right fun _ => ?_
  cases (suffix? base name).bind parseDate <;> simp

theorem base_not_expired : base ∉ expiredFiles base now d := by
  rw [mem_expiredFiles, suffix?_base]
  simp

/-- A backup expires by the day it is named by. -/
theorem backupName_expired {n : ℤ} (hpos : 1 ≤ n) (hmax : n ≤ maxOrdinal)
    (hin : backupName base n ∈ d.names) :
    backupName base n ∈ expiredFiles base now d ↔ n ≤ retentionCutoff now := by
  rw [mem_expiredFiles, stamped_backupName hpos hmax]
  simp [hin]

/-- **The bound on the number of backups** disposes of expired ones only. -/
theorem oldestBackups_expired (h : Filed base active d) (hactive : active ≤ now.day)
    (hname : name ∈ oldestBackups base d) : name ∈ expiredFiles base now d := by
  have hmax := now.day_range.2
  unfold oldestBackups at hname
  dsimp only at hname
  split at hname
  · cases hname
  rename_i hlen
  generalize hresult : d.names.filter (fun name => (suffix? base name).any extMatch) = result
    at hname hlen
  have hbackup : ∀ x ∈ result, ∃ n, x = backupName base n ∧ 1 ≤ n ∧ n < active ∧ x ∈ d.names := by
    intro x hx
    rw [← hresult, List.mem_filter] at hx
    obtain ⟨hin, hmatch⟩ := hx
    cases hsuffix : suffix? base x with
    | none => simp [hsuffix] at hmatch
    | some t =>
      have hours : ours base x = true := by simp [ours, hsuffix]
      have hne : x ≠ base := fun heq => by simp [heq] at hsuffix
      obtain ⟨file, hfile⟩ := Directory.mem_names.mp hin
      obtain ⟨n, hn, hpos, hlt, -⟩ := h.backup _ hfile hours hne
      exact ⟨n, hn, hpos, hlt, hin⟩
  obtain ⟨n, rfl, hpos, hlt, hin⟩ := hbackup name
    ((mem_sortBy id).mp (List.mem_of_mem_take hname))
  rw [backupName_expired hpos (by omega) hin]
  -- thirty backups come after it, of as many days before the active file's
  have hnodup : result.Nodup := hresult ▸ d.nodup.filter _
  have hsorted : (sortBy id result).Pairwise fun x y => x < y :=
    sortBy_strict hnodup fun _ _ _ _ heq => heq
  generalize hkept : (sortBy id result).drop (result.length - logRetentionDays) = kept
  have hparts : (sortBy id result).take (result.length - logRetentionDays) ++ kept =
      sortBy id result := by rw [← hkept, List.take_append_drop]
  rw [← hparts, List.pairwise_append] at hsorted
  have hdays : ∀ x ∈ kept, ∃ m, n < m ∧ m < active ∧ x = backupName base m := by
    intro x hx
    have hmem : x ∈ sortBy id result := hparts ▸ List.mem_append_right _ hx
    obtain ⟨m, rfl, hm, hlt', -⟩ := hbackup x ((mem_sortBy id).mp hmem)
    exact ⟨m, lt_of_backupName_lt (by omega) hm (hsorted.2.2 _ hname _ hx), hlt', rfl⟩
  choose! day hlo hhi hbackupName using hdays
  have hdistinct : (kept.map day).Nodup := by
    refine List.Nodup.map_on (fun x hx y hy heq => ?_) (hsorted.2.1.imp fun h => ne_of_lt h)
    rw [hbackupName x hx, heq, ← hbackupName y hy]
  have hsub : (kept.map day).toFinset ⊆ Finset.Ioo n active := by
    intro m hm
    obtain ⟨x, hx, rfl⟩ := List.mem_map.mp (List.mem_toFinset.mp hm)
    exact Finset.mem_Ioo.mpr ⟨hlo x hx, hhi x hx⟩
  have hcard := Finset.card_le_card hsub
  rw [List.toFinset_card_of_nodup hdistinct, List.length_map, Int.card_Ioo, ← hkept,
    List.length_drop, (sortBy_perm id result).length_eq] at hcard
  unfold retentionCutoff
  unfold logRetentionDays at *
  omega

theorem mem_getFilesToDelete (h : Filed base active d) (hactive : active ≤ now.day) :
    name ∈ getFilesToDelete base now d ↔ name ∈ expiredFiles base now d := by
  unfold getFilesToDelete
  rw [mem_sortBy, List.mem_dedup, List.mem_append]
  exact ⟨fun hname => hname.elim (oldestBackups_expired h hactive) id, .inr⟩

/-- **Disposing of expired files** leaves the lines of the days since. -/
theorem Filed.held_dispose (h : Filed base active d) (hactive : active ≤ now.day)
    (hcut : retentionCutoff now < active) {gone : List Text}
    (hgone : ∀ name, name ∈ gone ↔ name ∈ expiredFiles base now d) :
    held base (d.remove gone) =
      (held base d).filter fun l => decide (retentionCutoff now < l.day) := by
  have hmax := now.day_range.2
  rw [← @held_remove base d gone]
  · -- what stays is of a later day
    symm
    rw [List.filter_eq_self]
    intro l hl
    obtain ⟨e, he, hl⟩ := List.mem_flatMap.mp hl
    obtain ⟨hin, hstays⟩ := Directory.mem_remove.mp he
    split at hl
    · rename_i hours
      rw [decide_eq_true_eq]
      by_cases hbase : e.1 = base
      · rw [(h.current e.2 (hbase ▸ hin)).2 l hl]
        exact hcut
      · obtain ⟨n, hname, hpos, hlt, hlines⟩ := h.backup e hin hours hbase
        rw [hlines l hl]
        by_contra hle
        refine hstays ((hgone _).mpr ?_)
        rw [hname]
        refine (backupName_expired hpos (by omega) ?_).mpr (not_lt.mp hle)
        exact hname ▸ Directory.mem_names.mpr ⟨e.2, hin⟩
    · cases hl
  · -- what goes is not
    intro e hin hours hname l hl
    have hexpired := (hgone _).mp hname
    have hbase : e.1 ≠ base := fun heq => base_not_expired (heq ▸ hexpired)
    obtain ⟨n, hname, hpos, hlt, hlines⟩ := h.backup e hin hours hbase
    rw [hname, backupName_expired hpos (by omega)
      (hname ▸ Directory.mem_names.mpr ⟨e.2, hin⟩)] at hexpired
    rw [hlines l hl]
    simpa using hexpired

end Disposal

/-! ## The handler -/

/-- The handler is due at the midnight that ends this day. -/
structure Due (h : Handler) (active : ℤ) : Prop where
  day : dayOf h.rolloverAt = active + 1
  midnight : h.rolloverAt % 86400 = 0
  pos : 86400 ≤ h.rolloverAt

theorem due_computeRollover (t : ℕ) : Due ⟨computeRollover t⟩ (dayOf t) := by
  have hnext : computeRollover t = (t / 86400 + 1) * 86400 := by
    unfold computeRollover
    dsimp only
    omega
  constructor
  · unfold dayOf
    dsimp only
    omega
  · dsimp only
    omega
  · dsimp only
    omega

namespace Due

variable {h : Handler} {active : ℤ}

theorem iff (hdue : Due h active) (now : Instant) :
    h.rolloverAt ≤ now.seconds ↔ active < now.day := by
  have hday := hdue.day
  have hmidnight := hdue.midnight
  unfold Instant.day
  unfold dayOf at *
  omega

theorem last (hdue : Due h active) : dayOf (h.rolloverAt - 86400) = active ∧ 1 ≤ active := by
  have hday := hdue.day
  have hpos := hdue.pos
  unfold dayOf at *
  omega

end Due

/-- What the files of the log hold is what was emitted after `cut`, which is thirty days before the
active file's day or later. -/
structure Kept (base : Text) (lines : List Line) (active cut : ℤ) (w : World) : Prop where
  filed : Filed base active w.directory
  today : active ≤ w.clock.day
  lower : active - logRetentionDays ≤ cut
  upper : cut ≤ retentionCutoff w.clock
  held : (held base w.directory).Perm (lines.filter fun l => decide (cut < l.day))
  handler : ∀ h, w.handler = some h → base ∈ w.directory.names ∧ Due h active

section Steps

variable {lines : List Line} {active cut : ℤ} {w : World} {h : Handler}

/-- What is held of the days after a later one is what was emitted then. -/
theorem Kept.held_later (hk : Kept base lines active cut w) {cut' : ℤ} (hle : cut ≤ cut') :
    ((Logs.held base w.directory).filter fun l => decide (cut' < l.day)).Perm
      (lines.filter fun l => decide (cut' < l.day)) := by
  have htwice : (lines.filter fun l => decide (cut < l.day)).filter
      (fun l => decide (cut' < l.day)) = lines.filter fun l => decide (cut' < l.day) := by
    rw [List.filter_filter]
    refine List.filter_congr fun l _ => ?_
    by_cases hl : cut' < l.day
    · simp [hl, hle.trans_lt hl]
    · simp [hl]
  rw [← htwice]
  exact hk.held.filter _

/-- The active file is disposed of with its last day. -/
theorem Kept.disposeOverdue (hk : Kept base lines active cut w) :
    ∃ active', active' ≤ w.clock.day ∧ retentionCutoff w.clock < active' ∧
      Filed base active' (disposeOverdueActiveFile base w.clock w.directory) ∧
      (base ∉ (disposeOverdueActiveFile base w.clock w.directory).names → w.clock.day = active') ∧
      (Logs.held base (disposeOverdueActiveFile base w.clock w.directory)).filter
          (fun l => decide (retentionCutoff w.clock < l.day)) =
        (Logs.held base w.directory).filter fun l => decide (retentionCutoff w.clock < l.day) := by
  have htoday : retentionCutoff w.clock < w.clock.day := by
    unfold retentionCutoff logRetentionDays
    omega
  unfold disposeOverdueActiveFile
  cases hstat : w.directory.stat base with
  | none =>
    have hnone := Directory.stat_eq_none.mp hstat
    exact ⟨w.clock.day, le_rfl, htoday, hk.filed.later hnone hk.today, fun _ => rfl, rfl⟩
  | some file =>
    have hfile := Directory.stat_eq_some.mp hstat
    obtain ⟨hday, hlines⟩ := hk.filed.current file hfile
    dsimp only
    rw [hday]
    by_cases hrecent : retentionCutoff w.clock < active
    · rw [if_pos hrecent]
      refine ⟨active, hk.today, hrecent, hk.filed, fun hnone => ?_, rfl⟩
      exact absurd (Directory.mem_names.mpr ⟨file, hfile⟩) hnone
    · rw [if_neg hrecent]
      have hgone : base ∉ (w.directory.remove [base]).names := by
        simp [Directory.names, Directory.remove]
      refine ⟨w.clock.day, le_rfl, htoday, (hk.filed.remove _).later hgone hk.today, fun _ => rfl,
        held_remove ?_⟩
      intro e he _ hname l hl
      rw [List.mem_singleton] at hname
      rw [(hk.filed.current e.2 (hname ▸ he)).2 l hl]
      simpa using hrecent

/-- **A start** disposes of every line of an expired day. -/
theorem Kept.makeHandler (hk : Kept base lines active cut w) :
    ∃ active', Kept base lines active' (retentionCutoff w.clock) (w.makeHandler base) := by
  obtain ⟨active', htoday, hcut, hfiled, hnew, hheld⟩ := hk.disposeOverdue
  unfold World.makeHandler
  generalize disposeOverdueActiveFile base w.clock w.directory = d at *
  have hopened := hfiled.openAppend hnew
  have hin : base ∈ (d.openAppend base w.clock).names := Directory.mem_names_openAppend
  obtain ⟨file, hfile⟩ := Directory.mem_names.mp hin
  have hstat := Directory.stat_eq_some.mpr hfile
  refine ⟨active', hopened.remove _, htoday, ?_, le_rfl, ?_, fun h hh => ?_⟩
  · unfold retentionCutoff
    omega
  · dsimp only
    rw [hopened.held_dispose htoday hcut fun _ => Iff.rfl, held_openAppend, hheld]
    exact hk.held_later hk.upper
  · simp only [hstat, Option.some.injEq] at hh
    subst hh
    constructor
    · refine Directory.mem_names.mpr ⟨file, Directory.mem_remove.mpr ⟨hfile, base_not_expired⟩⟩
    · have hday := (hopened.current file hfile).1
      exact hday ▸ due_computeRollover file.mtime.seconds

/-- A day has one backup. -/
theorem Filed.backup_free {d : Directory} {now : Instant} (hf : Filed base active d)
    (hpos : 1 ≤ active) (hactive : active ≤ now.day) : backupName base active ∉ d.names := by
  have hmax := now.day_range.2
  intro hin
  obtain ⟨file, hfile⟩ := Directory.mem_names.mp hin
  obtain ⟨n, hname, hn, hlt, -⟩ := hf.backup _ hfile (ours_backupName active) (backupName_ne active)
  have := backupName_inj hpos (by omega) hn (by omega) hname
  omega

/-- **Before a record** the active file is today's, and every line of an expired day is gone. -/
theorem Kept.roll (hk : Kept base lines active cut w) (hh : w.handler = some h) :
    Kept base lines w.clock.day (retentionCutoff w.clock) (w.roll base h) ∧
      (w.roll base h).clock = w.clock ∧ (w.roll base h).handler.isSome := by
  obtain ⟨hin, hdue⟩ := hk.handler h hh
  obtain ⟨hlast, hpos⟩ := hdue.last
  have htoday : retentionCutoff w.clock < w.clock.day := by
    unfold retentionCutoff logRetentionDays
    omega
  unfold World.roll
  by_cases hover : h.rolloverAt ≤ w.clock.seconds
  · have hlt := (hdue.iff w.clock).mp hover
    have hfree := hk.filed.backup_free hpos hk.today
    rw [if_pos hover]
    unfold World.doRollover
    simp only [hlast, hfree, dite_false]
    have hrenamed := hk.filed.rename hpos hfree hlt
    refine ⟨⟨(hrenamed.remove _).openAppend fun _ => rfl, le_rfl, le_rfl, le_rfl, ?_,
      fun h' hh' => ?_⟩, trivial, rfl⟩
    · dsimp only
      rw [held_openAppend, hrenamed.held_dispose le_rfl htoday fun name =>
        mem_getFilesToDelete hrenamed le_rfl, held_rename hfree ours_base (ours_backupName active)]
      exact hk.held_later hk.upper
    · cases hh'
      exact ⟨Directory.mem_names_openAppend, due_computeRollover w.clock.seconds⟩
  · have hsame : w.clock.day = active := by
      have := (hdue.iff w.clock).not.mp hover
      have := hk.today
      omega
    have hcut : retentionCutoff w.clock = cut := by
      have := hk.lower
      have := hk.upper
      unfold retentionCutoff at *
      omega
    rw [if_neg hover, hsame, hcut]
    exact ⟨hk, rfl, by rw [hh]; rfl⟩

/-- **A record** is held with the others of the last thirty days. -/
theorem Kept.emit (hk : Kept base lines active cut w) (hh : w.handler = some h) (text : Text) :
    Kept base (⟨w.clock, text⟩ :: lines) w.clock.day (retentionCutoff w.clock)
      (w.emit base text) := by
  obtain ⟨hrolled, hclock, hsome⟩ := hk.roll hh
  obtain ⟨h', hh'⟩ := Option.isSome_iff_exists.mp hsome
  have hin := (hrolled.handler h' hh').1
  have htoday : retentionCutoff w.clock < w.clock.day := by
    unfold retentionCutoff logRetentionDays
    omega
  unfold World.emit
  rw [hh]
  dsimp only
  generalize w.roll base h = w' at *
  refine ⟨?_, hrolled.today, hrolled.lower, hrolled.upper, ?_, fun h hh => ?_⟩
  · have hline : (⟨w'.clock, text⟩ : Line).day = w.clock.day := by
      rw [← hclock]
      rfl
    exact hrolled.filed.write hline
  · have hkeep : (⟨w'.clock, text⟩ :: lines).filter
        (fun l => decide (retentionCutoff w'.clock < l.day)) = ⟨w'.clock, text⟩ ::
          lines.filter fun l => decide (retentionCutoff w'.clock < l.day) :=
      List.filter_cons_of_pos (by simpa [Line.day, hclock] using htoday)
    rw [← hclock, hkeep]
    refine (held_write hin _).trans (List.Perm.cons _ ?_)
    rw [hclock]
    exact hrolled.held
  · obtain ⟨-, hdue⟩ := hrolled.handler h hh
    refine ⟨?_, hdue⟩
    simpa [Directory.names, Directory.write, Directory.modify] using hin

theorem emit_clock (hk : Kept base lines active cut w) (hh : w.handler = some h) (text : Text) :
    (w.emit base text).clock = w.clock := by
  unfold World.emit
  rw [hh]
  exact (hk.roll hh).2.1

end Steps

/-! ## Runs -/

section Runs

variable {w : World} {es : List (Event base)}

/-- The log was never written to, and nothing of its name is there. -/
structure Fresh (base : Text) (w : World) : Prop where
  files : ∀ name ∈ w.directory.names, ours base name = false
  handler : w.handler = none

theorem Fresh.kept (h : Fresh base w) :
    Kept base [] w.clock.day (retentionCutoff w.clock) w := by
  have hnone : ∀ e ∈ w.directory.entries, ours base e.1 = false := fun e he =>
    h.files e.1 (Directory.mem_names.mpr ⟨e.2, he⟩)
  refine ⟨⟨fun file hfile => ?_, fun e he hours _ => ?_⟩, le_rfl, le_rfl, le_rfl, ?_, ?_⟩
  · have := hnone _ hfile
    rw [ours_base] at this
    cases this
  · rw [hnone e he] at hours
    cases hours
  · have hempty : held base w.directory = [] := by
      unfold held
      rw [List.flatMap_eq_nil_iff]
      intro e he
      rw [hnone e he]
      rfl
    rw [hempty]
    exact .nil
  · intro h' hh'
    rw [h.handler] at hh'
    cases hh'

/-- The event has the handler at work: a record is emitted, or a logger is got that has none yet. -/
def Works (w : World) : Event base → Prop
  | .emit _ => w.handler.isSome
  | .getLogger => w.handler = none
  | _ => False

theorem Kept.tick {lines : List Line} {active cut : ℤ} (hk : Kept base lines active cut w)
    {t : Instant} (hle : w.clock.seconds ≤ t.seconds) :
    Kept base lines active cut { w with clock := t } := by
  have hday : w.clock.day ≤ t.day := by
    unfold Instant.day dayOf
    omega
  refine ⟨hk.filed, hk.today.trans hday, hk.lower, ?_, hk.held, hk.handler⟩
  have := hk.upper
  unfold retentionCutoff at *
  dsimp only
  omega

theorem Kept.other {lines : List Line} {active cut : ℤ} (hk : Kept base lines active cut w)
    (name : {name : Text // ours base name = false}) (file : Option LogFile) :
    Kept base lines active cut { w with directory := w.directory.put name file } := by
  refine ⟨hk.filed.put name file, hk.today, hk.lower, hk.upper, ?_, fun h hh => ?_⟩
  · dsimp only
    rw [held_put]
    exact hk.held
  · obtain ⟨hin, hdue⟩ := hk.handler h hh
    refine ⟨?_, hdue⟩
    obtain ⟨kept, hkept⟩ := Directory.mem_names.mp hin
    have hne : base ≠ name.1 := fun heq => by
      have hours := name.2
      rw [← heq, ours_base] at hours
      cases hours
    have hstays : (base, kept) ∈ (w.directory.remove [name.1]).entries :=
      Directory.mem_remove.mpr ⟨hkept, by simpa using hne⟩
    cases file with
    | none => exact Directory.mem_names.mpr ⟨kept, hstays⟩
    | some file => exact Directory.mem_names.mpr ⟨kept, List.mem_cons_of_mem _ hstays⟩

/-- One event keeps the invariant, and one that has the handler at work brings it to today. -/
theorem Kept.step {lines : List Line} {active cut : ℤ} (hk : Kept base lines active cut w)
    (e : Event base) : ∃ active' cut', Kept base (emitted w e ++ lines) active' cut' (w.step e) ∧
      (Works w e → cut' = retentionCutoff (w.step e).clock) := by
  cases e with
  | tick t =>
    have hstep : w.step (.tick t : Event base) =
      if w.clock.seconds ≤ t.seconds then { w with clock := t } else w := rfl
    refine ⟨active, cut, ?_, fun hworks => hworks.elim⟩
    rw [hstep]
    split
    · rename_i hle
      exact hk.tick hle
    · exact hk
  | getLogger =>
    have hstep : w.step (.getLogger : Event base) = w.sharedFileHandler base := rfl
    rw [hstep]
    unfold World.sharedFileHandler
    cases hh : w.handler with
    | some h =>
      refine ⟨active, cut, hk, fun hworks => ?_⟩
      cases hh.symm.trans hworks
    | none =>
      obtain ⟨active', hk'⟩ := hk.makeHandler
      exact ⟨active', _, hk', fun _ => rfl⟩
  | emit text =>
    have hstep : w.step (.emit text : Event base) = w.emit base text := rfl
    have hemitted : emitted w (.emit text : Event base) =
      if w.handler.isSome then [⟨w.clock, text⟩] else [] := rfl
    rw [hstep, hemitted]
    cases hh : w.handler with
    | none =>
      refine ⟨active, cut, ?_, fun hworks => ?_⟩
      · unfold World.emit
        rw [hh]
        exact hk
      · rw [Works, hh] at hworks
        cases hworks
    | some h => exact ⟨_, _, hk.emit hh text, fun _ => by rw [emit_clock hk hh]⟩
  | stop =>
    refine ⟨active, cut, ⟨hk.filed, hk.today, hk.lower, hk.upper, hk.held, fun h hh => ?_⟩,
      fun hworks => hworks.elim⟩
    cases hh
  | other name file => exact ⟨active, cut, hk.other name file, fun hworks => hworks.elim⟩

theorem Fresh.kept_after (h : Fresh base w) (es : List (Event base)) :
    ∃ active cut, Kept base (written w es) active cut (after w es) := by
  induction es with
  | nil => exact ⟨_, _, h.kept⟩
  | cons e es ih =>
    obtain ⟨active, cut, hk⟩ := ih
    obtain ⟨active', cut', hk', -⟩ := hk.step e
    exact ⟨active', cut', hk'⟩

/-- Emitted in the last thirty days. -/
def Recent (now : Instant) (l : Line) : Prop := now.day < l.day + logRetentionDays

instance (now : Instant) : DecidablePred (Recent now) :=
  fun _ => inferInstanceAs (Decidable (_ < _))

theorem filter_recent {now : Instant} (lines : List Line) :
    lines.filter (fun l => decide (retentionCutoff now < l.day)) =
      lines.filter fun l => decide (Recent now l) := by
  refine List.filter_congr fun l _ => ?_
  rw [decide_eq_decide, retentionCutoff, Recent]
  exact sub_lt_iff_lt_add

/-- **The log on disk** has every line emitted in the last thirty days, at any time. After a record,
and after a start, it has no other. -/
theorem kept_exactly (h : Fresh base w) (es : List (Event base)) :
    ((held base (after w es).directory).filter fun l => decide (Recent (after w es).clock l)).Perm
      ((written w es).filter fun l => decide (Recent (after w es).clock l)) ∧
    ∀ e, Works (after w es) e → (held base (after w (e :: es)).directory).Perm
      ((written w (e :: es)).filter fun l => decide (Recent (after w (e :: es)).clock l)) := by
  obtain ⟨active, cut, hk⟩ := h.kept_after es
  constructor
  · have hlater := hk.held_later hk.upper
    rwa [filter_recent, filter_recent] at hlater
  · intro e hworks
    obtain ⟨active', cut', hk', hcut⟩ := hk.step e
    have hheld := hk'.held
    rwa [hcut hworks, filter_recent] at hheld

/-- After thirty days without a record, the next one is alone. -/
theorem kept_exactly_idle : ∃ (w : World) (es : List (Event ['a'])), Fresh ['a'] w ∧
    Works (after w es) (.emit ['n'] : Event ['a']) ∧ (written w es).map Line.text = [['o']] ∧
    (held ['a'] (after w (.emit ['n'] :: es)).directory).map Line.text = [['n']] := by
  let w : World := ⟨⟨0, by decide⟩, ⟨[], .nil⟩, none⟩
  let es : List (Event ['a']) := [.tick ⟨30 * 86400, by decide⟩, .emit ['o'], .getLogger]
  have hfresh : Fresh ['a'] w := ⟨fun name hname => absurd hname List.not_mem_nil, rfl⟩
  have hworks : Works (after w es) (.emit ['n'] : Event ['a']) := by
    show (after w es).handler.isSome = true
    decide +kernel
  refine ⟨w, es, hfresh, hworks, by decide +kernel, ?_⟩
  refine List.perm_singleton.mp (((kept_exactly hfresh es).2 _ hworks).map Line.text |>.trans ?_)
  exact List.Perm.of_eq (by decide +kernel)

/-! ## Other files -/

/-- The same files but for the log's. -/
def SameOthers (base : Text) (d d' : Directory) : Prop :=
  ∀ name, ours base name = false → ∀ file, (name, file) ∈ d.entries ↔ (name, file) ∈ d'.entries

namespace SameOthers

variable {d d' d'' : Directory}

theorem refl (d : Directory) : SameOthers base d d := fun _ _ _ => Iff.rfl

theorem trans (h : SameOthers base d d') (h' : SameOthers base d' d'') : SameOthers base d d'' :=
  fun name hname file => (h name hname file).trans (h' name hname file)

/-- Removing files of the log. -/
theorem remove {gone : List Text} (hgone : ∀ name ∈ gone, ours base name = true) :
    SameOthers base (d.remove gone) d := by
  intro name hname file
  rw [Directory.mem_remove]
  refine and_iff_left fun hin => ?_
  rw [hgone name hin] at hname
  cases hname

theorem openAppend (d : Directory) (now : Instant) : SameOthers base (d.openAppend base now) d := by
  intro name hname file
  have hne : name ≠ base := by
    rintro rfl
    rw [ours_base] at hname
    cases hname
  unfold Directory.openAppend
  split
  · rfl
  · simp [Directory.create, hne]

theorem write (d : Directory) (line : Line) : SameOthers base (d.write base line) d := by
  intro name hname file
  have hne : name ≠ base := by
    rintro rfl
    rw [ours_base] at hname
    cases hname
  rw [Directory.mem_write]
  constructor
  · rintro ⟨e, he, heq⟩
    obtain ⟨rfl, rfl⟩ := Prod.mk.inj heq
    rwa [if_neg hne]
  · intro hin
    exact ⟨_, hin, by rw [if_neg hne]⟩

theorem rename (d : Directory) (n : ℤ) (hfree : backupName base n ∉ d.names) :
    SameOthers base (d.rename base (backupName base n) hfree) d := by
  intro name hname file
  have hne : ∀ {x}, ours base x = true → name ≠ x := by
    rintro x hx rfl
    rw [hx] at hname
    cases hname
  rw [Directory.mem_rename]
  constructor
  · rintro ⟨e, he, heq⟩
    obtain ⟨hsame, rfl⟩ := Prod.mk.inj heq
    by_cases hbase : e.1 = base
    · rw [if_pos hbase] at hsame
      exact absurd hsame (hne (ours_backupName n))
    · rw [if_neg hbase] at hsame
      rwa [hsame]
  · intro hin
    exact ⟨_, hin, by rw [if_neg (hne ours_base)]⟩

/-- The same change of another file. -/
theorem put (h : SameOthers base d d') (other : {name : Text // ours base name = false})
    (file : Option LogFile) : SameOthers base (d.put other file) (d'.put other file) := by
  have hremove : SameOthers base (d.remove [other.1]) (d'.remove [other.1]) := by
    intro name hname kept
    rw [Directory.mem_remove, Directory.mem_remove, h name hname kept]
  cases file with
  | none => exact hremove
  | some file =>
    intro name hname kept
    show (name, kept) ∈ (other.1, file) :: _ ↔ (name, kept) ∈ (other.1, file) :: _
    rw [List.mem_cons, List.mem_cons, hremove name hname kept]

end SameOthers

theorem ours_of_suffix {name t : Text} (h : suffix? base name = some t) :
    ours base name = true := by
  simp [ours, h]

theorem ours_of_expired {d : Directory} {now : Instant} {name : Text}
    (h : name ∈ expiredFiles base now d) : ours base name = true := by
  obtain ⟨-, n, hn, -⟩ := mem_expiredFiles.mp h
  obtain ⟨t, ht, -⟩ := Option.bind_eq_some_iff.mp hn
  exact ours_of_suffix ht

theorem ours_of_deleted {d : Directory} {now : Instant} {name : Text}
    (h : name ∈ getFilesToDelete base now d) : ours base name = true := by
  unfold getFilesToDelete at h
  rw [mem_sortBy, List.mem_dedup, List.mem_append] at h
  rcases h with hold | hexpired
  · have hin : name ∈ d.names.filter fun name => (suffix? base name).any extMatch := by
      unfold oldestBackups at hold
      dsimp only at hold
      split at hold
      · cases hold
      · exact (mem_sortBy id).mp (List.mem_of_mem_take hold)
    cases hsuffix : suffix? base name with
    | none => simp [hsuffix] at hin
    | some t => exact ours_of_suffix hsuffix
  · exact ours_of_expired hexpired

theorem makeHandler_others (w : World) :
    SameOthers base (w.makeHandler base).directory w.directory := by
  unfold World.makeHandler
  refine (SameOthers.remove fun name => ours_of_expired).trans
    ((SameOthers.openAppend _ _).trans ?_)
  unfold disposeOverdueActiveFile
  split
  · exact .refl _
  · split
    · exact .refl _
    · exact .remove fun name hname => List.mem_singleton.mp hname ▸ ours_base

theorem roll_others (w : World) (h : Handler) :
    SameOthers base (w.roll base h).directory w.directory := by
  unfold World.roll
  split
  · unfold World.doRollover
    dsimp only
    split
    · exact .refl _
    · exact (SameOthers.openAppend _ _).trans
        ((SameOthers.remove fun name => ours_of_deleted).trans (SameOthers.rename _ _ _))
  · exact .refl _

/-- The event is another program's. -/
def Event.isOther : Event base → Bool
  | .other _ _ => true
  | _ => false

/-- **Other files are untouched**: every file that is not the log's is as the other programs' own
changes alone would have left it. -/
theorem others_untouched (w : World) (es : List (Event base)) {name : Text}
    (hname : ours base name = false) :
    (after w es).directory.stat name = (after w (es.filter Event.isOther)).directory.stat name := by
  have hsame : SameOthers base (after w es).directory
      (after w (es.filter Event.isOther)).directory := by
    induction es with
    | nil => exact .refl _
    | cons e es ih =>
      cases e with
      | tick t =>
        have hstep : ((after w es).step (.tick t : Event base)).directory =
            (after w es).directory := by
          unfold World.step
          dsimp only
          split <;> rfl
        exact hstep ▸ ih
      | getLogger =>
        have hstep : SameOthers base ((after w es).step (.getLogger : Event base)).directory
            (after w es).directory := by
          unfold World.step World.sharedFileHandler
          dsimp only
          split
          · exact .refl _
          · exact makeHandler_others _
        exact hstep.trans ih
      | emit text =>
        have hstep : SameOthers base ((after w es).step (.emit text : Event base)).directory
            (after w es).directory := by
          unfold World.step World.emit
          dsimp only
          split
          · exact .refl _
          · exact (SameOthers.write _ _).trans (roll_others _ _)
        exact hstep.trans ih
      | stop => exact ih
      | other other file => exact ih.put other file
  refine Option.ext fun file => ?_
  rw [Directory.stat_eq_some, Directory.stat_eq_some]
  exact hsame name hname file

end Runs

end Log

end Meridian.Logs
