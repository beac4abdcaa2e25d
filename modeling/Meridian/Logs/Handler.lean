import Meridian.Python.Date
import Meridian.Python.Sorted

/-!
# The log of a service

`logging_config.py`, which every service has a copy of, and what it inherits from the
`TimedRotatingFileHandler` of the standard library (`when="midnight"`, `utc=True`). The log is an
active file and the backups that rotation made of it, named after it and the day they are of.

* `Directory` is the directory the logs are in. Other files are there too, and their owners change
  them.
* `World` is the clock, the directory and the handler of this log, once the process has made one.
* `Event` is what happens: time passes, a logger is got, a record is emitted, the process ends.
* `written` is every line that was ever emitted, `held` what the files of the log hold.
-/

namespace Meridian.Logs

open Python

/-! ## Time -/

/-- A second of the calendar, counted from the epoch. -/
structure Instant where
  seconds : ℕ
  inCalendar : seconds < 253402300800
  deriving DecidableEq

/-- `datetime.fromtimestamp(seconds, timezone.utc).date()` -/
def dayOf (seconds : ℕ) : ℤ := 719163 + (seconds / 86400 : ℕ)

def Instant.day (t : Instant) : ℤ := dayOf t.seconds

theorem Instant.day_range (t : Instant) : 719163 ≤ t.day ∧ t.day ≤ maxOrdinal := by
  have := t.inCalendar
  unfold Instant.day dayOf maxOrdinal
  omega

/-- `LOG_RETENTION_DAYS` -/
def logRetentionDays : ℕ := 30

/-- `_retention_cutoff` -/
def retentionCutoff (now : Instant) : ℤ := now.day - logRetentionDays

/-! ## Files -/

structure Line where
  writtenAt : Instant
  text : Text
  deriving DecidableEq

def Line.day (l : Line) : ℤ := l.writtenAt.day

/-- The lines of a file, newest first, and its `st_mtime`. -/
structure LogFile where
  lines : List Line
  mtime : Instant
  deriving DecidableEq

/-- Files under their names. -/
structure Directory where
  entries : List (Text × LogFile)
  nodup : (entries.map Prod.fst).Nodup

namespace Directory

/-- `os.listdir` -/
def names (d : Directory) : List Text := d.entries.map Prod.fst

/-- `os.stat`; `none` where there is no such file. -/
def stat (d : Directory) (name : Text) : Option LogFile :=
  (d.entries.find? fun e => decide (e.1 = name)).map Prod.snd

/-- `os.remove` of each of these. -/
def remove (d : Directory) (gone : List Text) : Directory where
  entries := d.entries.filter fun e => decide (e.1 ∉ gone)
  nodup := (List.filter_sublist.map _).nodup d.nodup

/-- Change what the files of a name hold. -/
def modify (d : Directory) (f : Text → LogFile → LogFile) : Directory where
  entries := d.entries.map fun e => (e.1, f e.1 e.2)
  nodup := by rw [List.map_map]; exact d.nodup

/-- A new file. -/
def create (d : Directory) (name : Text) (file : LogFile) (h : name ∉ d.names) : Directory where
  entries := (name, file) :: d.entries
  nodup := List.nodup_cons.mpr ⟨h, d.nodup⟩

/-- `open(name, "a")` -/
def openAppend (d : Directory) (name : Text) (now : Instant) : Directory :=
  if h : name ∈ d.names then d else d.create name ⟨[], now⟩ h

/-- A line is written at the end of a file. -/
def write (d : Directory) (name : Text) (line : Line) : Directory :=
  d.modify fun n f => if n = name then ⟨line :: f.lines, line.writtenAt⟩ else f

/-- `os.rename` to a name that is free. -/
def rename (d : Directory) (source dest : Text) (h : dest ∉ d.names) : Directory where
  entries := d.entries.map fun e => (if e.1 = source then dest else e.1, e.2)
  nodup := by
    have hnames : (d.entries.map fun e => (if e.1 = source then dest else e.1, e.2)).map Prod.fst =
        d.names.map fun n => if n = source then dest else n := by
      simp [names, Function.comp_def]
    rw [hnames]
    refine d.nodup.map_on fun n hn n' hn' heq => ?_
    have hne : ∀ n ∈ d.names, n ≠ dest := fun n hn hd => h (hd ▸ hn)
    by_cases hs : n = source <;> by_cases hs' : n' = source
    · rw [hs, hs']
    · rw [if_pos hs, if_neg hs'] at heq
      exact absurd heq.symm (hne n' hn')
    · rw [if_neg hs, if_pos hs'] at heq
      exact absurd heq (hne n hn)
    · rwa [if_neg hs, if_neg hs'] at heq

end Directory

/-! ## The handler -/

/-- What the handler keeps between records. -/
structure Handler where
  rolloverAt : ℕ

structure World where
  clock : Instant
  directory : Directory
  /-- `_FILE_HANDLERS` of the process, at the path of this log -/
  handler : Option Handler

section Log

-- `os.path.basename(self.baseFilename)`
variable (base : Text)

/-- `self.baseFilename + "." + time.strftime(self.suffix, time.gmtime(t))` -/
def backupName (day : ℤ) : Text := base ++ '.' :: isoDate day

/-- What follows `self.baseFilename + "."` in a name. -/
def suffix? (name : Text) : Option Text :=
  if (base ++ ['.']).isPrefixOf name then some (name.drop (base.length + 1)) else none

/-- `_dispose_overdue_active_file` -/
def disposeOverdueActiveFile (now : Instant) (d : Directory) : Directory :=
  match d.stat base with
  | none => d
  | some file => if retentionCutoff now < file.mtime.day then d else d.remove [base]

/-- `_expired_files` -/
def expiredFiles (now : Instant) (d : Directory) : List Text :=
  d.names.filter fun name =>
    match (suffix? base name).bind parseDate with
    | some stamped => decide (stamped ≤ retentionCutoff now)
    | none => false

/-- `extMatch.fullmatch`: `(?<!\d)\d{4}-\d{2}-\d{2}(?!\d)` of ASCII digits. -/
def extMatch : Text → Bool
  | [a, b, c, d, '-', e, f, '-', g, h] =>
    [a, b, c, d, e, f, g, h].all fun x => (asciiDigit? 0 9 x).isSome
  | _ => false

/-- `TimedRotatingFileHandler.getFilesToDelete` with `backupCount=LOG_RETENTION_DAYS`. -/
def oldestBackups (d : Directory) : List Text :=
  let result := d.names.filter fun name => (suffix? base name).any extMatch
  if result.length < logRetentionDays then []
  else (sortBy id result).take (result.length - logRetentionDays)

/-- `getFilesToDelete` -/
def getFilesToDelete (now : Instant) (d : Directory) : List Text :=
  sortBy id (oldestBackups base d ++ expiredFiles base now d).dedup

/-- `computeRollover` -/
def computeRollover (currentTime : ℕ) : ℕ :=
  let hour := currentTime / 3600 % 24
  let minute := currentTime / 60 % 60
  let second := currentTime % 60
  currentTime + (86400 - ((hour * 60 + minute) * 60 + second))

/-- `ExpiringTimedRotatingFileHandler.__init__` -/
def World.makeHandler (w : World) : World :=
  let d := disposeOverdueActiveFile base w.clock w.directory
  let d := d.openAppend base w.clock
  let t := match d.stat base with
    | some file => file.mtime
    | none => w.clock
  { w with
    directory := d.remove (expiredFiles base w.clock d)
    handler := some ⟨computeRollover t.seconds⟩ }

/-- `_shared_file_handler` -/
def World.sharedFileHandler (w : World) : World :=
  match w.handler with
  | some _ => w
  | none => w.makeHandler base

/-- `doRollover` -/
def World.doRollover (h : Handler) (w : World) : World :=
  let dfn := backupName base (dayOf (h.rolloverAt - 86400))
  if hdfn : dfn ∈ w.directory.names then w
  else
    let d := w.directory.rename base dfn hdfn
    let d := d.remove (getFilesToDelete base w.clock d)
    { w with
      directory := d.openAppend base w.clock
      handler := some ⟨computeRollover w.clock.seconds⟩ }

/-- `shouldRollover`, then `doRollover`. -/
def World.roll (h : Handler) (w : World) : World :=
  if h.rolloverAt ≤ w.clock.seconds then w.doRollover base h else w

/-- `emit` of a record whose formatted text is given. -/
def World.emit (text : Text) (w : World) : World :=
  match w.handler with
  | none => w
  | some h =>
    let w := w.roll base h
    { w with directory := w.directory.write base ⟨w.clock, text⟩ }

/-! ## Runs -/

/-- The name is the log's, or has the log's name and a point before the rest. -/
def ours (name : Text) : Bool := decide (name = base) || (suffix? base name).isSome

inductive Event
  /-- time passes, until `t` at the latest -/
  | tick (t : Instant)
  /-- `get_logger` -/
  | getLogger
  | emit (text : Text)
  /-- the process ends -/
  | stop
  /-- another file is put there or goes -/
  | other (name : {name : Text // ours base name = false}) (file : Option LogFile)

/-- What another program makes of its own file. -/
def Directory.put (d : Directory) (name : Text) (file : Option LogFile) : Directory :=
  match file with
  | none => d.remove [name]
  | some file => (d.remove [name]).create name file (by simp [Directory.names, Directory.remove])

variable {base}

def World.step (w : World) : Event base → World
  | .tick t => if w.clock.seconds ≤ t.seconds then { w with clock := t } else w
  | .getLogger => w.sharedFileHandler base
  | .emit text => w.emit base text
  | .stop => { w with handler := none }
  | .other name file => { w with directory := w.directory.put name file }

/-- The world after these events, newest first. -/
def after (w : World) : List (Event base) → World
  | [] => w
  | e :: es => (after w es).step e

/-- The line an event emits. -/
def emitted (w : World) : Event base → List Line
  | .emit text => if w.handler.isSome then [⟨w.clock, text⟩] else []
  | _ => []

/-- The lines these events emitted, newest first. -/
def written (w : World) : List (Event base) → List Line
  | [] => []
  | e :: es => emitted (after w es) e ++ written w es

variable (base)

/-- The lines in the files of the log. -/
def held (d : Directory) : List Line :=
  d.entries.flatMap fun e => if ours base e.1 then e.2.lines else []

end Log

end Meridian.Logs
