import Mathlib.Algebra.Order.Ring.Rat
import Mathlib.Tactic.NormNum
import Meridian.Interleave.Run
import Meridian.Limiter.Sliding
import Meridian.Python.Text

/-!
# The limit on calls to the model

`check_llm_rate_limit` of origination-service. A call reads the monotonic clock, and later, under the
lock, drops the readings of its user that are more than `windowSeconds` old and either appends its own
or raises. Between the two any other call may run and time may pass.

* `checkLlmRateLimit` is the function, `locked` what it does while it holds the lock.
* `admissions key tr` are the readings the history `tr` admitted for the user, newest first.
* `InTurn` is a step whose reading is not older than any of its user's deque.
* `counts_exactly`: while calls take their turns no 60 seconds admit more than ten calls of a user,
  and a refusal has ten admitted calls of the same user in the 60 seconds before its reading.
* `overrun`: a call that is overtaken between its two steps.
-/

namespace Meridian.Limiter

open Interleave Python

/-- `_WINDOW_SECONDS` -/
def windowSeconds : ℚ := 60

/-- `_MAX_CALLS` -/
def maxCalls : ℕ := 10

/-- `fastapi.HTTPException` -/
structure HttpException where
  statusCode : ℕ
  detail : Text
  deriving DecidableEq

def limitExceeded : HttpException :=
  ⟨429, "assistant rate limit exceeded: max 10 calls per 60s".toList⟩

/-- The bucket of a user: `user_id or "_no_user_id"`. -/
def bucket (userId : Option Text) : Text :=
  match userId with
  | none | some [] => "_no_user_id".toList
  | some u => u

/-- The clock of the process, and the deque of every bucket. -/
structure World where
  clock : ℚ
  calls : Text → List ℚ

inductive Stmt
  /-- `time.monotonic()` -/
  | monotonic
  /-- The body of `with _lock`. -/
  | locked (key : Text) (now : ℚ)

abbrev Stmt.Res : Stmt → Type
  | monotonic => ℚ
  | locked _ _ => Except HttpException Unit

def World.withCalls (w : World) (key : Text) (window : List ℚ) : World :=
  { w with calls := fun k => if k = key then window else w.calls k }

/-- The locked section. -/
def World.locked (w : World) (key : Text) (now : ℚ) : Except HttpException Unit × World :=
  let window := evict windowSeconds now (w.calls key)
  if maxCalls ≤ window.length then (.error limitExceeded, w.withCalls key window)
  else (.ok (), w.withCalls key (window ++ [now]))

def World.exec : (s : Stmt) → World → Option (s.Res × World)
  | .monotonic, w => some (w.clock, w)
  | .locked key now, w => some (w.locked key now)

/-- The clock does not go back. -/
abbrev Elapsed := {d : ℚ // 0 ≤ d}

def World.tick (d : Elapsed) (w : World) : World := { w with clock := w.clock + d }

abbrev limiter : Machine where
  World := World
  Stmt := Stmt
  Res := Stmt.Res
  Env := Elapsed
  exec := World.exec
  env := World.tick

/-- `check_llm_rate_limit` -/
def checkLlmRateLimit (userId : Option Text) : Prog limiter (Except HttpException Unit) := do
  let now ← Prog.issue (M := limiter) .monotonic
  Prog.issue (M := limiter) (.locked (bucket userId) now)

/-- Every caller makes its call, no bucket having been used. -/
def start {ι : Type} (users : ι → Option Text) (clock : ℚ) :
    Config limiter ι (Except HttpException Unit) :=
  ⟨⟨clock, fun _ => []⟩, fun i => checkLlmRateLimit (users i)⟩

/-! ## What is counted -/

section Counting

variable {ι : Type}

/-- The reading a step admits for the bucket. -/
def admission (key : Text) : Entry limiter ι → Option ℚ
  | .call _ (.locked k now) (.ok ()) _ _ => if k = key then some now else none
  | _ => none

/-- The readings admitted for a bucket, newest first. -/
def admissions (key : Text) (tr : List (Entry limiter ι)) : List ℚ := tr.filterMap (admission key)

/-- The reading is not older than those in the deque of its bucket. -/
def InTurn : Entry limiter ι → Prop
  | .call _ (.locked key now) _ w _ => ∀ e ∈ w.calls key, e ≤ now
  | _ => True

/-- No closed interval of 60 seconds admits more than ten calls of a user. -/
def Sparse (tr : List (Entry limiter ι)) : Prop :=
  ∀ key a, within windowSeconds a (admissions key tr) ≤ maxCalls

/-- A refusal has ten calls of its user admitted before it in the 60 seconds up to its reading. -/
def Justified (tr : List (Entry limiter ι)) : Entry limiter ι → Prop
  | .call _ (.locked key now) (.error _) _ _ =>
    maxCalls ≤ within windowSeconds (now - windowSeconds) (admissions key tr)
  | _ => True

instance InTurn.decidable : ∀ e : Entry limiter ι, Decidable (InTurn e)
  | .call _ (.locked key now) _ w _ => inferInstanceAs (Decidable (∀ e ∈ w.calls key, e ≤ now))
  | .call _ .monotonic _ _ _ => .isTrue trivial
  | .env _ _ _ => .isTrue trivial

instance Justified.decidable (tr : List (Entry limiter ι)) : ∀ e, Decidable (Justified tr e)
  | .call _ (.locked key now) (.error _) _ _ => inferInstanceAs (Decidable
      (maxCalls ≤ within windowSeconds (now - windowSeconds) (admissions key tr)))
  | .call _ (.locked _ _) (.ok _) _ _ => .isTrue trivial
  | .call _ .monotonic _ _ _ => .isTrue trivial
  | .env _ _ _ => .isTrue trivial

end Counting

/-! ## Calls that take their turns -/

section Runs

variable {ι : Type}

/-- The deques hold the newest admitted readings, and every refusal had its reason. -/
structure Exact (tr : List (Entry limiter ι)) (w : World) : Prop where
  slides : ∀ key, Slides windowSeconds maxCalls (admissions key tr) (w.calls key)
  justified : Along Justified tr

theorem admissions_refused {i : ι} {key key' : Text} {now : ℚ} {x : HttpException} {w w' : World}
    {tr : List (Entry limiter ι)} :
    admissions key' (.call i (.locked key now) (.error x) w w' :: tr) = admissions key' tr := rfl

theorem admissions_admitted {i : ι} {key key' : Text} {now : ℚ} {w w' : World}
    {tr : List (Entry limiter ι)} :
    admissions key' (.call i (.locked key now) (.ok ()) w w' :: tr) =
      if key = key' then now :: admissions key' tr else admissions key' tr := by
  unfold admissions
  rw [List.filterMap_cons]
  by_cases h : key = key' <;> simp [admission, h]

/-- **One locked section.** -/
theorem Exact.locked {tr : List (Entry limiter ι)} {w : World} (h : Exact tr w) (i : ι) (key : Text)
    (now : ℚ) (hturn : ∀ e ∈ w.calls key, e ≤ now) :
    Exact (.call i (.locked key now) (w.locked key now).1 w (w.locked key now).2 :: tr)
      (w.locked key now).2 := by
  by_cases hfull : maxCalls ≤ (evict windowSeconds now (w.calls key)).length
  · have hlocked : w.locked key now = (.error limitExceeded,
        w.withCalls key (evict windowSeconds now (w.calls key))) := if_pos hfull
    rw [hlocked]
    refine ⟨fun key' => ?_, (h.slides key).crowded hturn hfull, h.justified⟩
    rw [admissions_refused]
    by_cases hkey : key' = key
    · subst hkey
      simpa [World.withCalls] using (h.slides key').refused hturn hfull
    · simpa [World.withCalls, hkey] using h.slides key'
  · have hlocked : w.locked key now = (.ok (),
        w.withCalls key (evict windowSeconds now (w.calls key) ++ [now])) := if_neg hfull
    rw [hlocked]
    refine ⟨fun key' => ?_, trivial, h.justified⟩
    rw [admissions_admitted]
    by_cases hkey : key' = key
    · subst hkey
      simpa [World.withCalls] using (h.slides key').admitted hturn (not_le.mp hfull)
    · simpa [World.withCalls, hkey, Ne.symm hkey] using h.slides key'

variable [DecidableEq ι]

/-- **The limiter counts exactly** in every run whose calls take their turns. -/
theorem counts_exactly (users : ι → Option Text) (clock : ℚ) {tr : List (Entry limiter ι)}
    {c : Config limiter ι (Except HttpException Unit)} (h : Run (start users clock) tr c)
    (hC : Along (fun _ => InTurn) tr) : Sparse tr ∧ Along Justified tr := by
  have hI : Exact tr c.world := by
    refine Run.invariant (φ := fun _ _ _ => True) (Q := fun _ _ _ => True)
      (I := fun tr w => Exact tr w) (fun _ => obeys_true _) ⟨fun _ => .nil, trivial⟩ ?_ ?_ h hC
    · intro tr c i s r w _ hI _ hx hturn
      cases s with
      | monotonic =>
        cases hx
        exact ⟨hI.slides, trivial, hI.justified⟩
      | locked key now =>
        have hlocked : c.world.locked key now = (r, w) := Option.some.inj hx
        simpa [hlocked] using hI.locked i key now hturn
    · exact fun tr c d _ hI _ => ⟨hI.slides, trivial, hI.justified⟩
  exact ⟨fun key => (hI.slides key).sparse, hI.justified⟩

end Runs

/-! ## Calls that are overtaken -/

/-- Twelve calls of one officer. -/
def officer : Fin 12 → Option Text := fun _ => some "officer".toList

/-- One call after the other. -/
def whole (i : Fin 12) : List (Pick limiter (Fin 12)) := [.call i, .call i]

/-- A minute and a second. -/
def wait : Pick limiter (Fin 12) := .env ⟨61, by norm_num⟩

theorem counts_exactly_full : ∃ tr c, Run (start officer 100) tr c ∧
    (Sparse tr ∧ Along Justified tr) ∧ (admissions "officer".toList tr).length = 11 := by
  obtain ⟨tr, c, hrun, hturn, hlength⟩ := exists_run
    (((List.finRange 12).take 11).flatMap whole ++ wait :: whole 11) (start officer 100)
    (fun x => Along (fun _ => InTurn) x.1 ∧ (admissions "officer".toList x.1).length = 11)
    (by decide +kernel)
  exact ⟨tr, c, hrun, counts_exactly officer 100 hrun hturn, hlength⟩

/-- The last caller has read the clock when the others start. A minute later one more call empties the
deque, and the old reading is admitted. -/
def overtaken : List (Pick limiter (Fin 12)) :=
  .call 11 :: ((List.finRange 12).take 10).flatMap whole ++ wait :: whole 10 ++ [.call 11]

/-- The last caller has read the clock a minute before the others start. -/
def outlasted : List (Pick limiter (Fin 12)) :=
  .call 11 :: wait :: ((List.finRange 12).take 10).flatMap whole ++ [.call 11]

theorem overrun : (∃ tr c, Run (start officer 100) tr c ∧ ¬ Sparse tr) ∧
    ∃ tr c, Run (start officer 100) tr c ∧ ¬ Along Justified tr := by
  obtain ⟨tr, c, hrun, hmany⟩ := exists_run overtaken (start officer 100)
    (fun x => maxCalls < within windowSeconds 100 (admissions "officer".toList x.1))
    (by decide +kernel)
  obtain ⟨tr', c', hrun', hfew⟩ := exists_run outlasted (start officer 100)
    (fun x => ¬ Along Justified x.1) (by decide +kernel)
  exact ⟨⟨tr, c, hrun, fun h => absurd (h _ _) (not_le.mpr hmany)⟩, tr', c', hrun', hfew⟩

end Meridian.Limiter
