import Mathlib.Data.List.SplitOn
import Meridian.Python.Text

/-!
# Lines of a text

* `splitlines` is `str.splitlines`, `joinLines` is `"\n".join`, `oneLine` is `" ".join(t.split())`.
* `isBreak` tells the characters a line ends at; `"\r\n"` is one end.
-/

namespace Meridian.Python

/-- The code points `str.splitlines` ends a line at. -/
def lineBreaks : List (Nat × Nat) :=
  [(0xa, 0xd), (0x1c, 0x1e), (0x85, 0x85), (0x2028, 0x2029)]

def isBreak (c : Char) : Bool := inRuns lineBreaks c

/-- `text.splitlines()` -/
def splitlines : Text → List Text
  | [] => []
  | '\r' :: '\n' :: t => [] :: splitlines t
  | c :: t =>
    if isBreak c then [] :: splitlines t
    else
      match splitlines t with
      | [] => [[c]]
      | l :: ls => (c :: l) :: ls

/-- `"\n".join(lines)` -/
def joinLines (lines : List Text) : Text := ['\n'].intercalate lines

/-- `" ".join(text.split())` -/
def oneLine (t : Text) : Text := [' '].intercalate ((t.splitOnP isSpace).filter (· ≠ []))

/-- `text.lstrip()` -/
def lstrip (t : Text) : Text := t.dropWhile isSpace

/-- `text.startswith(prefix)` -/
def startsWith (t : Text) (s : String) : Bool := s.toList.isPrefixOf t

/-- A text that starts one way does not start another. -/
theorem not_startsWith {t : Text} {s u : String} (h : startsWith t s = true)
    (hlen : s.toList.length ≤ u.toList.length) (hno : startsWith u.toList s = false) :
    startsWith t u = false := by
  refine Bool.eq_false_iff.mpr fun hu => ?_
  have hs := List.isPrefixOf_iff_prefix.mp h
  have hpre := List.prefix_of_prefix_length_le hs (List.isPrefixOf_iff_prefix.mp hu) hlen
  exact Bool.eq_false_iff.mp hno (List.isPrefixOf_iff_prefix.mpr hpre)

end Meridian.Python
