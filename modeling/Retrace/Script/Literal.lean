/-
String literals and remarks of a script.

Recorded text reaches a script in two places only: inside a literal between double quotes, and
behind the mark of a remark. A literal escapes the backslash, the double quote and the three
characters that would break the line or the layout; a remark holds the words of the text on one
line.
-/
import Retrace.Text.Blank

set_option autoImplicit false

namespace Retrace.Script

def escapeChar : Char → List Char
  | '\\' => ['\\', '\\']
  | '"' => ['\\', '"']
  | '\n' => ['\\', 'n']
  | '\r' => ['\\', 'r']
  | '\t' => ['\\', 't']
  | c => [c]

def escape (cs : List Char) : List Char := cs.flatMap escapeChar

/-- The text as a literal between double quotes. -/
def quote (s : String) : String := String.ofList ('"' :: escape s.toList ++ ['"'])

/-- The text as a remark: its words with one space between any two. -/
def remark (s : String) : String := Text.collapse s

/-- No escaped character is a line break or a tab. -/
theorem not_mem_escape {cs : List Char} {c : Char} (hc : c ∈ escape cs) :
    c ≠ '\n' ∧ c ≠ '\r' ∧ c ≠ '\t' := by
  simp only [escape, List.mem_flatMap] at hc
  obtain ⟨a, -, ha⟩ := hc
  unfold escapeChar at ha
  split at ha <;> grind

end Retrace.Script
