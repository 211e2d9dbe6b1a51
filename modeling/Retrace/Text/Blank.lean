/-
Blank characters, and the ways a text is cut at them.

A text is stripped of the blanks at its ends, or split into its words, the longest runs without
a blank. The set of blanks is wider than that of the core library: it has the separators
U+001C to U+001F, the next-line control, the no-break spaces and the spaces of typography, and
leaves out the zero-width characters.
-/

set_option autoImplicit false

namespace Retrace.Text

/-! ## The set -/

/-- Does the number lie in one of the ranges, both ends included? -/
def inRanges (ranges : List (Nat × Nat)) (n : Nat) : Bool :=
  ranges.any fun r => r.1 ≤ n && n ≤ r.2

def blankRanges : List (Nat × Nat) :=
  [(0x09, 0x0d), (0x1c, 0x20), (0x85, 0x85), (0xa0, 0xa0), (0x1680, 0x1680), (0x2000, 0x200a),
    (0x2028, 0x2029), (0x202f, 0x202f), (0x205f, 0x205f), (0x3000, 0x3000)]

def isBlank (c : Char) : Bool := inRanges blankRanges c.toNat

/-! ## Cutting a text -/

/-- The list without the characters of `p` at its end. -/
def dropTrailing (p : Char → Bool) (cs : List Char) : List Char :=
  (cs.reverse.dropWhile p).reverse

/-- The list without the characters of `p` at either end. -/
def trim (p : Char → Bool) (cs : List Char) : List Char :=
  dropTrailing p (cs.dropWhile p)

/-- The text without the blanks at its two ends. -/
def strip (s : String) : String := String.ofList (trim isBlank s.toList)

/-- The text without a line feed at its very end. -/
def dropFinalBreak (cs : List Char) : List Char :=
  if cs.getLast? = some '\n' then cs.dropLast else cs

/-- The pieces between the characters of `p`, empty ones included. -/
def pieces (p : Char → Bool) : List Char → List (List Char)
  | [] => [[]]
  | c :: rest =>
    if p c then [] :: pieces p rest
    else match pieces p rest with
      | [] => [[c]]
      | piece :: more => (c :: piece) :: more

/-- The words of a text: what stands between its blanks, without the empty pieces. -/
def words (s : String) : List String :=
  ((pieces isBlank s.toList).filter (! ·.isEmpty)).map String.ofList

/-- The words of the text with one space between any two. -/
def collapse (s : String) : String := " ".intercalate (words s)

/-! ## What a cut leaves -/

/-- No piece holds a character of `p`. -/
theorem not_mem_pieces {p : Char → Bool} {cs w : List Char} (hw : w ∈ pieces p cs) :
    ∀ c ∈ w, p c = false := by
  induction cs generalizing w with
  | nil => simp_all [pieces]
  | cons a rest ih =>
    unfold pieces at hw
    split at hw
    · rcases List.mem_cons.1 hw with rfl | h
      · simp
      · exact ih h
    · next ha =>
      split at hw
      · intro c hc
        simp_all
      · next piece more hp =>
        rcases List.mem_cons.1 hw with rfl | h
        · intro c hc
          rcases List.mem_cons.1 hc with rfl | hc
          · simpa using ha
          · exact ih (hp ▸ List.mem_cons_self) c hc
        · exact ih (hp ▸ List.mem_cons_of_mem _ h)

theorem not_isBlank_of_mem_words {s w : String} (hw : w ∈ words s) {c : Char}
    (hc : c ∈ w.toList) : isBlank c = false := by
  simp only [words, List.mem_map, List.mem_filter] at hw
  obtain ⟨cs, ⟨hcs, -⟩, rfl⟩ := hw
  exact not_mem_pieces hcs c (by simpa using hc)

end Retrace.Text
