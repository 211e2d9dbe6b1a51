/-
The row in a path.

Within a table a recorded path points at one row. To repeat an action on every row, the path is
split in two: a selector for all rows, and what leads from a row to the element. The innermost
`tr` of the path is the row. Where there is none, the row is the outermost compound with a
position, and the rows are the elements that its path finds once the position is dropped.
-/
import Retrace.Path.Basic
import Retrace.Text.Digit

set_option autoImplicit false

namespace Retrace.Path

/-! ## Positions and tags of a compound -/

def positionOpening : List Char := ":nth-of-type(".toList

/-- The text behind a position that stands at the very front. -/
def afterPosition? (cs : List Char) : Option (List Char) :=
  if positionOpening.isPrefixOf cs then
    let rest := cs.drop positionOpening.length
    match rest.takeWhile Text.isDigit, rest.dropWhile Text.isDigit with
    | _ :: _, ')' :: left => some left
    | _, _ => none
  else none

/-- The text behind a position is shorter. -/
theorem length_afterPosition? {cs left : List Char} (h : afterPosition? cs = some left) :
    left.length < cs.length := by
  unfold afterPosition? at h
  dsimp only at h
  split at h
  · split at h
    · next hd =>
      cases h
      have h1 := (List.dropWhile_suffix Text.isDigit
        (l := cs.drop positionOpening.length)).length_le
      rw [hd] at h1
      simp only [List.length_cons, List.length_drop] at h1
      omega
    · cases h
  · cases h

def dropPositions (cs : List Char) : List Char :=
  match _h : afterPosition? cs with
  | some left => dropPositions left
  | none =>
    match cs with
    | [] => []
    | c :: rest => c :: dropPositions rest
termination_by cs.length
decreasing_by
  · exact length_afterPosition? _h
  · simp

/-- Is there a position in the text? -/
def hasPosition : List Char → Bool
  | [] => false
  | c :: rest => (afterPosition? (c :: rest)).isSome || hasPosition rest

/-- The tag at the front of a compound: ASCII letters, digits and hyphens, a letter first. -/
def leadingTag (cs : List Char) : List Char :=
  if cs.head?.any Char.isAlpha then cs.takeWhile fun c => c.isAlphanum || c = '-' else []

/-- Is the compound a table row by its tag? -/
def Compound.isTableRow (c : Compound) : Bool :=
  (leadingTag c.text.toList).map Char.toLower == ['t', 'r']

def Compound.hasPosition (c : Compound) : Bool := Path.hasPosition c.text.toList

def Compound.withoutPosition (c : Compound) : Compound :=
  { c with text := String.ofList (dropPositions c.text.toList) }

/-! ## Splitting a path -/

/-- The rows of a table that is written with table tags. -/
def tableRows : String := "tr:has(td)"

/-- The compounds behind the last table row. -/
def behindTableRow? : List Compound → Option (List Compound)
  | [] => none
  | c :: rest =>
    match behindTableRow? rest with
    | some inner => some inner
    | none => if c.isTableRow then some rest else none

/-- Splits the compounds at the row: those down to the row, the row itself, and those behind it.
It is the first one with a position, or else the very first one. -/
def splitAtRow (first : Compound) (rest : List Compound) :
    List Compound × Compound × List Compound :=
  let all := first :: rest
  match all.dropWhile (! ·.hasPosition) with
  | row :: inner => (all.takeWhile (! ·.hasPosition), row, inner)
  | [] => ([], first, rest)

/-- The selector for all rows, if the path says what a row is, and the path from a row to the
element. `direct` says whether the path starts at a child of the container. -/
def splitRow (path : String) (direct : Bool := true) : Option String × String :=
  match compounds path with
  | [] => (none, "")
  | first :: rest =>
    match behindTableRow? (first :: rest) with
    | some inner => (some tableRows, join inner)
    | none =>
      -- a single compound without a position may be the row itself or lie in it
      if rest.isEmpty && !first.hasPosition then (none, first.text)
      else
        let (outer, row, inner) := splitAtRow first rest
        let anchor := (if direct then Combinator.child else .descendant).text
        (some (":scope" ++ anchor ++ join (outer ++ [row.withoutPosition])), join inner)

end Retrace.Path
