/-
Selector paths.

A path is a row of compounds with a combinator between any two: `>` for a child and blanks for a
descendant. Escapes, quoted parts, and all that stands in brackets belong to the compound, so a
combinator is only what stands outside of them.

The first section says what it means that one path continues another; the second takes a path
apart into its compounds and puts compounds together again.
-/
import Retrace.Text.Blank

set_option autoImplicit false

namespace Retrace.Path

open Retrace.Text

/-! ## One path inside another -/

/-- May the character stand between a path and its continuation? -/
def isJoint (c : Char) : Bool := c = ' ' || c = '>'

/-- What a path adds to the path of a container: nothing for the container itself, `none` if the
path is not that of something inside of it. A continuation starts with a blank or with `>`, so a
longer class name or a position behind the container's path is not one. -/
def relativeTo? (container path : String) : Option String :=
  if container = "" then none
  else match container.toList.isPrefixOf? path.toList with
    | none => none
    | some [] => some ""
    | some (c :: rest) =>
      if isJoint c then some (String.ofList ((c :: rest).dropWhile isJoint)) else none

/-- Does the path go on with a child after as many characters as the container's path has? -/
def continuesWithChild (container path : String) : Bool :=
  ((path.toList.drop container.length).dropWhile isBlank).head? == some '>'

/-! ## Compounds -/

/-- How an element is reached from the one before it. -/
inductive Combinator where
  | child
  | descendant
  deriving Repr, DecidableEq

/-- A combinator as it stands between two compounds. -/
def Combinator.text : Combinator → String
  | .child => " > "
  | .descendant => " "

/-- One compound of a path. The first one has no combinator, unless the path starts with `>`. -/
structure Compound where
  combinator : Option Combinator
  text : String
  deriving Repr, DecidableEq

/-- Where a scan stands: the combinator and the characters of the compound it is in, how many
brackets are open, and the quote it is within. More brackets may close than open. -/
structure Scan where
  combinator : Option Combinator := none
  compound : List Char := []
  depth : Int := 0
  quote : Option Char := none
  deriving Repr, DecidableEq

namespace Scan

/-- The scan with a character added to its compound. -/
def push (s : Scan) (c : Char) : Scan := { s with compound := s.compound ++ [c] }

/-- The compound of the scan, if it has any character. -/
def finished (s : Scan) : List Compound :=
  if s.compound.isEmpty then [] else [⟨s.combinator, String.ofList s.compound⟩]

/-- The scan behind a blank that separates compounds. Before a compound it changes nothing. -/
def pastBlank (s : Scan) : Scan :=
  if s.compound.isEmpty then s else { s with combinator := some .descendant, compound := [] }

/-- The scan behind a `>` that separates compounds. -/
def pastChild (s : Scan) : Scan := { s with combinator := some .child, compound := [] }

/-- The scan behind a character that belongs to the compound. Outside of quotes, quotes and
brackets are taken note of. -/
def take (s : Scan) (c : Char) : Scan :=
  match s.quote with
  | some q => if c = q then { s.push c with quote := none } else s.push c
  | none =>
    if c = '"' || c = '\'' then { s.push c with quote := some c }
    else if c = '(' || c = '[' then { s.push c with depth := s.depth + 1 }
    else if c = ')' || c = ']' then { s.push c with depth := s.depth - 1 }
    else s.push c

/-- Is the scan outside of quotes and brackets? -/
def isOpen (s : Scan) : Bool := s.quote.isNone && s.depth == 0

/-- The compounds of the rest of a path. -/
def compounds (s : Scan) : List Char → List Compound
  | [] => s.finished
  -- an escape is taken whole, within quotes as well
  | '\\' :: c :: rest => ((s.push '\\').push c).compounds rest
  | c :: rest =>
    if s.isOpen && isBlank c then s.finished ++ s.pastBlank.compounds rest
    else if s.isOpen && c = '>' then s.finished ++ s.pastChild.compounds rest
    else (s.take c).compounds rest

end Scan

/-- The compounds of a path, in their order. -/
def compounds (path : String) : List Compound := Scan.compounds {} path.toList

/-- The text of a compound behind another one. A missing combinator is written as a descendant's. -/
def Compound.continued (c : Compound) : String := (c.combinator.getD .descendant).text ++ c.text

/-- The path of the compounds. The combinator of the first one is left out. -/
def join : List Compound → String
  | [] => ""
  | first :: rest => first.text ++ String.join (rest.map Compound.continued)

end Retrace.Path
