/-
The language and the direction of an element.

An element has the language that it states, or that the nearest element around it states. Where
none of them does, the head of the page may name the language of all. A language is matched part
by part, from the most general one on; a star stands for any first part, and parts may be left out
behind it, but for those of a single character.

A direction is stated in the same way. The root of a page that states none is written from left to
right. A direction that is left to the text is taken to be that one, too.
-/
import Retrace.Page.Control

set_option autoImplicit false

namespace Retrace

/-! ## Languages -/

namespace Language

/-- The parts of a range without the stars behind the first one, which stand for nothing. -/
def rangeParts (range : String) : List String :=
  match (Text.lower range).splitOn "-" with
  | [] => []
  | first :: more => first :: more.filter (· != "*")

/-- Do the further parts of a range come in this order among those of a language? -/
def followsParts : List String → List String → Bool
  | [], _ => true
  | _ :: _, [] => false
  | r :: range, p :: parts =>
    if r = "" then false
    else if r = p then followsParts range parts
    else p.length != 1 && followsParts (r :: range) parts

/-- Does a language lie in a range? The empty range is for elements of no language. -/
def inRange (language range : String) : Bool :=
  match rangeParts range, (Text.lower language).splitOn "-" with
  | [""], [""] => true
  | r :: range, p :: parts =>
    (if r = "*" then p != "" || !parts.isEmpty else r == p) && followsParts range parts
  | _, _ => false

/-- The elements right inside of an element, or at the top of the page. -/
def inside (page : Page) (i : Option Nat) : List Nat := page.places.filter (page.parent? · == i)

/-- The language that one element states for the whole page, if it does. -/
def ofMeta? (page : Page) (i : Nat) : Option String :=
  if page.tag i = "meta" && Text.lowerAscii (page.attr i "http-equiv") = "content-language" then
    (page.attr? i "content").filter (· != "")
  else none

/-- The language that the head of the page states; of a frame it is the head within. -/
def ofHead? (page : Page) (top : Option Nat) : Option String := do
  let html ← (inside page top).find? (page.tag · == "html")
  let head ← (inside page (some html)).find? (page.tag · == "head")
  (inside page (some head)).findSome? (ofMeta? page)

/-- The language of an element. The empty language gives way to one that is stated further out. -/
def of? (page : Page) (i : Nat) : Option String :=
  let line := i :: Control.around page i
  let stated := line.filterMap (page.attr? · "lang")
  let top := if line.length = (page.ancestors i).length then none else line.getLast?
  ((stated.find? (· != "")).or stated.getLast?).or (ofHead? page top)

end Language

/-! ## Directions -/

/-- In which direction lines are written. -/
inductive Direction where
  | leftToRight
  | rightToLeft
  deriving Repr, DecidableEq

namespace Direction

def ofName? (name : String) : Option Direction :=
  if name = "ltr" then some .leftToRight else if name = "rtl" then some .rightToLeft else none

/-- Is the direction left to the text of the element? -/
def isOpen (page : Page) (i : Nat) (stated : String) : Bool :=
  stated == "auto" || page.tag i == "bdi"

/-- Does the element begin a page, or is it a telephone number, both of which go from left to
right? -/
def isPlain (page : Page) (i : Nat) : Bool :=
  i == 0 || (page.parent? i).any (page.tag · == Control.frameTag)
    || (page.tag i == "input" && Text.lowerAscii (page.attr i "type") == "tel")

/-- The direction of the first of the elements, innermost first, that has one. -/
def first? (page : Page) : List Nat → Option Direction
  | [] => none
  | i :: around =>
    let stated := Text.lowerAscii (page.attr i "dir")
    match ofName? stated with
    | some d => some d
    | none => if isPlain page i || isOpen page i stated then some .leftToRight
      else first? page around

def of? (page : Page) (i : Nat) : Option Direction := first? page (i :: Control.around page i)

end Direction

end Retrace
