/-
From markup to a page.

Elements are opened and closed as the markup says, and nothing is implied: an element without an
end holds all that follows it up to the end of an element around it. The end of an element closes
everything inside of it, and an end without an open element of its tag does nothing. Void
elements are closed where they start, and one later end of their tag, if it comes, is theirs and
is skipped.

A parser gives the page, unless the markup is refused.
-/
import Retrace.Page.Basic
import Retrace.Page.Token

set_option autoImplicit false

namespace Retrace.Markup

def voidTags : List String :=
  ["area", "base", "br", "col", "embed", "hr", "img", "input", "keygen", "link", "menuitem",
    "meta", "param", "source", "track", "wbr", "basefont", "bgsound", "command", "frame", "image",
    "isindex", "nextid", "spacer"]

/-- A page that is being built. -/
structure Builder where
  page : Page := .empty
  /-- The elements that are open, innermost first. -/
  openPlaces : List Nat := []
  /-- The text since the last tag. -/
  pending : List Char := []
  /-- The tags of void elements whose end may still come. -/
  owedEnds : List String := []

namespace Builder

/-- The pending text becomes a run of the innermost open element. -/
def flush (b : Builder) : Builder :=
  if b.pending.isEmpty then b
  else { b with
    page := b.page.pushText b.openPlaces.head? (String.ofList b.pending), pending := [] }

/-- Adds an element at the end of the page and leaves it open. -/
def openElement (b : Builder) (tag : String) (attrs : List (String × String)) : Builder :=
  let b := b.flush
  { b with
    page := b.page.push tag attrs b.openPlaces.head?
    openPlaces := b.page.size :: b.openPlaces }

/-- Closes the innermost open element of the tag with all that is open inside of it. -/
def closeElement (b : Builder) (tag : String) : Builder :=
  let b := b.flush
  match b.openPlaces.dropWhile fun i => b.page.tag i != tag with
  | [] => b
  | _ :: around => { b with openPlaces := around }

/-- The end of an element as it is written. -/
def endElement (b : Builder) (tag : String) : Builder :=
  if b.owedEnds.contains tag then { b with owedEnds := b.owedEnds.erase tag }
  else b.closeElement tag

def add (b : Builder) : Token → Builder
  | .text chars => { b with pending := b.pending ++ chars }
  | .gap => b.flush
  | .refused _ => b
  | .stop tag => b.endElement tag
  | .start tag attrs closed =>
    let b := b.openElement tag attrs
    if closed then b.closeElement tag
    else if voidTags.contains tag then
      -- closed at once, and yet a written end may follow
      let b := b.closeElement tag
      { b with owedEnds := tag :: b.owedEnds }
    else b

end Builder

end Retrace.Markup

namespace Retrace

/-- The page that a text of markup describes, as far as it is not refused. -/
def Page.ofMarkup (text : String) : Page :=
  ((Markup.tokens text).foldl Markup.Builder.add {}).flush.page

namespace Markup

def Token.refusal? : Token → Option Refusal
  | .refused why => some why
  | .start .. | .stop _ | .text _ | .gap => none

/-- Why the markup is refused, if it is. -/
def refusal? (text : String) : Option Refusal := (tokens text).findSome? Token.refusal?

/-- The page of a text, unless it is refused. -/
def read (text : String) : Except Refusal Page :=
  match refusal? text with
  | some why => .error why
  | none => .ok (Page.ofMarkup text)

/-- What makes pages of markup, or refuses it. -/
class Parser where
  parse : String → Except Refusal Page

instance : Parser where
  parse := read

end Markup

end Retrace
