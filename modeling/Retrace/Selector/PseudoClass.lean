/-
Pseudo-classes: conditions by name.

A pseudo-class is a state of an element or a place of it in the page. A page is looked at without
anyone acting on it, so the states that come from acting on it, such as the pointer resting on an
element, hold of none.
-/
import Retrace.Page.Control

set_option autoImplicit false

namespace Retrace

/-- A condition that is known by its name alone. -/
inductive PseudoClass where
  | link
  | checked
  | default
  | indeterminate
  | disabled
  | enabled
  | required
  | optional
  | readOnly
  | readWrite
  | inRange
  | outOfRange
  | placeholderShown
  | opened
  | muted
  | root
  | scope
  | defined
  | empty
  | firstChild
  | lastChild
  | onlyChild
  | firstOfType
  | lastOfType
  | onlyOfType
  /-- A state that no element is in while nothing happens. -/
  | active
  deriving Repr, DecidableEq

namespace PseudoClass

/-! ## Names -/

/-- The names of the conditions that hold of some elements. -/
def names : List (String × PseudoClass) :=
  [("link", .link), ("any-link", .link), ("checked", .checked), ("default", .default),
    ("indeterminate", .indeterminate), ("disabled", .disabled), ("enabled", .enabled),
    ("required", .required), ("optional", .optional), ("read-only", .readOnly),
    ("read-write", .readWrite), ("in-range", .inRange), ("out-of-range", .outOfRange),
    ("placeholder-shown", .placeholderShown), ("open", .opened), ("muted", .muted),
    ("root", .root), ("scope", .scope), ("defined", .defined), ("empty", .empty),
    ("first-child", .firstChild), ("last-child", .lastChild), ("only-child", .onlyChild),
    ("first-of-type", .firstOfType), ("last-of-type", .lastOfType),
    ("only-of-type", .onlyOfType)]

/-- The names of the states that elements are in only while something happens. -/
def activeNames : List String :=
  ["active", "autofill", "buffering", "current", "focus", "focus-visible", "focus-within",
    "fullscreen", "future", "host", "hover", "local-link", "modal", "past", "paused",
    "picture-in-picture", "playing", "popover-open", "seeking", "stalled", "target",
    "target-within", "user-invalid", "user-valid", "visited", "volume-locked"]

/-- The names that are followed by an argument. -/
def argumentNames : List String :=
  ["contains", "-soup-contains", "-soup-contains-own", "has", "is", "matches", "not", "where",
    "host-context", "dir", "lang", "nth-child", "nth-last-child", "nth-last-of-type",
    "nth-of-type"]

def ofName? (name : String) : Option PseudoClass :=
  (names.lookup name).or (if activeNames.contains name then some .active else none)

/-! ## Places in the page -/

/-- The elements with the same parent, the element itself included. -/
def siblings (page : Page) (i : Nat) : List Nat :=
  page.places.filter fun j => page.parent? j == page.parent? i

/-- Is the element the root of the page, or of a frame in it? There must be nothing beside it. -/
def isRoot (page : Page) (i : Nat) : Bool :=
  (i == 0 || (page.parent? i).any (page.tag · == Control.frameTag))
    && siblings page i == [i]
    && page.texts.all fun run => run.owner != page.parent? i || Text.strip run.text == ""

/-- May the character stand in an element without its being more than empty? -/
def isFiller (c : Char) : Bool :=
  c = ' ' || c = '\t' || c = '\n' || c = '\r' || c = '\x0c'

/-- Is there nothing inside of the element? The content of a frame is not inside of it. -/
def isEmpty (page : Page) (i : Nat) : Bool :=
  page.tag i == Control.frameTag
    || (!page.hasChildren i
      && page.texts.all fun run => run.owner != some i || run.text.toList.all isFiller)

/-- Is the tag one of the language of pages, or of another language that is named in it? -/
def isDefined (tag : String) : Bool := !tag.toList.contains '-' || tag.toList.contains ':'

/-! ## Meaning -/

/-- Has the element one of these tags, and an attribute of that name? -/
def tagHas (page : Page) (i : Nat) (tags : List String) (name : String) : Bool :=
  tags.contains (page.tag i) && Control.has page i name

/-- Does the condition hold of the element? `scope` is the element from which one looks. -/
def holds (page : Page) (scope i : Nat) : PseudoClass → Bool
  | .link => tagHas page i ["a", "area"] "href"
  | .checked => Control.isChecked page i
  | .default => Control.isDefault page i
  | .indeterminate => Control.isIndeterminate page i
  | .disabled => Control.isDisabled page i
  | .enabled => Control.isEnabled page i
  | .required => Control.isEntry page i && Control.has page i "required"
  | .optional => Control.isEntry page i && !Control.has page i "required"
  | .readOnly => !Control.isWritable page i
  | .readWrite => Control.isWritable page i
  | .inRange => Control.keepsWithin? page i == some true
  | .outOfRange => Control.keepsWithin? page i == some false
  | .placeholderShown => Control.showsHint page i
  | .opened => tagHas page i ["details", "dialog"] "open"
  | .muted => tagHas page i ["video", "audio"] "muted"
  | .root => isRoot page i
  | .scope => i == scope
  | .defined => isDefined (page.tag i)
  | .empty => isEmpty page i
  | .firstChild => (siblings page i).head? == some i
  | .lastChild => (siblings page i).getLast? == some i
  | .onlyChild => siblings page i == [i]
  | .firstOfType => (page.sameTagSiblings i).head? == some i
  | .lastOfType => (page.sameTagSiblings i).getLast? == some i
  | .onlyOfType => page.sameTagSiblings i == [i]
  | .active => false

end PseudoClass

end Retrace
