/-
Events on a page.

An event is what the recorder hears of one gesture: its type, the page at that moment and the
element that was hit, and what the browser knows of that element. Events come as JSON objects
with the markup of the page, in which the element that was hit carries a marker attribute; the
marker is taken off before anyone looks at the element.

What becomes of the markup is a matter of the parser, which may refuse it.
-/
import Retrace.Json.Display
import Retrace.Decimal.Numeral
import Retrace.Page.Markup

set_option autoImplicit false

namespace Retrace

/-- What kind of gesture an event reports. -/
inductive EventType where
  | click
  | input
  | change
  | keyDown
  | keyUp
  | mouseOver
  /-- Any other type. Nothing is recorded for it. -/
  | other (name : String)
  deriving Repr, DecidableEq

def EventType.ofName (name : String) : EventType :=
  match name with
  | "click" => .click
  | "input" => .input
  | "change" => .change
  | "keydown" => .keyDown
  | "keyup" => .keyUp
  | "mouseover" => .mouseOver
  | _ => .other name

/-- One event. -/
structure Event where
  type : EventType
  page : Page := .empty
  /-- The element that was hit. -/
  target : Option Nat := none
  /-- The mouse cursor over the element. -/
  cursor : String := ""
  /-- The tab index of the element, where the browser reports it. -/
  tabIndex : Option Int := none
  /-- The value of a form control. -/
  value : Option Json := none
  /-- The text of the chosen option. -/
  selectedText : Option Json := none
  key : String := ""
  url : String := ""

namespace Event

/-- The attribute that marks the element that was hit. -/
def targetMarker : String := "data-recorder-target"

/-- What is wrong with markup. -/
inductive MarkupError where
  /-- It is something else than a text. -/
  | noText (found : Json)
  | refused (why : Markup.Refusal)

/-- Why a payload is no event. -/
inductive PayloadError where
  | notAnObject (found : Json)
  | unsupportedType (name : String)
  /-- The markup is not the text of a page. -/
  | markupNotText (why : MarkupError)
  /-- A number for the tab index is infinite. -/
  | infiniteTabIndex

def MarkupError.message : MarkupError → String
  | .noText found =>
    match found with
    | .arr _ => "expected string or bytes-like object, got " ++ Text.quoted found.sortName
    | .obj _ => "unhashable type: 'slice'"
    | _ => s!"Incoming markup is of an invalid type: {found.inspect}. "
        ++ "Markup must be a string, a bytestring, or an open filehandle."
  | .refused why => why.message

def PayloadError.message : PayloadError → String
  | .notAnObject found => Text.quoted found.sortName ++ " object has no attribute 'get'"
  | .unsupportedType name => "Unsupported event type: " ++ Text.quoted name
  | .markupNotText why => why.message
  | .infiniteTabIndex => "cannot convert float infinity to integer"

/-- Is the payload malformed in a way that is put up with? The value is at fault then, and not its
sort. -/
def PayloadError.isDropped : PayloadError → Bool
  | .unsupportedType _ | .markupNotText (.refused (.overlongNumber _)) => true
  | .notAnObject _ | .markupNotText _ | .infiniteTabIndex => false

/-- The whole number that a value stands for, if any. -/
def readWhole : Json → Except PayloadError (Option Int)
  | .bool b => .ok (some (if b then 1 else 0))
  | .int n => .ok (some n)
  | .float x =>
    match Decimal.decode x with
    | .nan => .ok none
    | .infinite _ => .error .infiniteTabIndex
    | .finite negative mantissa exponent =>
      .ok (some (Decimal.wholePart negative mantissa exponent))
  | .str s => .ok (Decimal.readInt? s)
  | _ => .ok none

/-- The page with its marked element, the marker taken off. -/
def unmark (page : Page) : Page × Option Nat :=
  match page.places.find? fun i => (page.attr? i targetMarker).isSome with
  | none => (page, none)
  | some i => (page.mapAttrs i (·.filter (·.1 != targetMarker)), some i)

/-- The page of a payload and the element that was hit. -/
def readPage [Markup.Parser] (markup : Json) : Except PayloadError (Page × Option Nat) :=
  if !markup.truthy then .ok (.empty, none)
  else match markup with
    | .str text =>
      match Markup.Parser.parse text with
      | .ok page => .ok (unmark page)
      | .error why => .error (.markupNotText (.refused why))
    | found => .error (.markupNotText (.noText found))

/-- A member that is null if it is missing. -/
def member (fields : Fields) (name : String) : Json := (fields.get? name).getD .null

/-- The text of a member, empty if nothing is said. -/
def textOf (fields : Fields) (name : String) : String :=
  let v := member fields name
  if v.truthy then v.display else ""

/-- A member that is left out if it is null. -/
def valueOf (fields : Fields) (name : String) : Option Json :=
  match member fields name with
  | .null => none
  | v => some v

def ofPayload [Markup.Parser] : Json → Except PayloadError Event
  | .obj fields => do
    let name := ((Fields.get? fields "type").getD (.str "")).display
    let type := EventType.ofName name
    if type = .other name then throw (.unsupportedType name)
    let (page, target) ← readPage (member fields "html")
    let tabIndex ← readWhole (member fields "tabIndex")
    return {
      type, page, target, tabIndex
      cursor := textOf fields "cursor"
      value := valueOf fields "value"
      selectedText := valueOf fields "selectedText"
      key := textOf fields "key"
      url := textOf fields "url" }
  | found => .error (.notAnObject found)

end Event

end Retrace
