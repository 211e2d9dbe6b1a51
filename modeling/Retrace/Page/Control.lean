/-
The states of form controls.

What a control shows and allows, as far as its markup tells: whether it is checked, can be used,
must be filled in, and so on. A control can be switched off by itself or by the fields around it,
and buttons and choices belong to a form. A frame is a page of its own, so what is around it has
no effect on what is inside.
-/
import Retrace.Page.Amount
import Retrace.Page.Basic
import Retrace.Text.Lower

set_option autoImplicit false

namespace Retrace.Control

/-! ## Attributes -/

def frameTag : String := "iframe"

/-- Is the attribute there, whatever its value? -/
def has (page : Page) (i : Nat) (name : String) : Bool := (page.attr? i name).isSome

/-- Is the attribute there, with nothing in it? -/
def hasEmpty (page : Page) (i : Nat) (name : String) : Bool :=
  (page.attr? i name).any fun v => (Text.dropFinalBreak v.toList).isEmpty

/-- Is the attribute there, with something in it? -/
def hasFilled (page : Page) (i : Nat) (name : String) : Bool :=
  has page i name && !hasEmpty page i name

/-- A value in lower case, without a line feed at its end. -/
def plainValue (value : String) : String :=
  Text.lowerAscii (String.ofList (Text.dropFinalBreak value.toList))

/-- Is the element's type one of these? -/
def hasType (page : Page) (i : Nat) (types : List String) : Bool :=
  (page.attr? i "type").any fun v => types.contains (plainValue v)

/-- Is the element an input of one of these types? -/
def isInput (page : Page) (i : Nat) (types : List String) : Bool :=
  page.tag i == "input" && hasType page i types

/-- Is the element an input for text of its own accord, since it does not say of which type it is,
or is it of one of these types? -/
def isTextInput (page : Page) (i : Nat) (types : List String) : Bool :=
  page.tag i == "input" && (!hasFilled page i "type" || hasType page i types)

/-! ## Around a control -/

/-- The elements around an element, innermost first, as far as the frame reaches. -/
def around (page : Page) (i : Nat) : List Nat :=
  (page.enclosing i).takeWhile (page.tag · != frameTag)

/-- The form that an element belongs to. -/
def formOf? (page : Page) (i : Nat) : Option Nat :=
  (around page i).find? (page.tag · == "form")

/-- Where an element without a form belongs to: the page, or the outermost element around it in
its frame. -/
def groundOf (page : Page) (i : Nat) : Option Nat :=
  if (page.enclosing i).any (page.tag · == frameTag) then (around page i).getLast? else none

/-- The elements of a form in document order, as far as the frame reaches. -/
def inForm (page : Page) (form : Nat) : List Nat :=
  (page.below (some form)).filter fun j => (around page j).contains form

/-! ## States -/

/-- Can the element be checked, and is it? -/
def isChecked (page : Page) (i : Nat) : Bool :=
  (isInput page i ["checkbox", "radio"] && has page i "checked")
    || (page.tag i == "option" && has page i "selected")

/-- Is the element a control that a field set around it can switch off? -/
def isField (page : Page) (i : Nat) : Bool :=
  ["button", "select", "textarea", "fieldset"].contains (page.tag i)
    || (page.tag i == "input" && !hasType page i ["hidden"])

/-- Can the element be switched off at all? -/
def isSwitchable (page : Page) (i : Nat) : Bool :=
  isField page i || ["optgroup", "option"].contains (page.tag i)

/-- Is the element of this tag, and switched off by itself? -/
def isOff (page : Page) (tag : String) (i : Nat) : Bool :=
  page.tag i == tag && has page i "disabled"

/-- Is the element the first legend of what is around it? -/
def isFirstLegend (page : Page) (i : Nat) : Bool :=
  page.tag i == "legend" && page.positionOfType i == 1

/-- Does a field set that is switched off hold the element? What stands in the field set's first
legend is left as it is. -/
def isOffByFieldset (page : Page) (i : Nat) : Bool :=
  let line := i :: around page i
  (line.zip line.tail).any fun (inner, outer) =>
    isOff page "fieldset" outer && (inner == i || !isFirstLegend page inner)

def isDisabled (page : Page) (i : Nat) : Bool :=
  (isSwitchable page i && has page i "disabled")
    || (page.tag i == "option" && (around page i).head?.any (isOff page "optgroup"))
    || (isField page i && isOffByFieldset page i)

def isEnabled (page : Page) (i : Nat) : Bool := isSwitchable page i && !isDisabled page i

/-- Is the element a control that can be left empty or not? -/
def isEntry (page : Page) (i : Nat) : Bool :=
  ["input", "select", "textarea"].contains (page.tag i)

def isSubmit (page : Page) (i : Nat) : Bool :=
  ["button", "input"].contains (page.tag i) && hasType page i ["submit"]

/-- The first button of a form that submits it. A form inside of the form ends the search. -/
def firstSubmit? (page : Page) (form : Nat) : Option Nat :=
  ((inForm page form).takeWhile (page.tag · != "form")).find? fun j =>
    ["button", "input"].contains (page.tag j) && Text.lowerAscii (page.attr j "type") == "submit"

/-- Is the element what its form starts from: checked, or the button that submits it? -/
def isDefault (page : Page) (i : Nat) : Bool :=
  isChecked page i
    || (isSubmit page i && (formOf? page i).any fun form => firstSubmit? page form == some i)

/-- Are both elements choices under one name in one form? -/
def sameChoice (page : Page) (i j : Nat) : Bool :=
  page.attr? i "name" == page.attr? j "name" && formOf? page i == formOf? page j
    && ((formOf? page i).isSome || groundOf page i == groundOf page j)

/-- Is another choice of the same name checked? -/
def isChosenElsewhere (page : Page) (i : Nat) : Bool :=
  page.places.any fun j =>
    j != i && page.tag j == "input" && Text.lowerAscii (page.attr j "type") == "radio"
      && has page j "checked" && sameChoice page i j

/-- Is it open what the element says? -/
def isIndeterminate (page : Page) (i : Nat) : Bool :=
  (isInput page i ["checkbox"] && has page i "indeterminate")
    || (page.tag i == "progress" && !has page i "value")
    || (isInput page i ["radio"] && !has page i "checked"
      && (!hasFilled page i "name" || !isChosenElsewhere page i))

/-- The types of input into which text is written that can be short of a hint. -/
def hintTypes : List String := ["text", "search", "url", "tel", "email", "password", "number"]

/-- The text inside of an element, all of it and as it stands. -/
def rawText (page : Page) (i : Nat) : String :=
  String.join <| (page.texts.filter fun run => run.owner.any (page.isWithin · i)).map (·.text)

/-- Does the control show a hint, for want of a value? -/
def showsHint (page : Page) (i : Nat) : Bool :=
  hasFilled page i "placeholder"
    && ((isTextInput page i hintTypes && !hasFilled page i "value")
      || (page.tag i == "textarea" && ["", "\n"].contains (rawText page i)))

/-- The types of input that are filled in by typing. -/
def typedTypes : List String :=
  ["date", "datetime-local", "email", "month", "number", "password", "search", "tel", "text",
    "time", "url", "week"]

def isWritable (page : Page) (i : Nat) : Bool :=
  ((page.tag i == "textarea" || isTextInput page i typedTypes)
      && !has page i "readonly" && !isDisabled page i)
    || (page.attr? i "contenteditable").any fun v => ["", "true"].contains (plainValue v)

/-! ## Bounds -/

/-- The types of input that can have bounds. -/
def boundedTypes : List String :=
  ["date", "month", "week", "time", "datetime-local", "number", "range"]

/-- Does the control's amount keep within its bounds? `none` if there are no bounds. A control
without an amount keeps within any. -/
def keepsWithin? (page : Page) (i : Nat) : Option Bool :=
  let type := Text.lowerAscii (page.attr i "type")
  let amount? (name : String) := (page.attr? i name).bind (Amount.read? type)
  if !isInput page i boundedTypes then none
  else match amount? "min", amount? "max" with
    | none, none => none
    | low, high => some <| (amount? "value").all (Amount.keepsWithin (type == "time") low high)

end Retrace.Control
