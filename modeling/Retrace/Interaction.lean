/-
Which events are actions.

A click counts if it hits something that is made to be clicked: an interactive element by its tag,
its role, its click handler, the pointer cursor or its place in the tab order. Changes count on
form controls, except for those that a click toggles. Nothing counts on the recorder's own
overlay.
-/
import Retrace.Action.Basic
import Retrace.Event
import Retrace.Settings

set_option autoImplicit false

namespace Retrace.Interaction

/-! ## What an element is -/

def interactiveTags : List String := ["a", "button", "input", "select", "textarea", "summary"]

def interactiveRoles : List String :=
  ["button", "link", "checkbox", "radio", "switch", "tab", "menuitem", "option"]

def controlTags : List String := ["input", "textarea", "select"]

/-- Types of input that a click toggles. -/
def toggleTypes : List String := ["checkbox", "radio"]

def tableRoles : List String := ["table", "grid"]

def editableValues : List String := ["", "true", "plaintext-only"]

/-- The role of an element, in lower case. -/
def role (page : Page) (i : Nat) : String := Text.lower (Text.strip (page.attr i "role"))

/-- The tab index that the element's attribute gives; an element without one is not in the tab
order. -/
def tabIndex (page : Page) (i : Nat) : Int :=
  ((page.attr? i "tabindex").bind fun raw => Decimal.readInt? (Text.strip raw)).getD (-1)

/-- Is the element interactive by its markup? -/
def isInteractiveMarkup (page : Page) (i : Nat) : Bool :=
  interactiveTags.contains (page.tag i) || interactiveRoles.contains (role page i)
    || page.attr i "onclick" != ""

/-- Is the element interactive? What an event says of it wins over its attribute. -/
def isInteractive (page : Page) (i : Nat) (event : Option Event := none) : Bool :=
  let hit := event.filter (·.target == some i)
  isInteractiveMarkup page i || hit.any (·.cursor == "pointer")
    || 0 ≤ ((hit.bind (·.tabIndex)).getD (tabIndex page i))

/-- Is the element a form control, or editable in place? -/
def isFormControl (page : Page) (i : Nat) : Bool :=
  controlTags.contains (page.tag i)
    || (page.attr? i "contenteditable").any fun v => editableValues.contains (Text.lower v)

/-- Is the element toggled by a click? -/
def isToggle (page : Page) (i : Nat) : Bool :=
  page.tag i == "input" && toggleTypes.contains (Text.lower (page.attr i "type"))

/-! ## What is around an element -/

/-- Does the element belong to the overlay? -/
def isIgnored (settings : Settings) (page : Page) (i : Nat) : Bool :=
  (page.ancestors i).any fun j => (page.classes j).contains settings.ignoreClass

/-- Is the element a table by its tag, its role or its class? -/
def isTable (settings : Settings) (page : Page) (i : Nat) : Bool :=
  page.tag i == "table" || tableRoles.contains (role page i)
    || (page.classes i).contains settings.tableClass

/-- The innermost table that the element is, or lies in. The body of the page and what is around
it are none. -/
def findTable (settings : Settings) (page : Page) (i : Nat) : Option Nat :=
  ((page.ancestors i).takeWhile fun j => page.tag j != "body").find? (isTable settings page)

/-- Can the element be given a label? It must have text and no elements inside. -/
def isLabelable (settings : Settings) (page : Page) (i : Nat) : Bool :=
  !isIgnored settings page i && !page.hasChildren i && page.text i != ""

/-! ## What an event does -/

/-- The kind of the action that an event is, if it is one. -/
def classify (settings : Settings) (event : Event) : Option Kind :=
  match event.target with
  | none => none
  | some i =>
    if isIgnored settings event.page i then none
    else match event.type with
      | .click => if isInteractive event.page i event then some .click else none
      | .input | .change =>
        if event.page.tag i = "select" then some .select
        else if isToggle event.page i then none
        else if isFormControl event.page i then some .input
        else none
      | _ => none

end Retrace.Interaction
