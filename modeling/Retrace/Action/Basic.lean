/-
Recorded actions.

An action says what was done (`Kind`), to which element (`locator`), and with which value. The
type of values is a parameter: while a page is recorded a value is whatever the page hands over,
and once a log has been read back it is a text.
-/
import Retrace.Text.Quoted

set_option autoImplicit false

namespace Retrace

/-- What an action does. Three kinds do nothing by themselves and mark the bounds of a loop over
the rows of a table. -/
inductive Kind where
  | click
  | input
  | select
  | label
  | tableLoopStart
  | tableLoopEnd
  | tablePaginationNext
  deriving Repr, DecidableEq

namespace Kind

def all : List Kind :=
  [.click, .input, .select, .label, .tableLoopStart, .tableLoopEnd, .tablePaginationNext]

/-- The name of a kind in records and messages. -/
def name : Kind → String
  | .click => "click"
  | .input => "input"
  | .select => "select"
  | .label => "label"
  | .tableLoopStart => "tableLoopStart"
  | .tableLoopEnd => "tableLoopEnd"
  | .tablePaginationNext => "tablePaginationNext"

def ofName? (s : String) : Option Kind := all.find? (·.name == s)

/-- Reading a kind's name gives the kind back. -/
@[simp] theorem ofName?_name (k : Kind) : ofName? k.name = some k := by
  cases k <;> decide

/-- Does the kind mark a bound of a loop? -/
def isBoundary : Kind → Bool
  | .tableLoopStart | .tableLoopEnd | .tablePaginationNext => true
  | .click | .input | .select | .label => false

end Kind

/-- One recorded action. Only label actions carry a label. -/
structure Action (α : Type) where
  kind : Kind
  locator : String
  value : Option α := none
  label : Option String := none
  timestamp : Float := 0.0

namespace Action

variable {α β : Type}

def map (f : α → β) (a : Action α) : Action β :=
  { a with value := a.value.map f }

/-- Do the two actions do the same thing to the same element? -/
def sameTarget (a b : Action α) : Bool := a.kind == b.kind && a.locator == b.locator

end Action

end Retrace
