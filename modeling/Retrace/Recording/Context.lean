/-
What a recording session knows beside its log.

The loop over a table is recorded in phases. First the user asks for it and picks a table; then
the control for the next page is picked or skipped; from then on until the end of the loop, what
is done in a row is meant for all rows. A table is remembered by its locator only, since pages
come and go. Highlights belong to the page of the latest event.
-/
import Retrace.Action.Basic
import Retrace.Json.Value

set_option autoImplicit false

namespace Retrace

/-- How far the recording of a loop has come. -/
inductive Phase where
  | inactive
  /-- The user is to pick a table. -/
  | selecting
  /-- The loop has begun, and the user is to pick the control for the next page. -/
  | selectingNext
  /-- The loop has begun, and no control is looked for any more. -/
  | active
  deriving Repr, DecidableEq

namespace Phase

def name : Phase → String
  | .inactive => "inactive"
  | .selecting => "selecting"
  | .selectingNext => "selecting_next_button"
  | .active => "active"

def ofName? (s : String) : Option Phase :=
  [Phase.inactive, .selecting, .selectingNext, .active].find? (·.name == s)

def caption : Phase → String
  | .inactive => "TableLoop"
  | .selecting => "Select Table..."
  | .selectingNext => "Select Next Button..."
  | .active => "TableLoop (Active)"

def loopOpen : Phase → Bool
  | .selectingNext | .active => true
  | .inactive | .selecting => false

end Phase

/-- The element that is about to get a label. -/
structure Pinned where
  locator : String
  text : String
  deriving Repr, DecidableEq

/-- The state of a session beside its log. -/
structure Context where
  recording : Bool := false
  /-- The address, which may be any value. The empty text stands for none. -/
  baseUrl : Json := .str ""
  phase : Phase := .inactive
  /-- The locator of the table of the open loop. -/
  subject : Option String := none
  modifierHeld : Bool := false
  /-- The locator of the table that was clicked while the modifier was held. -/
  markedTable : Option String := none
  highlightedTable : Option Nat := none
  highlightedElement : Option Nat := none
  labelMode : Bool := false
  pinned : Option Pinned := none

/-- A clock, by its readings and the number of those that were taken. -/
structure Clock where
  reading : Nat → Float
  taken : Nat := 0

namespace Clock

def now (c : Clock) : Float := c.reading c.taken

def next (c : Clock) : Clock := { c with taken := c.taken + 1 }

/-- A clock that shows the given readings in turn, and the last one from then on. -/
def ofList (readings : List Float) : Clock :=
  { reading := fun n => readings[n]?.getD (readings.getLast?.getD 0.0) }

/-- A clock that shows the multiples of a step, the step itself first. -/
def ofStep (step : Float) : Clock := { reading := fun n => step * (n + 1).toFloat }

end Clock

end Retrace
