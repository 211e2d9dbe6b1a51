/-
Plans of scripts.

A plan is a table of nodes, one for each action that the script performs, and the steps of the
script in order. A step is a single node or a loop over the rows of a table. Loops and clicks
refer to nodes by their place in the table.
-/
import Retrace.Action.Basic

set_option autoImplicit false

namespace Retrace

/-- An action of the script. -/
structure Node (α : Type) where
  kind : Kind
  /-- From the row of the loop if `relative`, else from the page. -/
  locator : String
  value : Option α := none
  label : Option String := none
  relative : Bool := false
  /-- The nodes that act on the page which this click opened. -/
  postClicks : List Nat := []

/-- The rows of a table whose recorded paths do not reveal them. -/
def defaultRows : String := "tr:has(td), [role='row']"

/-- A loop over the rows of a table. -/
structure Loop where
  /-- The path of the table. -/
  subject : String
  /-- The path of the control that shows the next page. -/
  pagination : Option String := none
  rowSelector : String := defaultRows
  body : List Nat := []
  deriving Repr, DecidableEq

/-- A step of the script. -/
inductive Step where
  | node (index : Nat)
  | loop (loop : Loop)
  deriving Repr, DecidableEq

def Step.loop? : Step → Option Loop
  | .node _ => none
  | .loop l => some l

/-- What a script does. -/
structure Plan (α : Type) where
  baseUrl : α
  nodes : List (Node α) := []
  steps : List Step := []
  /-- The number of actions that were planned. -/
  actionCount : Nat := 0
  /-- The number of loop bounds that were out of place and left out. -/
  skipped : Nat := 0

namespace Plan

variable {α : Type}

/-- The loops among the steps, in order. -/
def loops (plan : Plan α) : List Loop := plan.steps.filterMap Step.loop?

/-- The plan with a node added at the end of its table; its place is the former size. -/
def addNode (plan : Plan α) (node : Node α) : Plan α :=
  { plan with nodes := plan.nodes ++ [node] }

/-- The plan with a step added at its end. -/
def addStep (plan : Plan α) (step : Step) : Plan α := { plan with steps := plan.steps ++ [step] }

end Plan

end Retrace
