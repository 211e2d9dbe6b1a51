/-
From a log to a plan.

The actions are visited once, in order. Outside of a loop each action is a step. Between the
bounds of a loop, an action on an element inside the table belongs to the row, with its path made
relative to the row; any other action happens on the page that the row's latest click opened,
and is kept with that click. A bound that is out of place is left out with a notice, and a loop
that is still open at the end is closed there.
-/
import Retrace.Path.Row
import Retrace.Plan.Basic

set_option autoImplicit false

namespace Retrace.Plan

variable {α : Type}

/-! ## Notices -/

/-- What is odd about a log. `position` is the place of the action in it. -/
inductive Notice where
  | loopAlreadyOpen (position : Nat) (subject ignored : String)
  | paginationOutsideLoop (position : Nat)
  | endWithoutStart (position : Nat)
  | neverClosed (subject : String)
  deriving Repr, DecidableEq

def Notice.message : Notice → String
  | .loopAlreadyOpen position subject ignored =>
    s!"Action {position}: table loop already open on {subject}; ignoring start on {ignored}"
  | .paginationOutsideLoop position =>
    s!"Action {position}: pagination marker outside a table loop; skipped"
  | .endWithoutStart position => s!"Action {position}: table loop end without a start; skipped"
  | .neverClosed subject =>
    s!"Table loop on {subject} was never closed; closing it at end of log"

/-! ## The open loop -/

/-- A loop whose end has not come yet. -/
structure OpenLoop where
  subject : String
  pagination : Option String := none
  /-- The rows, as the first path that reveals them has it. -/
  rowSelector : Option String := none
  body : List Nat := []
  /-- The node of the latest click on the row. -/
  currentClick : Option Nat := none
  deriving Repr, DecidableEq

def OpenLoop.close (l : OpenLoop) : Loop :=
  { subject := l.subject, pagination := l.pagination
    rowSelector := l.rowSelector.getD defaultRows, body := l.body }

/-- What has been planned so far. -/
structure Draft (α : Type) where
  plan : Plan α
  loop : Option OpenLoop := none
  notices : List Notice := []

/-! ## One action -/

/-- The node of an action, with the path that leads to its element. -/
def nodeOf (a : Action α) (locator : String) (relative : Bool) : Node α :=
  { kind := a.kind, locator, value := a.value, label := a.label, relative }

/-- Adds an action on an element of the row to the open loop. `path` is the element's path within
the table. -/
def Draft.addToRow (d : Draft α) (l : OpenLoop) (a : Action α) (path : String) : Draft α :=
  let (rows, within) := Path.splitRow path (Path.continuesWithChild l.subject a.locator)
  let index := d.plan.nodes.length
  -- the first path that reveals the rows decides; a click opens a new group of follow-ups
  { d with
    plan := d.plan.addNode (nodeOf a within true)
    loop := some { l with
      rowSelector := l.rowSelector.or rows
      body := l.body ++ [index]
      currentClick := if a.kind = .click then some index else l.currentClick } }

/-- Adds an action outside of the table to the open loop: to the latest click, or to the row
while there has been none. -/
def Draft.addBeside (d : Draft α) (l : OpenLoop) (a : Action α) : Draft α :=
  let index := d.plan.nodes.length
  let plan := d.plan.addNode (nodeOf a a.locator false)
  match l.currentClick with
  | none => { d with plan, loop := some { l with body := l.body ++ [index] } }
  | some click =>
    let nodes := plan.nodes.modify click fun n => { n with postClicks := n.postClicks ++ [index] }
    { d with plan := { plan with nodes }, loop := some l }

def Draft.skip (d : Draft α) (notice : Notice) : Draft α :=
  { d with plan := { d.plan with skipped := d.plan.skipped + 1 }, notices := d.notices ++ [notice] }

/-- Closes the open loop, which becomes a step. -/
def Draft.closeLoop (d : Draft α) (l : OpenLoop) : Draft α :=
  { d with plan := d.plan.addStep (.loop l.close), loop := none }

/-- Plans one action, which stands at the given place of the log. -/
def Draft.place (d : Draft α) (position : Nat) (a : Action α) : Draft α :=
  match a.kind, d.loop with
  | .tableLoopStart, some l => d.skip (.loopAlreadyOpen position l.subject a.locator)
  | .tableLoopStart, none => { d with loop := some { subject := a.locator } }
  | .tablePaginationNext, some l => { d with loop := some { l with pagination := some a.locator } }
  | .tablePaginationNext, none => d.skip (.paginationOutsideLoop position)
  | .tableLoopEnd, some l => d.closeLoop l
  | .tableLoopEnd, none => d.skip (.endWithoutStart position)
  | _, none =>
    let plan := d.plan.addNode (nodeOf a a.locator false)
    { d with plan := plan.addStep (.node d.plan.nodes.length) }
  | _, some l =>
    match Path.relativeTo? l.subject a.locator with
    | some path => d.addToRow l a path
    | none => d.addBeside l a

/-- Plans the next action of a log. -/
def Draft.add (d : Draft α) (a : Action α) : Draft α :=
  let d' := d.place d.plan.actionCount a
  { d' with plan := { d'.plan with actionCount := d.plan.actionCount + 1 } }

/-! ## All actions -/

/-- Ends a draft: a loop that is still open is closed. -/
def Draft.finish (d : Draft α) : Plan α × List Notice :=
  match d.loop with
  | none => (d.plan, d.notices)
  | some l => ((d.closeLoop l).plan, d.notices ++ [.neverClosed l.subject])

/-- The plan of the actions, and what is odd about them. -/
def ofActions (actions : List (Action α)) (baseUrl : α) : Plan α × List Notice :=
  (actions.foldl Draft.add { plan := { baseUrl } }).finish

end Retrace.Plan
