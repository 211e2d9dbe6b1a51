/-
Recording a loop over a table.

There are two ways to begin a loop: to ask for one and click a table, or to click tables while
the modifier is held, the last one counting when it is released. Both end in the same state. A
gesture that has no meaning in the present phase changes nothing. The bounds of a loop are
handed out as actions at the moment they are set.
-/
import Retrace.Interaction
import Retrace.Locator
import Retrace.Recording.Context

set_option autoImplicit false

namespace Retrace.TableLoop

/-- What a gesture leads to: the state after it, and the bound that it sets, if it sets one. -/
structure Outcome where
  context : Context
  clock : Clock
  bound : Option (Action Json) := none

/-- Sets a bound at the present time. -/
def setBound (context : Context) (clock : Clock) (kind : Kind) (locator : String) : Outcome :=
  { context, clock := clock.next, bound := some { kind, locator, timestamp := clock.now } }

/-- Begins a loop over the table, unless its locator is empty. -/
def openLoop (context : Context) (clock : Clock) (subject : String) : Outcome :=
  if subject = "" then { context, clock }
  else
    let begun :=
      { context with subject := some subject, phase := .selectingNext, highlightedTable := none }
    setBound begun clock .tableLoopStart subject

/-! ## The control -/

/-- Uses the control for loops: asks for a loop, takes that back, or ends the loop. -/
def toggle (context : Context) (clock : Clock) : Outcome :=
  match context.phase with
  | .inactive => { context := { context with phase := .selecting }, clock }
  | .selecting =>
    { context := { context with phase := .inactive, highlightedTable := none }, clock }
  | .selectingNext | .active =>
    let closed := { context with phase := .inactive, subject := none }
    match context.subject.filter (· != "") with
    | some subject => setBound closed clock .tableLoopEnd subject
    | none => { context := closed, clock }

/-- Goes on without a control for the next page. -/
def skipPagination (context : Context) : Context :=
  if context.phase = .selectingNext then { context with phase := .active } else context

/-! ## Clicks -/

/-- The locator of the table that the element is or lies in. -/
def locateTable [Selector.Engine] (settings : Settings) (page : Page) (i : Nat) :
    Except Selector.SyntaxError (Option String) :=
  match Interaction.findTable settings page i with
  | none => .ok none
  | some table => some <$> Locator.synthesize page (some table) none

/-- A click. It is used up, and no action by itself, if it picks or marks a table, or picks the
control for the next page. -/
def click [Selector.Engine] (settings : Settings) (context : Context) (clock : Clock)
    (event : Event) : Except Selector.SyntaxError (Bool × Outcome) := do
  let unused := (false, ({ context, clock } : Outcome))
  match event.target with
  | none => return unused
  | some i =>
    match context.phase, context.modifierHeld with
    | .inactive, true =>
      match ← locateTable settings event.page i with
      | none => return unused
      | some locator =>
        -- a later click on a table replaces the mark
        let marked := if locator = "" then none else some locator
        return (marked.isSome, { context := { context with markedTable := marked }, clock })
    | .selecting, _ =>
      match ← locateTable settings event.page i with
      | none => return unused
      | some locator => return (true, openLoop context clock locator)
    | .selectingNext, _ =>
      if Interaction.isInteractive event.page i event then
        let locator ← Locator.synthesize event.page (some i) none
        if locator = "" then return unused
        else
          let active := { context with phase := .active }
          return (true, setBound active clock .tablePaginationNext locator)
      else return unused
    | _, _ => return unused

/-! ## The modifier -/

def holdModifier (context : Context) : Context := { context with modifierHeld := true }

/-- The pointer moves over an element: while a table can be picked, the table there is shown. -/
def hover (settings : Settings) (context : Context) (event : Event) : Context :=
  let table :=
    if context.modifierHeld || context.phase = .selecting then
      event.target.bind (Interaction.findTable settings event.page)
    else none
  { context with highlightedTable := table }

/-- The modifier is released: a loop begins over the table that was marked last. Another loop that
is in progress is not disturbed; the second part says whether that was the case. -/
def releaseModifier (context : Context) (clock : Clock) : Outcome × Bool :=
  let released :=
    { context with modifierHeld := false, highlightedTable := none, markedTable := none }
  match context.markedTable with
  | none => ({ context := released, clock }, false)
  | some subject =>
    if context.phase = .inactive then (openLoop released clock subject, false)
    else ({ context := released, clock }, true)

end Retrace.TableLoop
