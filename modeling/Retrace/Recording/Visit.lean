/-
A visit to a page.

The recorder opens a browser, attaches itself to a page, goes to an address and waits until the
page is closed. What happens on the page in the meantime comes in as gestures. Whatever fails on
the way, the recording is stopped and the browser closed in the end.
-/
import Retrace.Recording.Bridge

set_option autoImplicit false

namespace Retrace

/-- One thing that happens on the visited page. -/
inductive Gesture where
  | event (payload : Json)
  | toggle
  | skipPagination
  /-- A label is given, by any value as its name. -/
  | label (name : Json)

/-- What is asked of the browser. -/
inductive BrowserCall where
  | launch
  | goto
  | wait
  deriving Repr, DecidableEq

/-- What the browser sees of the recorder. -/
inductive Moment where
  | launched (headless : Bool)
  | went (url : String)
  | waited
  | closed
  /-- What the control for loops shows after a gesture. -/
  | caption (text : String)
  /-- Was the label used? -/
  | labelled (used : Bool)
  deriving Repr, DecidableEq

/-- A visit: what happens on the page, and the call that fails, with the reason. -/
structure Visit where
  gestures : List Gesture := []
  failing : Option (BrowserCall × String) := none

namespace Visit

/-- The reason why a call fails, if it does. -/
def failure? (v : Visit) (call : BrowserCall) : Option String :=
  match v.failing with
  | some (c, why) => if c = call then some why else none
  | none => none

/-- What a part of a visit leads to. -/
structure Outcome (α : Type) where
  bridge : Bridge
  result : Except String α
  moments : List Moment := []
  notices : List Bridge.Notice := []

/-- The name under which the page is attached. -/
def pageName : String := "page"

def play (b : Bridge) : Gesture → Outcome Unit
  | .event payload =>
    let (b, result, notices) := b.receive payload
    { bridge := b, notices
      result := match result with
        | .ok _ => .ok ()
        | .error why => .error why.message }
  | .toggle =>
    let (b, notices) := b.toggle
    { bridge := b, result := .ok (), moments := [.caption b.caption], notices }
  | .skipPagination =>
    let b := b.skipPagination
    { bridge := b, result := .ok (), moments := [.caption b.caption] }
  | .label name =>
    let (b, used, notices) := b.assignLabel name
    { bridge := b, result := .ok (), moments := [.labelled used], notices }

/-- Gestures in order, up to the first that fails. -/
def playAll (b : Bridge) : List Gesture → Outcome Unit
  | [] => { bridge := b, result := .ok () }
  | g :: rest =>
    let o := play b g
    match o.result with
    | .error _ => o
    | .ok _ =>
      let o' := playAll o.bridge rest
      { o' with moments := o.moments ++ o'.moments, notices := o.notices ++ o'.notices }

/-- The time on the page, from going there to its end. It is told whether the page was reached. -/
def stay (v : Visit) (b : Bridge) (url : String) : Outcome Unit × Bool :=
  match v.failure? .goto with
  | some why => ({ bridge := b, result := .error why, moments := [.went url] }, false)
  | none =>
    let o := playAll b v.gestures
    -- the page is waited for while the gestures happen, so their failure comes first
    let result := match o.result, v.failure? .wait with
      | .ok _, some why => .error why
      | result, _ => result
    ({ o with result, moments := [.went url, .waited] ++ o.moments }, true)

/-- Starts the recording and stays on the page. -/
def record (v : Visit) (b : Bridge) (url : String) : Outcome Unit × Bool :=
  let (b, _) := b.attach pageName
  let start := b.session.start (.str url)
  let b := { b with session := start.session }
  let notices := start.notices.map .session
  match start.result with
  | .error why => ({ bridge := b, result := .error why.message, notices }, false)
  | .ok _ =>
    let (o, reached) := v.stay b url
    ({ o with notices := notices ++ o.notices }, reached)

/-- The log of a recording. Without an address of its own it has the one that was visited. -/
def logOf (session : Session) (url : String) : Log Json :=
  let log := session.log
  { log with baseUrl := if log.baseUrl.truthy then log.baseUrl else .str url }

/-- Stops the recording and closes the browser. An earlier failure stands, unless the stop fails
as well. -/
def finish (o : Outcome Unit) (url : String) : Outcome (Log Json) :=
  let stop := o.bridge.session.stop
  let bridge := { o.bridge with session := stop.session }
  let notices := o.notices ++ stop.notices.map .session
  match stop.result with
  | .error why => { bridge, result := .error why.message, moments := o.moments, notices }
  | .ok _ =>
    { bridge, notices, moments := o.moments ++ [.closed]
      result := o.result.map fun _ => logOf stop.session url }

/-- The whole visit. It is told whether the page was reached. -/
def run (v : Visit) (session : Session) (url : String) : Outcome (Log Json) × Bool :=
  let launched : Moment := .launched session.settings.headless
  match v.failure? .launch with
  | some why => ({ bridge := { session }, result := .error why, moments := [launched] }, false)
  | none =>
    let (o, reached) := v.record { session } url
    let o := finish o url
    ({ o with moments := launched :: o.moments }, reached)

end Visit

end Retrace
