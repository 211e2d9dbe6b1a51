/-
The bridge between pages and a session.

A page gets the listener once, together with the functions that the listener calls. What comes
back is an event, or the use of a control; a payload that is no known event is dropped with a
notice.
-/
import Retrace.Recording.Listener
import Retrace.Recording.Session

set_option autoImplicit false

namespace Retrace

/-- What is done to a page. -/
inductive PageCall where
  /-- A function that gets the events. -/
  | exposeBinding (name : String)
  /-- A function for a control. -/
  | exposeFunction (name : String)
  /-- A script that runs in every document of the page, from the next one on. -/
  | addInitScript (script : String)
  /-- A script that runs in the present document. -/
  | evaluate (script : String)
  deriving Repr, DecidableEq

/-- A session and the pages that it listens to. -/
structure Bridge where
  session : Session
  /-- The names of the pages. -/
  pages : List String := []

namespace Bridge

/-- What is odd about an event from a page. -/
inductive Notice where
  | session (notice : Session.Notice)
  | malformed (why : Event.PayloadError)

def Notice.message : Notice → String
  | .session notice => notice.message
  | .malformed why => "Dropping malformed event: " ++ why.message

/-- Why an event was not handled. -/
inductive Error where
  | payload (why : Event.PayloadError)
  | selector (why : Selector.SyntaxError)

def Error.message : Error → String
  | .payload why => why.message
  | .selector why => why.message

/-- The script that runs in the pages. -/
def script (b : Bridge) : String := Listener.text (.str b.session.settings.ignoreClass)

/-- What is done to a page that is attached. -/
def installation (b : Bridge) : List PageCall :=
  [.exposeBinding Listener.eventBinding, .exposeFunction Listener.toggleBinding,
    .exposeFunction Listener.skipBinding, .exposeFunction Listener.labelBinding,
    .addInitScript b.script, .evaluate b.script]

/-- Attaches a page. A page that is attached already is left alone. -/
def attach (b : Bridge) (page : String) : Bridge × List PageCall :=
  if b.pages.contains page then (b, [])
  else ({ b with pages := b.pages ++ [page] }, b.installation)

/-- An event comes in. A payload that is malformed is dropped, and the session is not asked. -/
def receive [Selector.Engine] [Markup.Parser] (b : Bridge) (payload : Json) :
    Bridge × Except Error Unit × List Notice :=
  match Event.ofPayload payload with
  | .error why =>
    if why.isDropped then (b, .ok (), [.malformed why]) else (b, .error (.payload why), [])
  | .ok event =>
    let o := b.session.handle event
    let result := match o.result with
      | .ok _ => .ok ()
      | .error why => .error (.selector why)
    ({ b with session := o.session }, result, o.notices.map .session)

def caption (b : Bridge) : String := b.session.context.phase.caption

/-- The control for loops is used in a page. -/
def toggle (b : Bridge) : Bridge × List Notice :=
  let (session, _, notices) := b.session.toggle
  ({ b with session }, notices.map .session)

/-- The page goes on without a control for the next page. -/
def skipPagination (b : Bridge) : Bridge := { b with session := b.session.skipPagination }

/-- A label is given in a page, by any value as its name. Was it used? -/
def assignLabel (b : Bridge) (name : Json) : Bridge × Bool × List Notice :=
  let (session, a, notices) := b.session.assignLabel name.display
  ({ b with session }, a.isSome, notices.map .session)

end Bridge

end Retrace
