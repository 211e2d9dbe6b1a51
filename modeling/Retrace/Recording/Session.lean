/-
A recording session.

A session turns events into the actions of its log. The log in memory is what counts; the store
follows it. Every recorded action leaves a write behind that is done later, in order, when the
session starts, stops or is flushed. Where no background work is possible, nothing is stored and
a notice says so.

Inside an open loop, an element of the loop's table is located from the table on, so that the
path can be repeated on every row.
-/
import Retrace.Recording.Store
import Retrace.Recording.TableLoop

set_option autoImplicit false

namespace Retrace

/-- A write that is still to be done. -/
structure PendingWrite where
  action : Action Json
  coalesce : Bool
  baseUrl : Json

/-- The state of a session. -/
structure Session where
  settings : Settings := {}
  context : Context := {}
  log : Log Json := { baseUrl := .str "" }
  clock : Clock
  store : Option Store := none
  /-- Writes to the store that are to be done, oldest first. -/
  pending : List PendingWrite := []
  /-- Can work be left for later? -/
  hasBackground : Bool := true

namespace Session

/-! ## Notices and outcomes -/

/-- What is odd about a step of a session. -/
inductive Notice where
  | store (notice : Store.Notice)
  | loopInProgress
  | notPersisted (kind : Kind)
  | writeFailed (why : Store.Error)

def Notice.message : Notice → String
  | .store notice => notice.message
  | .loopInProgress => "Table loop already in progress; ignoring quick table selection"
  | .notPersisted kind => s!"No running event loop; {kind.name} not persisted"
  | .writeFailed why => "Failed to persist action: " ++ why.message

/-- What an operation leads to: the session after it, which may have changed even if the operation
failed, and what there is to tell. -/
structure Outcome (ε α : Type) where
  session : Session
  result : Except ε α
  changes : List Store.Change := []
  notices : List Notice := []

/-- The outcome of an operation that just goes to another state. -/
def Outcome.done {ε α : Type} (session : Session) (value : α) (notices : List Notice := []) :
    Outcome ε α :=
  { session, result := .ok value, notices }

/-! ## Recording an action -/

/-- Leaves the write of an action for later. -/
def persist (s : Session) (a : Action Json) (coalesce : Bool) : Session × List Notice :=
  if s.store.isNone then (s, [])
  else if s.hasBackground then
    ({ s with pending := s.pending ++ [⟨a, coalesce, s.context.baseUrl⟩] }, [])
  else (s, [.notPersisted a.kind])

/-- The log as it is before an action: the first one brings the address along. -/
def logBefore (s : Session) : Log Json :=
  if s.log.actions.isEmpty && !s.log.baseUrl.truthy then
    { s.log with baseUrl := s.context.baseUrl }
  else s.log

/-- Records an action, which has a locator. The entry that is stored comes back. -/
def record (s : Session) (a : Action Json) (coalesce : Bool := false) :
    Session × Action Json × List Notice :=
  let log := s.logBefore
  -- the store gets the entry as the log holds it, with its timestamp made no older
  let stored := log.entry a coalesce
  let (s, notices) := { s with log := log.push a coalesce }.persist stored coalesce
  (s, stored, notices)

/-- Takes over what a gesture of the table loop leads to. Its bound is recorded. -/
def absorb (s : Session) (o : TableLoop.Outcome) : Session × List Notice :=
  let s := { s with context := o.context, clock := o.clock }
  match o.bound with
  | none => (s, [])
  | some a =>
    let (s, _, notices) := s.record a
    (s, notices)

/-! ## Locating an element -/

/-- The locator of the table of the open loop. -/
def openSubject? (context : Context) : Option String :=
  if context.phase.loopOpen then context.subject.filter (· != "") else none

/-- The locator of an element: from the table of the open loop on if it lies in there, else from
the page on. -/
def locate [Selector.Engine] (context : Context) (page : Page) (i : Nat) :
    Except Selector.SyntaxError String := do
  match openSubject? context with
  | none => Locator.synthesize page (some i) none
  | some subject =>
    let found ← Locator.find page none subject
    -- the table may be gone from the page, or another element may come first
    match found.head? with
    | some table =>
      if page.isWithin i table then Locator.synthesizeWithin page i table subject
      else Locator.synthesize page (some i) none
    | none => Locator.synthesize page (some i) none

def recordOn [Selector.Engine] (s : Session) (page : Page) (i : Nat) (kind : Kind)
    (value : Option Json := none) (coalesce : Bool := false) :
    Outcome Selector.SyntaxError (Option (Action Json)) :=
  match locate s.context page i with
  | .error e => { session := s, result := .error e }
  | .ok locator =>
    if locator = "" then .done s none
    else
      let a : Action Json := { kind, locator, value, timestamp := s.clock.now }
      let (s, stored, notices) := { s with clock := s.clock.next }.record a coalesce
      .done s (some stored) notices

/-! ## Events -/

/-- A key is released: the modifier ends the quick choice of a table, and the label key turns the
label mode on, or off again. -/
def keyReleased (s : Session) (key : String) :
    Outcome Selector.SyntaxError (Option (Action Json)) :=
  if key = "Alt" then
    let (o, inProgress) := TableLoop.releaseModifier s.context s.clock
    let (s, notices) := s.absorb o
    .done s o.bound (notices ++ if inProgress then [.loopInProgress] else [])
  else if key = "Control" then
    let context :=
      if s.context.labelMode then { s.context with labelMode := false, pinned := none }
      else { s.context with labelMode := true }
    .done { s with context } none
  else .done s none

/-- The pointer moves over an element: a table that can be picked is shown, or else an element
that can get a label. In label mode the first such element is pinned. -/
def hovered [Selector.Engine] (s : Session) (event : Event) :
    Outcome Selector.SyntaxError (Option (Action Json)) :=
  let cleared := { s.context with highlightedElement := none }
  match event.target.filter fun i => !Interaction.isIgnored s.settings event.page i with
  | none => .done { s with context := { cleared with highlightedTable := none } } none
  | some i =>
    let context := TableLoop.hover s.settings cleared event
    if context.highlightedTable.isNone && Interaction.isLabelable s.settings event.page i then
      -- the element is shown even if it then turns out that it cannot be located
      let shown := { context with highlightedElement := some i }
      if context.labelMode && context.pinned.isNone then
        match locate context event.page i with
        | .ok locator =>
          let pinned : Pinned := ⟨locator, event.page.text i⟩
          .done { s with context := { shown with pinned := some pinned } } none
        | .error e => { session := { s with context := shown }, result := .error e }
      else .done { s with context := shown } none
    else .done { s with context } none

/-- The text of the option that a select shows: the one that is marked as selected, or else the
first one. -/
def chosenText (page : Page) (select : Nat) : String :=
  let options := (page.below (some select)).filter fun i => page.tag i == "option"
  match (options.find? fun i => (page.attr? i "selected").isSome).or options.head? with
  | some i => page.text i
  | none => ""

/-- A click that is not used up by the table loop is recorded if it hits something that is made to
be clicked. -/
def clicked [Selector.Engine] (s : Session) (event : Event) (i : Nat) :
    Outcome Selector.SyntaxError (Option (Action Json)) :=
  match TableLoop.click s.settings s.context s.clock event with
  | .error e => { session := s, result := .error e }
  | .ok (true, o) =>
    let (s, notices) := s.absorb o
    .done s none notices
  | .ok (false, o) =>
    -- the click may have changed the mark without being used up
    let (s, _) := s.absorb o
    if Interaction.classify s.settings event = some .click then s.recordOn event.page i .click
    else .done s none

/-- A change of a form control is recorded with its value, and replaces the change before it. -/
def changed [Selector.Engine] (s : Session) (event : Event) (i : Nat) :
    Outcome Selector.SyntaxError (Option (Action Json)) :=
  match Interaction.classify s.settings event with
  | some .input =>
    let value := (event.value.filter Json.truthy).getD (.str "")
    s.recordOn event.page i .input (some value) true
  | some .select =>
    let value := event.selectedText.getD (.str (chosenText event.page i))
    s.recordOn event.page i .select (some value) true
  | _ => .done s none

/-- The session with the address of the first event that has one. -/
def noteUrl (s : Session) (url : String) : Session :=
  if url ≠ "" && !s.context.baseUrl.truthy then
    { s with context := { s.context with baseUrl := .str url } }
  else s

/-- An event. The action that it was recorded as comes back. -/
def handle [Selector.Engine] (s : Session) (event : Event) :
    Outcome Selector.SyntaxError (Option (Action Json)) :=
  if !s.context.recording then .done s none
  else
    let s := s.noteUrl event.url
    match event.type with
    | .keyDown =>
      if event.key = "Alt" then
        .done { s with context := TableLoop.holdModifier s.context } none
      else .done s none
    | .keyUp => s.keyReleased event.key
    | .mouseOver => s.hovered event
    | .click | .input | .change | .other _ =>
      match event.target.filter fun i => !Interaction.isIgnored s.settings event.page i with
      | none => .done s none
      | some i => if event.type = .click then s.clicked event i else s.changed event i

/-! ## Controls -/

def toggle (s : Session) : Session × Option (Action Json) × List Notice :=
  if s.context.recording then
    let o := TableLoop.toggle s.context s.clock
    let (s, notices) := s.absorb o
    (s, o.bound, notices)
  else (s, none, [])

/-- Goes on without a control for the next page. -/
def skipPagination (s : Session) : Session :=
  if s.context.recording then { s with context := TableLoop.skipPagination s.context } else s

def assignLabel (s : Session) (name : String) :
    Session × Option (Action Json) × List Notice :=
  let label := Text.strip name
  match s.context.pinned with
  | some pinned =>
    if s.context.recording && label ≠ "" then
      let a : Action Json :=
        { kind := .label, locator := pinned.locator, value := some (.str pinned.text)
          label := some label, timestamp := s.clock.now }
      let (s, stored, notices) := { s with clock := s.clock.next }.record a
      ({ s with context := { s.context with labelMode := false, pinned := none } },
        some stored, notices)
    else (s, none, [])
  | none => (s, none, [])

/-! ## Start and end -/

/-- Does one write. A write that fails is told and dropped. -/
def write (store : Store) (w : PendingWrite) : Store × List Store.Change × List Notice :=
  let o := store.append w.action w.coalesce w.baseUrl
  (o.store, o.changes, o.notices.map .store ++ match o.result with
    | .ok _ => []
    | .error e => [.writeFailed e])

def writeAll (store : Store) : List PendingWrite → Store × List Store.Change × List Notice
  | [] => (store, [], [])
  | w :: rest =>
    let (store, c₁, n₁) := write store w
    let (store, c₂, n₂) := writeAll store rest
    (store, c₁ ++ c₂, n₁ ++ n₂)

def flush (s : Session) : Session × List Store.Change × List Notice :=
  match s.store with
  | none => ({ s with pending := [] }, [], [])
  | some store =>
    let (store, changes, notices) := writeAll store s.pending
    ({ s with store := some store, pending := [] }, changes, notices)

/-- Runs operations on the store in order, up to the first that fails. -/
def onStore (store : Store) : List (Store → Store.Outcome Unit) → Store.Outcome Unit
  | [] => { store, result := .ok () }
  | op :: rest =>
    let o := op store
    match o.result with
    | .error _ => o
    | .ok _ =>
      let o' := onStore o.store rest
      { o' with changes := o.changes ++ o'.changes, notices := o.notices ++ o'.notices }

/-- Runs operations on the store of the session, if it has one. -/
def updateStore (s : Session) (ops : List (Store → Store.Outcome Unit)) :
    Outcome Store.Error Unit :=
  match s.store with
  | none => .done s ()
  | some store =>
    let o := onStore store ops
    { session := { s with store := some o.store }, result := o.result
      changes := o.changes, notices := o.notices.map .store }

/-- Starts a recording. What the one before it has left to write is written first. -/
def start (s : Session) (baseUrl : Json := .str "") : Outcome Store.Error Unit :=
  let (s, changes, notices) := s.flush
  -- the session records only once the store has been reset
  let s := { s with context := { baseUrl }, log := s.log.clear (.str "") }
  let o := s.updateStore [Store.reset, fun store => store.setRecording (.bool true)]
  let session := match o.result with
    | .ok _ => { o.session with context := { o.session.context with recording := true } }
    | .error _ => o.session
  { session, result := o.result
    changes := changes ++ o.changes, notices := notices ++ o.notices }

/-- Stops the recording. What was recorded comes back. -/
def stop (s : Session) : Outcome Store.Error (List (Action Json)) :=
  let s := { s with context := { s.context with recording := false } }
  let (s, changes, notices) := s.flush
  let o := s.updateStore [fun store => store.setRecording (.bool false)]
  { session := o.session, result := o.result.map fun _ => o.session.log.actions
    changes := changes ++ o.changes, notices := notices ++ o.notices }

/-! ## Commands by name -/

/-- A command to a session. -/
inductive Command where
  | start (baseUrl : Json)
  | stop
  | actions

/-- Why a command cannot be run. -/
inductive CommandError where
  | unknown (name : Json)
  /-- The command has no parameter of that name. -/
  | unknownParameter (name : String)

def CommandError.message : CommandError → String
  | .unknown name => "Unknown command: " ++ name.inspect
  | .unknownParameter name => "Unknown parameter: " ++ Text.quoted name

/-- The command of that name. Only the start looks at its parameters. -/
def Command.ofName (name : Json) (parameters : Fields) : Except CommandError Command :=
  match name.text? with
  | some "start" =>
    match parameters.find? (·.1 != "base_url") with
    | some (other, _) => .error (.unknownParameter other)
    | none => .ok (.start ((parameters.get? "base_url").getD (.str "")))
  | some "stop" => .ok .stop
  | some "getActions" => .ok .actions
  | _ => .error (.unknown name)

/-- Runs a command. The value that comes back is null or the list of actions. -/
def run (s : Session) : Command → Outcome Store.Error Json
  | .start baseUrl =>
    let o := s.start baseUrl
    { session := o.session, result := o.result.map fun _ => .null
      changes := o.changes, notices := o.notices }
  | .stop =>
    let o := s.stop
    { session := o.session, result := o.result.map fun actions => .arr (actions.map (·.toRecord id))
      changes := o.changes, notices := o.notices }
  | .actions => .done s (.arr (s.log.toRecords id))

end Session

end Retrace
