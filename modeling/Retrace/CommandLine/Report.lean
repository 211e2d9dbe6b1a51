/-
What the commands report.

A command looks at the environment, reads files, and for a recording uses a browser. Its report
is what it prints, what it writes and the exit status: zero if all went well, one if the command
failed, two if the arguments ask for nothing. What is printed is plain text.
-/
import Retrace.CommandLine.Arguments
import Retrace.Recording.Visit
import Retrace.Script.Render
import Retrace.Text.Terminal

set_option autoImplicit false

namespace Retrace.CommandLine

/-! ## What a command finds and what it reports -/

/-- Why a file cannot be read: the number of the system's error and its wording. -/
structure Unreadable where
  code : Nat
  reason : String
  deriving Repr, DecidableEq

def Unreadable.missing : Unreadable := ⟨2, "No such file or directory"⟩

/-- The path goes on below a file. -/
def Unreadable.notADirectory : Unreadable := ⟨20, "Not a directory"⟩

def Unreadable.directory : Unreadable := ⟨21, "Is a directory"⟩

/-- A name of the path, or the path as a whole, is longer than the system allows. -/
def Unreadable.nameTooLong : Unreadable := ⟨36, "File name too long"⟩

/-- The wording for the file at a path. -/
def Unreadable.message (why : Unreadable) (path : String) : String :=
  s!"[Errno {why.code}] {why.reason}: {Text.quoted path}"

/-- What a command finds. -/
structure Surroundings where
  /-- The variables of the environment. -/
  environment : List (String × String) := []
  /-- The text of each file. -/
  textAt : String → Except Unreadable String := fun _ => .error .missing
  /-- Can a file be written there? -/
  canWrite : String → Bool := fun _ => true
  /-- What a recording meets in the browser. -/
  visit : Visit := {}
  clock : Clock

/-- What is odd about the course of a command. -/
inductive Notice where
  | settings (notice : Settings.Notice)
  | script (notice : Script.Notice)
  | recording (notice : Bridge.Notice)

def Notice.message : Notice → String
  | .settings notice => notice.message
  | .script notice => notice.message
  | .recording notice => notice.message

/-- Why a command failed. -/
inductive Failure where
  /-- No file can have that path, since it holds a null character. Nothing is said about it. -/
  | noSuchPath (path : String)
  | unreadable (path : String) (why : Unreadable)
  | invalidLog (path : String) (why : LogError)
  /-- The log is too large to be held. Nothing is said about it. -/
  | beyondRange
  /-- A step refers to an action that the log does not have. -/
  | noScript (why : Script.MissingNode)
  | recording (why : String)
  /-- The file cannot be written. Nothing is said about it. -/
  | unwritable (path : String)

/-- The wording of a failure, if there is one. -/
def Failure.message? : Failure → Option String
  | .unreadable path why => some s!"Error: cannot read {path}: {why.message path}"
  | .invalidLog path why => some s!"Error: {path} is not a valid action log: {why.message}"
  | .noSuchPath _ | .unwritable _ | .beyondRange => none
  | .noScript why => some s!"Error: there is no action {why.index}"
  | .recording why => some s!"Error: recording failed: {why}"

/-- What a command reports. -/
structure Report where
  exit : Nat := 0
  /-- What is printed. -/
  out : String := ""
  /-- What is printed apart, as an error. -/
  err : String := ""
  /-- The files that are written, by path and text. -/
  written : List (String × String) := []
  notices : List Notice := []
  /-- What the browser saw. -/
  moments : List Moment := []

def line (text : String) : String := Text.plain text ++ "\n"

def Report.ofFailure (failure : Failure) : Report :=
  { exit := 1, err := (failure.message?.map line).getD "" }

/-- The report with notices of what came before. -/
def Report.after (notices : List Notice) (r : Report) : Report :=
  { r with notices := notices ++ r.notices }

/-! ## Files -/

def isPath (path : String) : Bool := !path.toList.contains '\x00'

/-- The report with a file written as its last deed, after which `out` is printed. -/
def Report.write (around : Surroundings) (path text out : String) (r : Report) : Report :=
  if isPath path && around.canWrite path then
    { r with out := r.out ++ out, written := r.written ++ [(path, text)] }
  else { r with exit := 1, err := ((Failure.unwritable path).message?.map line).getD "" }

/-! ## Logs -/

/-- Is the log too large to be held, by one of its numbers or by its depth? -/
def isBeyondRange : LogError → Bool
  | .record _ .timestampOverflow => true
  | .syntaxError _ ⟨.tooManyDigits, _⟩ | .syntaxError _ ⟨.tooDeep, _⟩ => true
  | _ => false

def readLog (around : Surroundings) (path : String) : Except Failure (Log String) :=
  if !isPath path then .error (.noSuchPath path)
  else match around.textAt path with
    | .error why => .error (.unreadable path why)
    | .ok text =>
      match Log.ofText (Text.ofFile text) with
      | .ok log => .ok log
      | .error why =>
        if isBeyondRange why then .error .beyondRange else .error (.invalidLog path why)

/-! ## Listing -/

/-- A number in at least three places. -/
def indexColumn (n : Nat) : String :=
  let digits := toString n
  "".pushn ' ' (3 - digits.length) ++ digits

/-- A name in at least twenty places. -/
def kindColumn (name : String) : String := name.pushn ' ' (20 - name.length)

def actionLine (index : Nat) (a : Action String) : String :=
  indexColumn index ++ "  " ++ kindColumn a.kind.name ++ "  " ++ a.locator
    ++ (match a.label with
      | some label => "  [" ++ label ++ "]"
      | none => "")
    ++ match a.value with
      | some value => "  = " ++ Text.quoted value
      | none => ""

def logLines (log : Log String) : List String :=
  (if log.baseUrl = "" then [] else ["base url: " ++ log.baseUrl])
    ++ if log.actions.isEmpty then ["No actions recorded."]
      else log.actions.mapIdx actionLine

def list (around : Surroundings) (path : String) : Report :=
  match readLog around path with
  | .error failure => .ofFailure failure
  | .ok log => { out := String.join ((logLines log).map line) }

/-! ## Compiling -/

/-- The settings of a script: what the options say, and the environment otherwise. -/
def CompileOptions.settings (options : CompileOptions) (settings : Settings) : Settings :=
  { settings with
    waitTimeout := options.waitTimeout.getD settings.waitTimeout
    maxPages := options.maxPages.getD settings.maxPages
    headless := options.headless || settings.headless }

def deliver (around : Surroundings) (output : Option String) (log : Log String)
    (script : Script) : Report :=
  match output with
  | none => { out := Text.plain script.text }
  | some path =>
    Report.write around path script.text (line s!"Wrote {path} ({log.size} actions)") {}

def compile (around : Surroundings) (path : String) (options : CompileOptions) : Report :=
  let (settings, unusable) := Settings.ofEnvironment around.environment
  let report : Report := match readLog around path with
    | .error failure => .ofFailure failure
    | .ok log =>
      let (script, odd) := Script.compile (options.settings settings) log.actions
        (options.baseUrl.getD log.baseUrl)
      match script with
      | .ok script => (deliver around options.output log script).after (odd.map .script)
      | .error why => .ofFailure (.noScript why)
  report.after (unusable.map .settings)

/-! ## Recording -/

/-- What is told once the page is open. -/
def instructions : String :=
  "Recording. F2 toggles the table loop, F3 skips pagination, Control\n"
    ++ "arms field labels and F4 names the pinned field. Close the tab to finish."

/-- The file of a store in a directory. -/
def storePath (dir : String) : String :=
  if dir = "." then "actions.json" else dir ++ "/actions.json"

/-- The store in a directory, or one in memory if there is none. -/
def openStore (around : Surroundings) : Option String → Store
  | none => .emptyMemory
  | some dir => .file (storePath dir) (around.textAt (storePath dir)).toOption

/-- The file of a store, if the recording has written it. -/
def storeFile (before : Store) (after : Option Store) : List (String × String) :=
  match before, after with
  | .file _ old, some (.file path (some text)) => if old = some text then [] else [(path, text)]
  | _, _ => []

def record (around : Surroundings) (url output : String) (storeDir : Option String) : Report :=
  let (settings, unusable) := Settings.ofEnvironment around.environment
  let store := openStore around storeDir
  let session : Session := { settings, clock := around.clock, store := some store }
  let (o, reached) := around.visit.run session url
  let told := if reached then line instructions else ""
  let stored := storeFile store o.bridge.session.store
  let report : Report := match o.result with
    | .error why => { Report.ofFailure (.recording why) with out := told, written := stored }
    | .ok log =>
      Report.write around output (log.toText id)
        (line s!"Recorded {log.size} actions to {output}") { out := told, written := stored }
  let notices := unusable.map Notice.settings ++ o.notices.map Notice.recording
  { report with moments := o.moments }.after notices

/-! ## All commands -/

def help : String :=
  "Usage: [--verbose] COMMAND [ARGS]...\n\n"
    ++ "Turns what happens on a page into a script that does it again.\n\n"
    ++ "Commands:\n"
    ++ "  record URL    Open a browser on URL and record until the tab is closed.\n"
    ++ "  compile LOG   Compile a recorded action log into a script.\n"
    ++ "  show LOG      List the actions of a recorded log.\n"

def run (around : Surroundings) : Command → Report
  | .record url output storeDir => record around url output storeDir
  | .compile log options => compile around log options
  | .list log => list around log

def answer (around : Surroundings) (args : List String) : Report :=
  match Request.ofArguments args with
  | .ok (.run command) => run around command
  | .ok .help => { out := help }
  | .error e => { exit := 2, err := "Error: " ++ e.message ++ "\n" }

end Retrace.CommandLine
