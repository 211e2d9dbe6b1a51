/-
The arguments of the program.

The arguments are switches and words. A switch has a long name and maybe a letter, and may take a
value: after an equals sign, in the same word after the letter, or as the next word, whatever
that looks like. Letters without a value may stand together in one word. A double hyphen ends the
switches. The first word is the name of a command, and what follows it belongs to the command,
which has switches of its own. Of a switch that is given twice the last value counts.
-/
import Retrace.Decimal.Numeral
import Retrace.Text.Quoted

set_option autoImplicit false

namespace Retrace.CommandLine

/-! ## Switches -/

/-- A switch of the program or of one of its commands. -/
inductive Switch where
  | help
  | verbose
  | output
  | baseUrl
  | waitTimeout
  | maxPages
  | headless
  | storeDir
  deriving Repr, DecidableEq

namespace Switch

def name : Switch → String
  | .help => "--help"
  | .verbose => "--verbose"
  | .output => "--output"
  | .baseUrl => "--base-url"
  | .waitTimeout => "--wait-timeout"
  | .maxPages => "--max-pages"
  | .headless => "--headless"
  | .storeDir => "--store-dir"

def letter? : Switch → Option Char
  | .verbose => some 'v'
  | .output => some 'o'
  | _ => none

def takesValue : Switch → Bool
  | .help | .verbose | .headless => false
  | .output | .baseUrl | .waitTimeout | .maxPages | .storeDir => true

def ofProgram : List Switch := [.help, .verbose]

def ofRecord : List Switch := [.help, .output, .storeDir]

def ofCompile : List Switch := [.help, .output, .baseUrl, .waitTimeout, .maxPages, .headless]

def ofShow : List Switch := [.help]

end Switch

/-! ## Errors of use -/

/-- Why the arguments ask for nothing. -/
inductive UsageError where
  | noSuchSwitch (name : String)
  | valueMissing (switch : Switch)
  | valueNotTaken (switch : Switch)
  | noCommand
  | noSuchCommand (name : String)
  | wordMissing (name : String)
  | tooManyWords (extra : List String)
  | notAnInteger (switch : Switch) (value : String)
  | notPositive (switch : Switch) (value : Int)
  deriving Repr, DecidableEq

def UsageError.message : UsageError → String
  | .noSuchSwitch name => "No such option: " ++ name
  | .valueMissing switch => "Option " ++ Text.quoted switch.name ++ " requires an argument."
  | .valueNotTaken switch => "Option " ++ Text.quoted switch.name ++ " does not take a value."
  | .noCommand => "Missing command."
  | .noSuchCommand name => "No such command " ++ Text.quoted name ++ "."
  | .wordMissing name => "Missing argument " ++ Text.quoted name ++ "."
  | .tooManyWords extra => "Got unexpected extra arguments (" ++ " ".intercalate extra ++ ")"
  | .notAnInteger switch value => "Invalid value for " ++ Text.quoted switch.name ++ ": "
      ++ Text.quoted value ++ " is not a valid integer."
  | .notPositive switch value =>
      "Invalid value for " ++ Text.quoted switch.name ++ s!": {value} is not in the range x>=1."

/-! ## Switches and words apart -/

/-- What a row of arguments gives: the switches in order with their values, empty for those
without one, and the words. -/
structure Given where
  switches : List (Switch × String) := []
  words : List String := []
  deriving Repr, DecidableEq

namespace Given

def has (g : Given) (switch : Switch) : Bool := g.switches.any (·.1 == switch)

def value? (g : Given) (switch : Switch) : Option String :=
  ((g.switches.reverse.find? (·.1 == switch))).map (·.2)

/-- The row with more switches at its front. -/
def addSwitches (given : List (Switch × String)) (g : Given) : Given :=
  { g with switches := given ++ g.switches }

/-- The row with one more word at its front. -/
def addWord (word : String) (g : Given) : Given := { g with words := word :: g.words }

end Given

/-- What one argument gives: switches that are complete, and maybe one that takes the next
argument as its value. -/
abbrev Piece := List (Switch × String) × Option Switch

/-- Letters in one argument. The first that takes a value takes the rest of the argument. -/
def readLetters (known : List Switch) : List Char → Except UsageError Piece
  | [] => .ok ([], none)
  | c :: rest =>
    match known.find? (·.letter? == some c) with
    | none => .error (.noSuchSwitch (String.ofList ['-', c]))
    | some switch =>
      if switch.takesValue then
        -- an equals sign after a letter belongs to the value
        if rest.isEmpty then .ok ([], some switch)
        else .ok ([(switch, String.ofList rest)], none)
      else (readLetters known rest).map fun (given, open?) => ((switch, "") :: given, open?)

/-- A long name, with the value that was written after it. -/
def readName (switch : Switch) (value? : Option String) : Except UsageError Piece :=
  match switch.takesValue, value? with
  | true, some value => .ok ([(switch, value)], none)
  | true, none => .ok ([], some switch)
  | false, some _ => .error (.valueNotTaken switch)
  | false, none => .ok ([(switch, "")], none)

/-- An argument cut at its first equals sign. -/
def cutValue (arg : List Char) : String × Option String :=
  (String.ofList (arg.takeWhile (· != '=')),
    match arg.dropWhile (· != '=') with
    | [] => none
    | _ :: value => some (String.ofList value))

/-- One argument that looks like a switch. -/
def readSwitch (known : List Switch) (arg : String) : Except UsageError Piece :=
  let (name, value?) := cutValue arg.toList
  match known.find? (·.name == name) with
  | some switch => readName switch value?
  | none =>
    -- letters stand behind a single hyphen only
    match arg.toList with
    | '-' :: '-' :: _ => .error (.noSuchSwitch name)
    | _ :: letters => readLetters known letters
    | [] => .error (.noSuchSwitch name)

/-- Does the argument look like a switch? A single hyphen is a word. -/
def looksLikeSwitch (arg : String) : Bool :=
  match arg.toList with
  | '-' :: _ :: _ => true
  | _ => false

/-- Takes switches and words apart. If they are not mixed, the first word ends the switches. -/
def separate (known : List Switch) (mixed : Bool) : List String → Except UsageError Given
  | [] => .ok {}
  | arg :: rest =>
    if arg = "--" then .ok { words := rest }
    else if looksLikeSwitch arg then
      match readSwitch known arg with
      | .error e => .error e
      | .ok (given, none) => (separate known mixed rest).map (·.addSwitches given)
      | .ok (given, some switch) =>
        match rest with
        | [] => .error (.valueMissing switch)
        | value :: rest =>
          (separate known mixed rest).map (·.addSwitches (given ++ [(switch, value)]))
    else if mixed then (separate known mixed rest).map (·.addWord arg)
    else .ok { words := arg :: rest }

/-! ## Values -/

/-- A path without its empty parts and those that stand for the same directory. -/
def readPath (path : String) : String :=
  let root := match path.toList with
    | '/' :: '/' :: '/' :: _ => "/"
    | '/' :: '/' :: _ => "//"
    | '/' :: _ => "/"
    | _ => ""
  let parts := (path.splitOn "/").filter fun part => part != "" && part != "."
  if root = "" && parts.isEmpty then "." else root ++ "/".intercalate parts

/-- The number of a switch that takes one of at least one. -/
def readLimit (g : Given) (switch : Switch) : Except UsageError (Option Int) :=
  match g.value? switch with
  | none => .ok none
  | some value =>
    match Decimal.readPlainInt? value with
    | none => .error (.notAnInteger switch value)
    | some n => if n < 1 then .error (.notPositive switch n) else .ok (some n)

def onlyWord (name : String) : List String → Except UsageError String
  | [] => .error (.wordMissing name)
  | [word] => .ok word
  | _ :: extra => .error (.tooManyWords extra)

/-! ## Commands -/

/-- How a log is compiled. What is left out is taken from the log or from the environment. -/
structure CompileOptions where
  /-- Where the script goes to, if not to the standard output. -/
  output : Option String := none
  baseUrl : Option String := none
  waitTimeout : Option Int := none
  maxPages : Option Int := none
  headless : Bool := false
  deriving Repr, DecidableEq

/-- What the program is to do. -/
inductive Command where
  /-- Record what happens on a page into a log, and maybe into a store as well. -/
  | record (url output : String) (storeDir : Option String)
  /-- Make a script of a log. -/
  | compile (log : String) (options : CompileOptions)
  /-- List the actions of a log. -/
  | list (log : String)
  deriving Repr, DecidableEq

/-- What the arguments ask for. -/
inductive Request where
  | help
  | run (command : Command)
  deriving Repr, DecidableEq

/-- A request that the switch for help overrules. -/
def Request.unlessHelp (g : Given) (command : Except UsageError Command) :
    Except UsageError Request :=
  if g.has .help then .ok .help else command.map .run

/-- Where a recording goes to if nothing is said. -/
def defaultOutput : String := "actions.json"

def readRecord (g : Given) : Except UsageError Command := do
  let url ← onlyWord "URL" g.words
  return .record url (readPath ((g.value? .output).getD defaultOutput))
    ((g.value? .storeDir).map readPath)

def readCompile (g : Given) : Except UsageError Command := do
  let log ← onlyWord "LOG_PATH" g.words
  let waitTimeout ← readLimit g .waitTimeout
  let maxPages ← readLimit g .maxPages
  return .compile (readPath log)
    { output := (g.value? .output).map readPath
      baseUrl := g.value? .baseUrl
      waitTimeout, maxPages
      headless := g.has .headless }

def readList (g : Given) : Except UsageError Command := do
  let log ← onlyWord "LOG_PATH" g.words
  return .list (readPath log)

/-- The request of a command by its name and its arguments. -/
def Request.ofCommand (name : String) (args : List String) : Except UsageError Request :=
  match name with
  | "record" => do
    let g ← separate Switch.ofRecord true args
    unlessHelp g (readRecord g)
  | "compile" => do
    let g ← separate Switch.ofCompile true args
    unlessHelp g (readCompile g)
  | "show" => do
    let g ← separate Switch.ofShow true args
    unlessHelp g (readList g)
  | _ => .error (.noSuchCommand name)

def Request.ofArguments (args : List String) : Except UsageError Request := do
  let g ← separate Switch.ofProgram false args
  if g.has .help then return .help
  match g.words with
  | [] => throw .noCommand
  | name :: args => ofCommand name args

end Retrace.CommandLine
