/-
Settings of a recording and of the scripts made from it.

Every setting has a default, and each can be set by a variable of the environment. A variable
that is not usable leaves the setting as it is and gives a notice.
-/
import Retrace.Decimal.Numeral
import Retrace.Text.Lower
import Retrace.Text.Quoted

set_option autoImplicit false

namespace Retrace

/-- All settings. -/
structure Settings where
  /-- The class that marks elements of the recorder's own overlay. -/
  ignoreClass : String := "ignore-recorder"
  /-- The class that marks an element as a table. -/
  tableClass : String := "table"
  /-- How many milliseconds a script waits for an element. -/
  waitTimeout : Int := 10000
  /-- How often a script tries a row or a step. -/
  maxRetries : Int := 3
  /-- How many pages of a table a script visits at most. -/
  maxPages : Int := 50
  headless : Bool := false
  deriving Repr, DecidableEq

namespace Settings

/-- Why a variable was not used. -/
inductive Notice where
  | notAnInteger (variableName value : String)
  | notPositive (variableName : String) (value : Int)
  deriving Repr, DecidableEq

def Notice.message : Notice → String
  | .notAnInteger name value => s!"Ignoring {name}: not an integer: {Text.quoted value}"
  | .notPositive name value => s!"Ignoring {name}: must be positive, got {value}"

/-- The value of a number, or the notice why it is not used. -/
def readPositive (name value : String) : Except Notice Int :=
  match Decimal.readInt? value with
  | none => .error (.notAnInteger name value)
  | some n => if n < 1 then .error (.notPositive name n) else .ok n

def readFlag (value : String) : Bool :=
  ["true", "1", "yes"].contains (Text.lower (Text.strip value))

/-- A class from the environment: stripped, and the default if nothing is said. -/
def classFrom (env : List (String × String)) (name default : String) : String :=
  match env.lookup name with
  | some value => if value = "" then default else Text.strip value
  | none => default

/-- A number from the environment, with the notice if it is not usable. -/
def numberFrom (env : List (String × String)) (name : String) (default : Int) :
    Int × List Notice :=
  match env.lookup name with
  | none => (default, [])
  | some value =>
    match readPositive name value with
    | .ok n => (n, [])
    | .error notice => (default, [notice])

def variableNames : List String :=
  ["SCRIPTRECORDER_IGNORE_CLASS", "SCRIPTRECORDER_TABLE_CLASS", "SCRIPTRECORDER_WAIT_TIMEOUT",
    "SCRIPTRECORDER_MAX_RETRIES", "SCRIPTRECORDER_MAX_PAGES", "SCRIPTRECORDER_HEADLESS"]

/-- The settings that the environment asks for, and a notice for each variable that is not
usable. -/
def ofEnvironment (env : List (String × String)) : Settings × List Notice :=
  let defaults : Settings := {}
  let (waitTimeout, n₁) := numberFrom env "SCRIPTRECORDER_WAIT_TIMEOUT" defaults.waitTimeout
  let (maxRetries, n₂) := numberFrom env "SCRIPTRECORDER_MAX_RETRIES" defaults.maxRetries
  let (maxPages, n₃) := numberFrom env "SCRIPTRECORDER_MAX_PAGES" defaults.maxPages
  ({ ignoreClass := classFrom env "SCRIPTRECORDER_IGNORE_CLASS" defaults.ignoreClass
     tableClass := classFrom env "SCRIPTRECORDER_TABLE_CLASS" defaults.tableClass
     waitTimeout, maxRetries, maxPages
     headless := match env.lookup "SCRIPTRECORDER_HEADLESS" with
       | some value => readFlag value
       | none => defaults.headless },
    n₁ ++ n₂ ++ n₃)

end Settings

end Retrace
