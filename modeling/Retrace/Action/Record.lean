/-
Actions as JSON records, and logs as JSON text.

A record names the kind and the locator, then value and label if there are any, and the
timestamp. Reading is lenient in the values (any value but null becomes its text, numbers and
numeric texts are timestamps) and strict in the shape, and every refusal says which record is at
fault and why. Logs of an older form, with the kind under `type` and the locator under
`selector`, are read as well.
-/
import Retrace.Action.Log
import Retrace.Json.Display
import Retrace.Json.Reader
import Retrace.Json.Writer

set_option autoImplicit false

namespace Retrace

/-! ## Errors -/

/-- Why a record is no action. -/
inductive RecordError where
  | notAnObject (found : Json)
  | unknownKind (found : Json)
  | noLocator (kind : Kind)
  | invalidTimestamp (found : Json)
  /-- The timestamp is a whole number beyond the range of a double. -/
  | timestampOverflow

/-- The wording of the refusal of a record. -/
def RecordError.message : RecordError → String
  | .notAnObject found => "Action record must be an object, got " ++ found.sortName
  | .unknownKind found => "Unknown action kind: " ++ found.inspect
  | .noLocator kind => "Action " ++ Text.quoted kind.name ++ " has no locator"
  | .invalidTimestamp found => "Invalid timestamp: " ++ found.inspect
  | .timestampOverflow => "int too large to convert to float"

/-- Why records are no log. -/
inductive LogError where
  | record (index : Nat) (why : RecordError)
  | emptyLocator (index : Nat)
  /-- The text is no JSON. -/
  | syntaxError (text : String) (why : Json.ReadError)
  /-- The text is neither a list nor an object with a list of actions. -/
  | noActions
  /-- The records are a single value and not a collection. -/
  | notACollection (found : Json)

/-- The wording of the refusal of a log. -/
def LogError.message : LogError → String
  | .record index why => s!"record {index}: {why.message}"
  | .emptyLocator index => s!"record {index}: empty locator"
  | .syntaxError text why => "Invalid JSON: " ++ why.message text.toList
  | .noActions => "Expected a list of actions or an object with an 'actions' list"
  | .notACollection found => Text.quoted found.sortName ++ " object is not iterable"

/-! ## Records -/

namespace Action

variable {α : Type}

/-- The record of an action, its value written by `write`. -/
def toRecord (write : α → Json) (a : Action α) : Json :=
  .obj <| [("kind", .str a.kind.name), ("locator", .str a.locator)]
    ++ (a.value.map fun v => ("value", write v)).toList
    ++ (a.label.map fun l => ("label", .str l)).toList
    ++ [("timestamp", .float a.timestamp)]

/-- The older names of two members, each with its present name. -/
def legacyNames : List (String × String) := [("type", "kind"), ("selector", "locator")]

/-- Moves a member from its older name to the present one, unless that is taken. -/
def modernize (fields : Fields) (names : String × String) : Fields :=
  match fields.get? names.2, fields.get? names.1 with
  | none, some v => (fields.erase names.1).set names.2 v
  | _, _ => fields

def readKind (fields : Fields) : Except RecordError Kind :=
  let found := (fields.get? "kind").getD .null
  match found.text?.bind Kind.ofName? with
  | some kind => .ok kind
  | none => .error (.unknownKind found)

/-- A value as a text; null is no text. -/
def readText (fields : Fields) (name : String) : Option String :=
  match fields.get? name with
  | none | some .null => none
  | some v => some v.display

/-- The timestamp of a record, zero if nothing is said. -/
def readTimestamp (fields : Fields) : Except RecordError Float :=
  let found := (fields.get? "timestamp").getD .null
  if !found.truthy then .ok 0.0
  else match found with
    | .float x => .ok x
    | .bool _ => .ok 1.0
    | .int n => match Decimal.ofInt? n with
      | some x => .ok x
      | none => .error .timestampOverflow
    | .str s => match Decimal.readFloat? s with
      | some x => .ok x
      | none => .error (.invalidTimestamp found)
    | _ => .error (.invalidTimestamp found)

def ofRecord : Json → Except RecordError (Action String)
  | .obj fields => do
    -- the older names are seen to first, so that both forms fail in the same words
    let fields := legacyNames.foldl modernize fields
    let kind ← readKind fields
    let locator ← match fields.get? "locator" with
      | some (.str s) => pure s
      | _ => throw (.noLocator kind)
    let timestamp ← readTimestamp fields
    return { kind, locator, timestamp
             value := readText fields "value", label := readText fields "label" }
  | found => .error (.notAnObject found)

end Action

/-! ## Logs -/

namespace Log

variable {α : Type}

/-- The records of a log, oldest first. -/
def toRecords (write : α → Json) (log : Log α) : List Json := log.actions.map (·.toRecord write)

/-- A log of records that are numbered from `index` on, added to `log`. -/
def addRecords (log : Log String) (index : Nat) : List Json → Except LogError (Log String)
  | [] => .ok log
  | record :: rest =>
    match Action.ofRecord record with
    | .error why => .error (.record index why)
    | .ok a =>
      match log.append a with
      | .error _ => .error (.emptyLocator index)
      | .ok (log, _) => log.addRecords (index + 1) rest

/-- A log of the records, in their order. -/
def ofRecords (records : List Json) (baseUrl : String := "") : Except LogError (Log String) :=
  addRecords { baseUrl } 0 records

/-- What a value holds, taken as a collection: the items of a list, the names of an object, the
characters of a text. -/
def elements? : Json → Option (List Json)
  | .arr items => some items
  | .obj fields => some (fields.map fun f => .str f.1)
  | .str s => some (s.toList.map fun c => .str c.toString)
  | _ => none

/-- A log of the records that any JSON value holds. -/
def ofCollection (records : Json) (baseUrl : String := "") : Except LogError (Log String) :=
  match elements? records with
  | some items => ofRecords items baseUrl
  | none => .error (.notACollection records)

def toJson (write : α → Json) (log : Log α) : Json :=
  .obj [("baseUrl", write log.baseUrl), ("actions", .arr (log.toRecords write))]

def toText (write : α → Json) (log : Log α) (indent : Option Int := some 2) : String :=
  Json.write { indent } (log.toJson write)

/-- The address of a log, empty if nothing is said. -/
def readBaseUrl (fields : Fields) : String :=
  match fields.get? "baseUrl" with
  | some v => if v.truthy then v.display else ""
  | none => ""

/-- The log of a JSON value: a list of records, or an object that holds such a list. -/
def ofJson : Json → Except LogError (Log String)
  | .arr records => ofRecords records
  | .obj fields =>
    match (Fields.get? fields "actions").getD (.arr []) with
    | .arr records => ofRecords records (readBaseUrl fields)
    | _ => .error .noActions
  | _ => .error .noActions

def ofText (text : String) : Except LogError (Log String) :=
  match Json.read text with
  | .error why => .error (.syntaxError text why)
  | .ok v => ofJson v

end Log

end Retrace
