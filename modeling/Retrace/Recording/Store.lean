/-
The store of a recording.

A store keeps three things under fixed names: the actions as records, the address, and whether a
recording is on. It lives in memory, or in a file of JSON text that others may write to as well,
so whatever is found there must be coped with: a file that is missing or no JSON counts as empty,
and a value that has another shape is an error of the operation that meets it. Every operation
tells what it has changed.
-/
import Retrace.Action.Record
import Retrace.Json.Members

set_option autoImplicit false

namespace Retrace

/-- Where the data of a recording is kept. -/
inductive Store where
  | memory (data : Json)
  /-- A file, by its path and its text; there is no text before the first write. -/
  | file (path : String) (text : Option String)

namespace Store

/-! ## Changes, notices and errors -/

/-- A name whose value has changed. A value that was missing counts as null. -/
structure Change where
  key : String
  before : Json
  after : Json

/-- What is odd about a store. -/
inductive Notice where
  | corruptFile (path : String)
  deriving Repr, DecidableEq

def Notice.message : Notice → String
  | .corruptFile path => s!"Corrupt store file {path}; starting empty"

/-- Why an operation failed. -/
inductive Error where
  /-- The data is no object, so it has no members. -/
  | noMembers (found : Json)
  | missingKey (key : String)
  | log (why : LogError)
  | missingLocator (why : MissingLocator)
  /-- The data is no object, so nothing can be set in it. -/
  | notAMapping (found : Json)
  /-- What was written is no object. -/
  | noGetter (found : Json)
  /-- The actions that were written have no number. -/
  | unsized (found : Json)
  | tooManyDigits
  | tooDeep
  /-- The file's value is a single value, which cannot be merged. -/
  | notIterable (found : Json)
  /-- The item of a list of pairs is a single value. -/
  | pairNotASequence (index : Nat)
  | pairLength (index length : Nat)
  /-- The name in a pair is a container. -/
  | unhashable (found : Json)

def Error.message : Error → String
  | .noMembers found => match found with
    | .arr _ => "list indices must be integers or slices, not str"
    | .str _ => "string indices must be integers, not 'str'"
    | _ => Text.quoted found.sortName ++ " object is not subscriptable"
  | .missingKey key => Text.quoted key
  | .log why => why.message
  | .missingLocator why => why.message
  | .notAMapping found => Text.quoted found.sortName ++ " object is not a mapping"
  | .noGetter found => Text.quoted found.sortName ++ " object has no attribute 'get'"
  | .unsized found => "object of type " ++ Text.quoted found.sortName ++ " has no len()"
  | .tooManyDigits => Json.Fault.message .tooManyDigits
  | .tooDeep => Json.Fault.message .tooDeep
  | .notIterable found => Text.quoted found.sortName ++ " object is not iterable"
  | .pairNotASequence index =>
    s!"cannot convert dictionary update sequence element #{index} to a sequence"
  | .pairLength index length =>
    s!"dictionary update sequence element #{index} has length {length}; 2 is required"
  | .unhashable found => "unhashable type: " ++ Text.quoted found.sortName

/-- What an operation leads to. The store may have changed even if it failed. -/
structure Outcome (α : Type) where
  store : Store
  result : Except Error α
  changes : List Change := []
  notices : List Notice := []

/-! ## Reading -/

/-- What a store holds: members, or else a value that has none. -/
inductive Data where
  | members (members : Members)
  | single (value : Json)

/-- A value as the data of a store. -/
def Data.ofJson : Json → Data
  | .obj fields => .members (.ofFields fields)
  | v => .single v

def Data.toJson : Data → Json
  | .members ms => .obj ms.toFields
  | .single v => v

def emptyFields : Fields :=
  [("baseUrl", .str ""), ("actions", .arr []), ("isRecording", .bool false)]

/-- Can the value be a name? A container cannot. -/
def isName : Json → Bool
  | .arr _ | .obj _ => false
  | _ => true

/-- The name and the value that the item of a list of pairs stands for. -/
def pairOf (index : Nat) (item : Json) : Except Error (Json × Json) :=
  match Log.elements? item with
  | none => .error (.pairNotASequence index)
  | some [name, value] => if isName name then .ok (name, value) else .error (.unhashable name)
  | some other => .error (.pairLength index other.length)

/-- The members with what the file says: the members of an object, or a list of pairs. -/
def mergeValue (members : Members) : Json → Except Error Members
  | .obj fields => .ok (members.merge (.ofFields fields))
  | found =>
    match Log.elements? found with
    | none => .error (.notIterable found)
    | some items => do
      let pairs ← (items.mapIdx fun i item => (i, item)).mapM fun (i, item) => pairOf i item
      return members.merge pairs

def read : Store → Except Error Data × List Notice
  | .memory data => (.ok (.ofJson data), [])
  | .file _ none => (.ok (.members (.ofFields emptyFields)), [])
  | .file path (some text) =>
    match Json.read text with
    | .ok v => (Data.members <$> mergeValue (.ofFields emptyFields) v, [])
    | .error ⟨.tooManyDigits, _⟩ => (.error .tooManyDigits, [])
    | .error ⟨.tooDeep, _⟩ => (.error .tooDeep, [])
    | .error _ => (.ok (.members (.ofFields emptyFields)), [.corruptFile path])

/-- The value under a name that must be there. -/
def need (data : Data) (key : String) : Except Error Json :=
  match data with
  | .members members => match members.get? (.str key) with
    | some v => .ok v
    | none => .error (.missingKey key)
  | .single found => .error (.noMembers found)

/-! ## Writing -/

/-- Can the number of actions be told? It is noted down with every write of a file. -/
def checkSize (data : Json) : Except Error Unit :=
  match data with
  | .obj fields =>
    match (Fields.get? fields "actions").getD (.arr []) with
    | .arr _ | .obj _ | .str _ => .ok ()
    | found => .error (.unsized found)
  | found => .error (.noGetter found)

/-- Replaces the data of a store as a whole. -/
def put (store : Store) (data : Json) : Outcome Unit :=
  match store with
  | .memory _ => { store := .memory data, result := .ok () }
  | .file path _ =>
    -- the text is written first, so it stays even if the number of actions cannot be told
    { store := .file path (some (Json.write { indent := some 2 } data)), result := checkSize data }

/-- The changes from the old members to the new ones. -/
def changesOf (before : Members) (after : Fields) : List Change :=
  (after.map fun (key, v) =>
    (⟨key, (before.get? (.str key)).getD .null, v⟩ : Change)).filter
      fun c => c.before.differs c.after

/-- Sets some members of the data and tells which have changed. -/
def commit (store : Store) (data : Data) (changes : Fields) : Outcome Unit :=
  match data with
  | .members members =>
    let written := store.put (Data.toJson (.members (members.merge (.ofFields changes))))
    match written.result with
    | .ok _ => { written with changes := changesOf members changes }
    | .error _ => written
  | .single found => { store, result := .error (.notAMapping found) }

/-- Runs an operation on the data of a store. -/
def withData {α : Type} (store : Store) (f : Data → Outcome α) : Outcome α :=
  match store.read with
  | (.error e, notices) => { store, result := .error e, notices }
  | (.ok data, notices) =>
    let outcome := f data
    { outcome with notices := notices ++ outcome.notices }

/-! ## Operations -/

/-- A store in memory with nothing in it. -/
def emptyMemory : Store := .memory (.obj emptyFields)

def load (store : Store) : Outcome Json :=
  store.withData fun data => { store, result := .ok data.toJson }

/-- The stored records as a log. Its address is the stored one, which may be any value. -/
def logOf (data : Data) : Except Error (Log Json) := do
  let records ← need data "actions"
  let baseUrl ← need data "baseUrl"
  match Log.ofCollection records with
  | .ok log => return { log.map .str with baseUrl }
  | .error e => throw (.log e)

def loadLog (store : Store) : Outcome (Log Json) :=
  store.withData fun data => { store, result := logOf data }

/-- The members that an append sets. An empty log without an address takes the given one. -/
def appended (log : Log Json) (a : Action Json) (coalesce : Bool) (baseUrl : Json) :
    Except Error Fields :=
  let log :=
    if log.actions.isEmpty && !log.baseUrl.truthy && baseUrl.truthy then { log with baseUrl }
    else log
  match log.append a coalesce with
  | .ok (log, _) => .ok [("actions", .arr (log.toRecords id)), ("baseUrl", log.baseUrl)]
  | .error e => .error (.missingLocator e)

/-- Appends an action as the log does. -/
def append (store : Store) (a : Action Json) (coalesce : Bool := false)
    (baseUrl : Json := .str "") : Outcome Unit :=
  store.withData fun data =>
    match (do appended (← logOf data) a coalesce baseUrl) with
    | .ok changes => store.commit data changes
    | .error e => { store, result := .error e }

def reset (store : Store) : Outcome Unit :=
  store.withData fun data => store.commit data [("actions", .arr []), ("baseUrl", .str "")]

def setRecording (store : Store) (value : Json) : Outcome Unit :=
  store.withData fun data => store.commit data [("isRecording", value)]

end Store

end Retrace
