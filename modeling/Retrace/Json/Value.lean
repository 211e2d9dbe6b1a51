/-
JSON values.

Whole numbers and decimal numbers are two kinds of value, since they are written differently. An
object keeps its members in the order in which their names first appeared. Equality of values is
looser than identity: numbers are compared by size across their kinds, truth values count as one
and zero, and the order of an object's members does not matter.
-/
import Retrace.Decimal.Binary

set_option autoImplicit false

namespace Retrace

/-- A JSON value. -/
inductive Json where
  | null
  | bool (b : Bool)
  | int (n : Int)
  | float (x : Float)
  | str (s : String)
  | arr (items : List Json)
  | obj (fields : List (String × Json))
  deriving Inhabited

/-- The members of an object, each name once. -/
abbrev Fields := List (String × Json)

/-! ## Members -/

namespace Fields

def get? (fields : Fields) (name : String) : Option Json := fields.lookup name

/-- Is there a member of that name? -/
def has (fields : Fields) (name : String) : Bool := (fields.get? name).isSome

/-- Sets the value under a name: in place if there is one, else at the end. -/
def set (name : String) (value : Json) : Fields → Fields
  | [] => [(name, value)]
  | (n, v) :: rest => if n = name then (n, value) :: rest else (n, v) :: set name value rest

/-- The members without the one of that name. -/
def erase (fields : Fields) (name : String) : Fields := fields.filter (·.1 != name)

/-- Sets all members of `more` in turn. -/
def merge (fields more : Fields) : Fields := more.foldl (fun acc f => acc.set f.1 f.2) fields

/-- Members as read: a name that comes again keeps its first place and takes the last value. -/
def ofList (members : Fields) : Fields := merge [] members

/-- What was set under a name is found there; other names are not touched. -/
theorem get?_set (fields : Fields) (name other : String) (value : Json) :
    (set name value fields).get? other =
      if other = name then some value else fields.get? other := by
  induction fields with
  | nil =>
    by_cases h : other = name
    · simp [set, get?, h]
    · simp [set, get?, List.lookup_cons, h, beq_false_of_ne h]
  | cons f rest ih =>
    obtain ⟨n, v⟩ := f
    simp only [get?] at ih ⊢
    by_cases hn : n = name
    · subst hn
      by_cases h : other = n
      · simp [set, h]
      · simp [set, List.lookup_cons, h, beq_false_of_ne h]
    · by_cases h : other = n
      · subst h
        simp [set, hn]
      · simp [set, hn, List.lookup_cons, ih, beq_false_of_ne h]

end Fields

/-! ## Views of a value -/

namespace Json

/-- The members of an object, the empty list for any other value. -/
def fields : Json → Fields
  | .obj fs => fs
  | _ => []

/-- Does the value say "something"? Zero, the empty text, the empty containers, false and null do
not. -/
def truthy : Json → Bool
  | .null => false
  | .bool b => b
  | .int n => n != 0
  | .float x => x != 0
  | .str s => s != ""
  | .arr items => !items.isEmpty
  | .obj fs => !fs.isEmpty

/-- The text of a string, `none` for any other value. -/
def text? : Json → Option String
  | .str s => some s
  | _ => none

end Json

/-! ## Equality -/

/-- A number of either kind. -/
inductive Number where
  | int (n : Int)
  | float (x : Float)

namespace Number

/-- Are the numbers of the same size? Not-a-number is the same as itself here. -/
def same : Number → Number → Bool
  | .int a, .int b => a == b
  | .int a, .float x => Decimal.isInt x a
  | .float x, .int a => Decimal.isInt x a
  | .float x, .float y => x == y || (x.isNaN && y.isNaN)

end Number

namespace Json

/-- The value as a number, truth values counting as one and zero. -/
def number? : Json → Option Number
  | .bool b => some (.int (if b then 1 else 0))
  | .int n => some (.int n)
  | .float x => some (.float x)
  | _ => none

mutual

def same : Json → Json → Bool
  | .null, .null => true
  | .str a, .str b => a == b
  | .arr a, .arr b => sameItems a b
  | .obj a, .obj b => a.length == b.length && sameFields a b
  | a, b => match a.number?, b.number? with
    | some x, some y => x.same y
    | _, _ => false

def sameItems : List Json → List Json → Bool
  | [], [] => true
  | a :: as, b :: bs => same a b && sameItems as bs
  | _, _ => false

/-- Does every member of the first list have an equal one of its name in the second? -/
def sameFields : List (String × Json) → List (String × Json) → Bool
  | [], _ => true
  | (name, a) :: rest, other =>
    (match other.lookup name with
      | some b => same a b
      | none => false) && sameFields rest other

end

/-- Has a value changed? A not-a-number on its own has, since it equals nothing, not even itself. -/
def differs : Json → Json → Bool
  | .float x, .float y => x != y
  | before, after => !before.same after

end Json

end Retrace
