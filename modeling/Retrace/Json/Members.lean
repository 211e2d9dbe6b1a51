/-
Members under names of any sort.

Pairs of a name and a value stand for an object whose names need not be texts. Two names are one if
they are equal as values, so one and true are the same name. In JSON text every name is written
as a text, and names that differ as values may look alike there.
-/
import Retrace.Json.Writer

set_option autoImplicit false

namespace Retrace

/-- Values under names of any sort, each name once. -/
abbrev Members := List (Json × Json)

namespace Members

def get? (members : Members) (name : Json) : Option Json :=
  (members.find? fun m => m.1.same name).map (·.2)

/-- Sets the value under a name: in place, under the name as it stands there, or else at the
end. -/
def set (name value : Json) : Members → Members
  | [] => [(name, value)]
  | (n, v) :: rest => if n.same name then (n, value) :: rest else (n, v) :: set name value rest

/-- Sets all members of `more` in turn. -/
def merge (members more : Members) : Members := more.foldl (fun acc m => acc.set m.1 m.2) members

def ofFields (fields : Fields) : Members := fields.map fun (name, v) => (.str name, v)

def writtenName : Json → String
  | .str s => s
  | v => Json.write {} v

/-- The members under their written names, of which several may look alike. -/
def toFields (members : Members) : Fields := members.map fun (name, v) => (writtenName name, v)

/-! ## Members of an object -/

/-- The members of an object are written under their own names. -/
theorem toFields_ofFields (fields : Fields) : (ofFields fields).toFields = fields := by
  simp [toFields, ofFields, writtenName, Function.comp_def]

/-- A text finds the same value in an object and in its members. -/
theorem get?_ofFields (fields : Fields) (name : String) :
    (ofFields fields).get? (.str name) = fields.get? name := by
  induction fields with
  | nil => rfl
  | cons f rest ih =>
    obtain ⟨n, v⟩ := f
    simp only [ofFields, get?, Fields.get?] at ih ⊢
    by_cases h : n = name
    · subst h
      simp [Json.same]
    · have h' : (name == n) = false := beq_false_of_ne (Ne.symm h)
      simpa [Json.same, List.lookup_cons, h, h'] using ih

/-- A text is set in an object and in its members alike. -/
theorem set_ofFields (fields : Fields) (name : String) (value : Json) :
    (ofFields fields).set (.str name) value = ofFields (fields.set name value) := by
  induction fields with
  | nil => rfl
  | cons f rest ih =>
    obtain ⟨n, v⟩ := f
    by_cases h : n = name
    · simp [ofFields, set, Fields.set, Json.same, h]
    · simpa [ofFields, set, Fields.set, Json.same, h] using ih

end Members

end Retrace
