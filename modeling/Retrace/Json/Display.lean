/-
The text of a value, as it is shown in labels and messages.

On its own a string is shown as it is; inside a container, and where a value is quoted in a
message, it stands between quotes. The three constants have a capital letter.
-/
import Retrace.Json.Value
import Retrace.Decimal.Shortest
import Retrace.Text.Quoted

set_option autoImplicit false

namespace Retrace.Json

mutual

/-- The value with every string between quotes. -/
def inspect : Json → String
  | .null => "None"
  | .bool true => "True"
  | .bool false => "False"
  | .int n => toString n
  | .float x => Decimal.text x
  | .str s => Text.quoted s
  | .arr items => "[" ++ ", ".intercalate (inspectItems items) ++ "]"
  | .obj fields => "\x7b" ++ ", ".intercalate (inspectFields fields) ++ "\x7d"

/-- The items of a list, each as in `inspect`. -/
def inspectItems : List Json → List String
  | [] => []
  | v :: rest => inspect v :: inspectItems rest

/-- The members of an object: quoted name, colon, value. -/
def inspectFields : List (String × Json) → List String
  | [] => []
  | (name, v) :: rest => (Text.quoted name ++ ": " ++ inspect v) :: inspectFields rest

end

/-- The value as text: a string is its own text, any other value is shown by `inspect`. -/
def display : Json → String
  | .str s => s
  | v => inspect v

/-- The name of the sort of value, as messages give it. -/
def sortName : Json → String
  | .null => "NoneType"
  | .bool _ => "bool"
  | .int _ => "int"
  | .float _ => "float"
  | .str _ => "str"
  | .arr _ => "list"
  | .obj _ => "dict"

end Retrace.Json
