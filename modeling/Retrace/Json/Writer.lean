/-
Writing JSON text.

On one line, items are separated by a comma and a space. With an indent, every item stands on a
line of its own, the comma ends the line, and the indent is repeated once for each level; empty
containers stay on one line in either case. Strings may hold any character, or ASCII only.
-/
import Retrace.Json.Value
import Retrace.Decimal.Shortest
import Retrace.Text.Quoted

set_option autoImplicit false

namespace Retrace.Json

/-- How a text is laid out. -/
structure Style where
  /-- Spaces for each level; `none` for a text on one line. A negative number counts as zero. -/
  indent : Option Int := none
  /-- Write all characters beyond ASCII as escapes? -/
  asciiOnly : Bool := false

/-! ## Strings -/

def unitEscape (n : Nat) : List Char := '\\' :: 'u' :: Text.hex 4 n

/-- A character as escapes of its UTF-16 units. -/
def charEscape (c : Char) : List Char :=
  let n := c.toNat
  if n < 0x10000 then unitEscape n
  else unitEscape (0xd800 + (n - 0x10000) / 0x400) ++ unitEscape (0xdc00 + (n - 0x10000) % 0x400)

def writeChar (asciiOnly : Bool) (c : Char) : List Char :=
  if c = '"' then ['\\', '"']
  else if c = '\\' then ['\\', '\\']
  else if c = '\n' then ['\\', 'n']
  else if c = '\r' then ['\\', 'r']
  else if c = '\t' then ['\\', 't']
  else if c = '\x08' then ['\\', 'b']
  else if c = '\x0c' then ['\\', 'f']
  else if c.toNat < 0x20 then charEscape c
  else if asciiOnly && 0x7f ≤ c.toNat then charEscape c
  else [c]

def writeString (asciiOnly : Bool) (s : String) : List Char :=
  '"' :: s.toList.flatMap (writeChar asciiOnly) ++ ['"']

/-! ## Numbers -/

/-- A decimal number; the ones that are not finite have names. -/
def writeFloat (x : Float) : List Char :=
  match Decimal.decode x with
  | .nan => "NaN".toList
  | .infinite negative => (if negative then "-Infinity" else "Infinity").toList
  | .finite .. => (Decimal.text x).toList

/-! ## Values -/

/-- The line break and indent before an item at the given level. -/
def Style.lineBreak (style : Style) (level : Nat) : List Char :=
  match style.indent with
  | none => []
  | some n => '\n' :: List.replicate (n * level).toNat ' '

/-- What stands between two items at the given level. -/
def Style.separator (style : Style) (level : Nat) : List Char :=
  match style.indent with
  | none => [',', ' ']
  | some _ => ',' :: style.lineBreak level

mutual

/-- The text of a value that stands at the given level. -/
def writeAt (style : Style) (level : Nat) : Json → List Char
  | .null => "null".toList
  | .bool true => "true".toList
  | .bool false => "false".toList
  | .int n => (toString n).toList
  | .float x => writeFloat x
  | .str s => writeString style.asciiOnly s
  | .arr [] => ['[', ']']
  | .arr (v :: rest) =>
    '[' :: style.lineBreak (level + 1) ++ writeAt style (level + 1) v
      ++ writeItems style (level + 1) rest ++ style.lineBreak level ++ [']']
  | .obj [] => ['\x7b', '\x7d']
  | .obj ((name, v) :: rest) =>
    '\x7b' :: style.lineBreak (level + 1) ++ writeString style.asciiOnly name ++ ':' :: ' '
      :: writeAt style (level + 1) v ++ writeFields style (level + 1) rest
      ++ style.lineBreak level ++ ['\x7d']

/-- The further items of a list, each after a separator. -/
def writeItems (style : Style) (level : Nat) : List Json → List Char
  | [] => []
  | v :: rest => style.separator level ++ writeAt style level v ++ writeItems style level rest

/-- The further members of an object, each after a separator. -/
def writeFields (style : Style) (level : Nat) : List (String × Json) → List Char
  | [] => []
  | (name, v) :: rest =>
    style.separator level ++ writeString style.asciiOnly name ++ ':' :: ' '
      :: writeAt style level v ++ writeFields style level rest

end

def write (style : Style) (v : Json) : String := String.ofList (writeAt style 0 v)

end Retrace.Json
