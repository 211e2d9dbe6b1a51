/-
Reading JSON text.

The reader takes the text as a list of characters and hands back what it has not used. An error
carries the rest of the text from the offending character on, so its place is the length of what
came before. Names of not-a-number and the infinities are read as numbers; a number with a point
or an exponent is a decimal number, any other a whole number of any size up to a limit on its
digits; a member that comes twice takes its last value. Containers stand in one another to a limited
depth.

Texts are rows of characters, each of which is a scalar value of Unicode. So the escape of half a
character that has no other half next to it stands for none, and the replacement character U+FFFD
is read in its place.
-/
import Retrace.Json.Value
import Retrace.Decimal.Numeral

set_option autoImplicit false

namespace Retrace.Json

open Decimal (plainDigits plainValue)

/-! ## Errors -/

/-- What can be wrong with a JSON text. -/
inductive Fault where
  | byteOrderMark
  | expectingValue
  | expectingName
  | expectingColon
  | expectingComma
  | unterminatedString
  | controlCharacter
  | unknownEscape
  | unicodeEscape
  | extraData
  | tooManyDigits
  | tooDeep
  deriving Repr, DecidableEq

def Fault.message : Fault → String
  | .byteOrderMark => "Unexpected UTF-8 BOM (decode using utf-8-sig)"
  | .expectingValue => "Expecting value"
  | .expectingName => "Expecting property name enclosed in double quotes"
  | .expectingColon => "Expecting ':' delimiter"
  | .expectingComma => "Expecting ',' delimiter"
  | .unterminatedString => "Unterminated string starting at"
  | .controlCharacter => "Invalid control character at"
  | .unknownEscape => "Invalid \\escape"
  | .unicodeEscape => "Invalid \\uXXXX escape"
  | .extraData => "Extra data"
  | .tooManyDigits => "Too many digits in a whole number"
  | .tooDeep => "Too many containers in one another"

/-- A fault and the text from the offending character on. -/
structure ReadError where
  fault : Fault
  rest : List Char
  deriving Repr, DecidableEq

/-- A place in a text: line and column counted from one, and the number of characters before it. -/
structure Place where
  line : Nat
  column : Nat
  offset : Nat
  deriving Repr, DecidableEq

/-- The place that comes after the given characters. -/
def Place.after (before : List Char) : Place :=
  { line := before.count '\n' + 1
    column := (before.reverse.takeWhile (· != '\n')).length + 1
    offset := before.length }

/-- Where in the text the error lies. -/
def ReadError.place (e : ReadError) (text : List Char) : Place :=
  .after (text.take (text.length - e.rest.length))

/-- The wording of an error in the given text. -/
def ReadError.message (e : ReadError) (text : List Char) : String :=
  let p := e.place text
  s!"{e.fault.message}: line {p.line} column {p.column} (char {p.offset})"

/-! ## Blanks and strings -/

/-- The four characters that may stand between tokens. -/
def isGap (c : Char) : Bool := c = ' ' || c = '\t' || c = '\n' || c = '\r'

/-- The text from the first character that is no gap. -/
def skipGap (cs : List Char) : List Char := cs.dropWhile isGap

/-- One unit of a string: a character as it stands, or the number of a four-digit escape. -/
inductive Piece where
  | char (c : Char)
  | unit (n : Nat)

/-- The character that a one-letter escape stands for. -/
def escaped? : Char → Option Char
  | '"' => some '"'
  | '\\' => some '\\'
  | '/' => some '/'
  | 'b' => some '\x08'
  | 'f' => some '\x0c'
  | 'n' => some '\n'
  | 'r' => some '\r'
  | 't' => some '\t'
  | _ => none

/-- The value of a hexadecimal digit of either case. -/
def hexValue? (c : Char) : Option Nat :=
  if '0' ≤ c && c ≤ '9' then some (c.toNat - 0x30)
  else if 'a' ≤ c && c ≤ 'f' then some (c.toNat - 0x57)
  else if 'A' ≤ c && c ≤ 'F' then some (c.toNat - 0x37)
  else none

/-- The number that hexadecimal digits spell, `none` if one of them is no digit. -/
def hexNumber? (digits : List Char) : Option Nat :=
  digits.foldlM (fun n c => (hexValue? c).map (16 * n + ·)) 0

/-- Reads a string from behind its opening quote. `start` is the text from the quote on, where a
string without an end is reported. A four-digit escape needs a further character behind it. -/
def pieces (start : List Char) : List Char → Except ReadError (List Piece × List Char)
  | [] => .error ⟨.unterminatedString, start⟩
  | '"' :: rest => .ok ([], rest)
  | '\\' :: [] => .error ⟨.unterminatedString, start⟩
  | '\\' :: 'u' :: a :: b :: c :: d :: next :: more =>
    match hexNumber? [a, b, c, d] with
    | none => .error ⟨.unicodeEscape, 'u' :: a :: b :: c :: d :: next :: more⟩
    | some n => do
      let (ps, rest) ← pieces start (next :: more)
      return (.unit n :: ps, rest)
  | '\\' :: 'u' :: rest => .error ⟨.unicodeEscape, 'u' :: rest⟩
  | '\\' :: e :: more =>
    match escaped? e with
    | none => .error ⟨.unknownEscape, '\\' :: e :: more⟩
    | some c => do
      let (ps, rest) ← pieces start more
      return (.char c :: ps, rest)
  | c :: more =>
    if c.toNat < 0x20 then .error ⟨.controlCharacter, c :: more⟩
    else do
      let (ps, rest) ← pieces start more
      return (.char c :: ps, rest)

/-- Joins two escapes that are the halves of one character; a half on its own becomes the
replacement character. -/
def joinPieces : List Piece → List Char
  | [] => []
  | .char c :: rest => c :: joinPieces rest
  | .unit hi :: .unit lo :: rest =>
    if 0xd800 ≤ hi && hi < 0xdc00 && 0xdc00 ≤ lo && lo < 0xe000 then
      Char.ofNat (0x10000 + (hi - 0xd800) * 0x400 + (lo - 0xdc00)) :: joinPieces rest
    else unitChar hi :: joinPieces (.unit lo :: rest)
  | .unit n :: rest => unitChar n :: joinPieces rest
where
  /-- The character of one unit. -/
  unitChar (n : Nat) : Char := if n.isValidChar then Char.ofNat n else '\ufffd'

/-- Reads a string from its opening quote `'"' :: rest` on. -/
def stringText (rest : List Char) : Except ReadError (String × List Char) := do
  let (ps, rest) ← pieces ('"' :: rest) rest
  return (String.ofList (joinPieces ps), rest)

/-! ## Numbers -/

/-- The digits before the point: a zero alone, or digits that do not start with one. -/
def wholeDigits : List Char → List Char × List Char
  | '0' :: rest => (['0'], rest)
  | cs => plainDigits cs

/-- The digits behind a point; nothing is read if there are none. -/
def fractionDigits (cs : List Char) : Option (List Char × List Char) :=
  match cs with
  | '.' :: rest =>
    let (digits, left) := plainDigits rest
    if digits.isEmpty then none else some (digits, left)
  | _ => none

/-- The power of ten behind an exponent mark; nothing is read if there are no digits. -/
def exponentNumber (cs : List Char) : Option (Int × List Char) :=
  match cs with
  | c :: rest =>
    if c = 'e' || c = 'E' then
      let (negative, body) := Decimal.splitSign rest
      let (digits, left) := plainDigits body
      let n : Int := plainValue digits
      if digits.isEmpty then none else some (if negative then -n else n, left)
    else none
  | [] => none

/-- Reads a number, or reports that there is no value here. -/
def number (cs : List Char) : Except ReadError (Json × List Char) :=
  let (negative, body) := match cs with
    | '-' :: rest => (true, rest)
    | _ => (false, cs)
  let (whole, left) := wholeDigits body
  if whole.isEmpty then .error ⟨.expectingValue, cs⟩
  else
    let fraction := fractionDigits left
    let left := (fraction.map (·.2)).getD left
    let exponent := exponentNumber left
    let left := (exponent.map (·.2)).getD left
    -- a point or an exponent without digits is left for what follows the number
    if fraction.isNone && exponent.isNone then
      if Decimal.maxDigits < whole.length then .error ⟨.tooManyDigits, cs⟩
      else
        let n : Int := plainValue whole
        .ok (.int (if negative then -n else n), left)
    else
      let after := (fraction.map (·.1)).getD []
      let power := (exponent.map (·.1)).getD 0 - after.length
      .ok (.float (Decimal.ofDecimal negative (plainValue (whole ++ after)) power), left)

/-! ## Values -/

/-- So many containers may stand in one another. -/
def maxDepth : Nat := 985

/-- The words that are values, with the value of each. -/
def namedValues : List (List Char × Json) :=
  [("null".toList, .null), ("true".toList, .bool true), ("false".toList, .bool false),
    ("NaN".toList, .float Decimal.nan), ("Infinity".toList, .float (Decimal.infinity false)),
    ("-Infinity".toList, .float (Decimal.infinity true))]

/-- The first of the words that the text starts with, and the text behind it. -/
def namedValue? (cs : List Char) : Option (Json × List Char) :=
  namedValues.findSome? fun (word, v) => (word.isPrefixOf? cs).map fun rest => (v, rest)

mutual

/-- Reads one value at the very front of the text, which holds at most `room` containers in one
another. -/
def value : Nat → Nat → List Char → Except ReadError (Json × List Char)
  | 0, _, cs => .error ⟨.expectingValue, cs⟩
  | fuel + 1, room, cs =>
    match cs, room with
    | '"' :: rest, _ => do
      let (s, rest) ← stringText rest
      return (.str s, rest)
    | '[' :: _, 0 | '\x7b' :: _, 0 => .error ⟨.tooDeep, cs⟩
    | '[' :: rest, room + 1 =>
      match skipGap rest with
      | ']' :: rest => .ok (.arr [], rest)
      | rest => do
        let (vs, rest) ← items fuel room rest
        return (.arr vs, rest)
    | '\x7b' :: rest, room + 1 =>
      match skipGap rest with
      | '\x7d' :: rest => .ok (.obj [], rest)
      | rest => do
        let (members, rest) ← members fuel room rest
        return (.obj (Fields.ofList members), rest)
    | _, _ =>
      -- `-Infinity` is a word, so the words are tried before the numbers
      match namedValue? cs with
      | some found => .ok found
      | none => number cs

/-- Reads the items of a list that is not empty, and its closing bracket. -/
def items : Nat → Nat → List Char → Except ReadError (List Json × List Char)
  | 0, _, cs => .error ⟨.expectingValue, cs⟩
  | fuel + 1, room, cs => do
    let (v, rest) ← value fuel room cs
    match skipGap rest with
    | ']' :: rest => return ([v], rest)
    | ',' :: rest =>
      let (vs, rest) ← items fuel room (skipGap rest)
      return (v :: vs, rest)
    | rest => .error ⟨.expectingComma, rest⟩

/-- Reads the members of an object that is not empty, and its closing brace. -/
def members : Nat → Nat → List Char → Except ReadError (List (String × Json) × List Char)
  | 0, _, cs => .error ⟨.expectingValue, cs⟩
  | fuel + 1, room, cs =>
    match cs with
    | '"' :: rest => do
      let (name, rest) ← stringText rest
      match skipGap rest with
      | ':' :: rest =>
        let (v, rest) ← value fuel room (skipGap rest)
        match skipGap rest with
        | '\x7d' :: rest => return ([(name, v)], rest)
        | ',' :: rest =>
          let (more, rest) ← members fuel room (skipGap rest)
          return ((name, v) :: more, rest)
        | rest => .error ⟨.expectingComma, rest⟩
      | rest => .error ⟨.expectingColon, rest⟩
    | _ => .error ⟨.expectingName, cs⟩

end

/-- Reads a text that is one value with gaps around it. Every two steps of the reader use up a
character, which bounds their number. -/
def readChars (cs : List Char) : Except ReadError Json :=
  if cs.head? = some '\ufeff' then .error ⟨.byteOrderMark, cs⟩
  else do
    let (v, rest) ← value (2 * cs.length + 2) maxDepth (skipGap cs)
    match skipGap rest with
    | [] => return v
    | rest => .error ⟨.extraData, rest⟩

def read (text : String) : Except ReadError Json := readChars text.toList

end Retrace.Json
