/-
Names and values inside of selectors.

A name is made of letters, digits, the hyphen, the underscore and all characters from U+00A0 on,
and does not start with a digit. Any other character is escaped: by a backslash in front of it,
or by its number in hexadecimal, which a blank ends. Writing escapes what must be escaped, and
reading takes the longest name there is.

A value is a name or any text in quotes, with the same escapes. There are no comments.
-/
import Retrace.Json.Reader
import Retrace.Text.Quoted

set_option autoImplicit false

namespace Retrace.Selector

/-! ## Writing a name -/

/-- The shortest hexadecimal form of a number below 256. -/
def shortHex (n : Nat) : List Char :=
  if n < 16 then [Text.hexDigit n] else Text.hex 2 n

/-- A character by its number, with the blank that ends it. -/
def numberEscape (c : Char) : List Char := '\\' :: shortHex c.toNat ++ [' ']

/-- May the character stand in a written name as it is, wherever that may be? -/
def needsNoEscape (c : Char) : Bool :=
  c.isAlphanum || c = '-' || c = '_' || 0x80 ≤ c.toNat

/-- One character of a name. At the start, where a digit would end the name, digits are escaped;
there is no character for U+0000. -/
def escapeChar (atStart : Bool) (c : Char) : List Char :=
  if c = '\x00' then ['\ufffd']
  else if c.toNat < 0x20 || c = '\x7f' then numberEscape c
  else if atStart && c.isDigit then numberEscape c
  else if needsNoEscape c then [c]
  else ['\\', c]

/-- A name, written so that it is read back as one. A hyphen counts as start for the character
behind it, and is escaped if it stands alone. -/
def escapeName : List Char → List Char
  | [] => []
  | ['-'] => ['\\', '-']
  | '-' :: c :: rest => '-' :: escapeChar true c ++ rest.flatMap (escapeChar false)
  | c :: rest => escapeChar true c ++ rest.flatMap (escapeChar false)

/-- A name, written so that it is read back as one. -/
def escape (name : String) : String := String.ofList (escapeName name.toList)

/-! ## Reading a name -/

/-- May a name start with the character? -/
def isNameStart (c : Char) : Bool := c.isAlpha || c = '_' || 0xa0 ≤ c.toNat

/-- May the character stand behind the start of a name? -/
def isNameChar (c : Char) : Bool := isNameStart c || c.isDigit || c = '-'

def isSpace (c : Char) : Bool :=
  c = ' ' || c = '\t' || c = '\n' || c = '\r' || c = '\x0c'

/-- The text without the blank that ends a number; a line break of two characters is one. -/
def skipOneSpace : List Char → List Char
  | '\r' :: '\n' :: rest => rest
  | c :: rest => if isSpace c then rest else c :: rest
  | [] => []

def isHexDigit (c : Char) : Bool := (Json.hexValue? c).isSome

def numberedChar (n : Nat) : Char := if n ≠ 0 && n.isValidChar then Char.ofNat n else '\ufffd'

/-- What an escape stands for, from behind its backslash, and what follows it. Line breaks cannot
be escaped, and numbers beyond the last character are none. -/
def readEscape? (cs : List Char) : Option (Char × List Char) :=
  match (cs.take 6).takeWhile isHexDigit with
  | [] =>
    match cs with
    | c :: rest => if c = '\n' || c = '\r' || c = '\x0c' then none else some (c, rest)
    | [] => some ('\ufffd', [])
  | digits =>
    ((Json.hexNumber? digits).filter (· ≤ 0x10ffff)).map fun n =>
      (numberedChar n, skipOneSpace (cs.drop digits.length))

/-- The longest run of name characters and escapes at the front of the text, in at most `fuel`
steps, and what follows it. -/
def readNameChars : Nat → List Char → List Char × List Char
  | 0, cs => ([], cs)
  | _, [] => ([], [])
  | fuel + 1, c :: rest =>
    if isNameChar c then
      let (name, left) := readNameChars fuel rest
      (c :: name, left)
    else if c = '\\' then
      match readEscape? rest with
      | some (d, more) =>
        let (name, left) := readNameChars fuel more
        (d :: name, left)
      | none => ([], c :: rest)
    else ([], c :: rest)

/-- Does a name start here? There may be one hyphen in front of its first letter, or two hyphens
and then anything. -/
def startsName : List Char → Bool
  | '-' :: '-' :: _ => true
  | '-' :: c :: rest => isNameStart c || (c = '\\' && (readEscape? rest).isSome)
  | c :: rest => isNameStart c || (c = '\\' && (readEscape? rest).isSome)
  | [] => false

/-- The name at the front of the text and what follows it. -/
def readName? (cs : List Char) : Option (String × List Char) :=
  if startsName cs then
    let (name, left) := readNameChars cs.length cs
    some (String.ofList name, left)
  else none

/-! ## Reading a value -/

/-- The text behind a line break at its front. -/
def afterBreak? : List Char → Option (List Char)
  | '\r' :: '\n' :: rest => some rest
  | c :: rest => if c = '\n' || c = '\r' || c = '\x0c' then some rest else none
  | [] => none

/-- What stands in front of the closing quote, as it is written, and what follows the quote. A line
is broken behind a backslash only. -/
def quotedPart? (quote : Char) : List Char → Option (List Char × List Char)
  | '\\' :: '\r' :: '\n' :: rest =>
    (quotedPart? quote rest).map fun (inside, left) => ('\\' :: '\r' :: '\n' :: inside, left)
  | '\\' :: c :: rest =>
    (quotedPart? quote rest).map fun (inside, left) => ('\\' :: c :: inside, left)
  | c :: rest =>
    if c = quote then some ([], rest)
    else if c = '\\' || (afterBreak? [c]).isSome then none
    else (quotedPart? quote rest).map fun (inside, left) => (c :: inside, left)
  | [] => none

/-- A text with its escapes replaced, in at most `fuel` steps. Escaped line breaks are left out. -/
def unescape? : Nat → List Char → Option (List Char)
  | 0, _ | _, [] => some []
  | fuel + 1, c :: rest =>
    if c = '\\' then
      match afterBreak? rest with
      | some left => unescape? fuel left
      | none => (readEscape? rest).bind fun (d, left) => (d :: ·) <$> unescape? fuel left
    else (c :: ·) <$> unescape? fuel rest

/-- The value at the front of the text and what follows it. -/
def readValue? : List Char → Option (String × List Char)
  | [] => none
  | c :: rest =>
    if c = '"' || c = '\'' then do
      let (inside, left) ← quotedPart? c rest
      let chars ← unescape? inside.length inside
      return (String.ofList chars, left)
    else readName? (c :: rest)

end Retrace.Selector
