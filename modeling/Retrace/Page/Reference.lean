/-
Character references.

A reference stands for a character by name or by number. Of the names there are the five that a
browser writes when it turns a page into markup; all others stand for themselves. Numbers from 128
to 159 are taken as codes of the Western European code page, which old pages write there, wherever
the code page has a character. A number without a character becomes the replacement character.
Inside of an attribute the numbers of controls and noncharacters are dropped; in running text they
stand for themselves.

Decimal numbers that are longer than any that are read make a parser give up.
-/
import Retrace.Json.Reader

set_option autoImplicit false

namespace Retrace.Markup

def namedCharacters : List (String × Char) :=
  [("amp", '&'), ("lt", '<'), ("gt", '>'), ("quot", '"'), ("nbsp", '\xa0')]

/-- The characters of the code page from 128 to 159. The five codes without one stand for
themselves. -/
def codePage : List Nat :=
  [0x20ac, 0x81, 0x201a, 0x192, 0x201e, 0x2026, 0x2020, 0x2021, 0x2c6, 0x2030, 0x160, 0x2039,
    0x152, 0x8d, 0x17d, 0x8f, 0x90, 0x2018, 0x2019, 0x201c, 0x201d, 0x2022, 0x2013, 0x2014,
    0x2dc, 0x2122, 0x161, 0x203a, 0x153, 0x9d, 0x17e, 0x178]

/-- The code point that a number from 128 to 159 is taken for; any other number is kept. -/
def fromCodePage (n : Nat) : Nat :=
  if 0x80 ≤ n then codePage.getD (n - 0x80) n else n

/-- The character of a code point, the replacement character if it has none. Zero is no
character. -/
def charOf (n : Nat) : Char := if n ≠ 0 && n.isValidChar then Char.ofNat n else '\ufffd'

def textCharacter (n : Nat) : List Char := [charOf (fromCodePage n)]

/-- Numbers of controls and of code points that never are characters. -/
def isNoCharacter (n : Nat) : Bool :=
  (1 ≤ n && n ≤ 8) || n = 0x0b || (0x0e ≤ n && n ≤ 0x1f) || n = 0x7f
    || (0xfdd0 ≤ n && n ≤ 0xfdef) || (n % 0x10000 ≥ 0xfffe && n ≤ 0x10ffff)

def attributeCharacter (n : Nat) : List Char :=
  if isNoCharacter n then [] else [charOf (fromCodePage n)]

/-- Splits a reference by number, from behind its `&#`, into the number and what follows the
digits. -/
def numberReference? (cs : List Char) : Option (Nat × List Char) :=
  let isHex (c : Char) : Bool := (Json.hexValue? c).isSome
  match cs with
  | 'x' :: rest | 'X' :: rest =>
    if (rest.takeWhile isHex).isEmpty then none
    else (Json.hexNumber? (rest.takeWhile isHex)).map fun n => (n, rest.dropWhile isHex)
  | _ =>
    if (cs.takeWhile Char.isDigit).isEmpty then none
    else some (Decimal.plainValue (cs.takeWhile Char.isDigit), cs.dropWhile Char.isDigit)

/-- The number of digits of a reference from behind its `&`, if it is one by a decimal number that
is too long to be read. -/
def overlongNumber? (cs : List Char) : Option Nat :=
  match cs with
  | '#' :: rest =>
    let digits := (rest.takeWhile Char.isDigit).length
    if Decimal.maxDigits < digits then some digits else none
  | _ => none

/-- The text without the semicolon that ends a reference. -/
def skipSemicolon : List Char → List Char
  | ';' :: rest => rest
  | rest => rest

/-- A reference in an attribute, from behind its `&`: the characters that it stands for, and what
follows it. -/
def attributeReference? (cs : List Char) : Option (List Char × List Char) :=
  match cs with
  | '#' :: rest =>
    (numberReference? rest).map fun (n, left) => (attributeCharacter n, skipSemicolon left)
  | _ => namedCharacters.findSome? fun (name, c) =>
      (name.toList.isPrefixOf? cs).map fun left => ([c], skipSemicolon left)

/-- The characters of an attribute's text, at most `fuel` steps of it. -/
def resolveAll : Nat → List Char → List Char
  | 0, cs => cs
  | _, [] => []
  | fuel + 1, c :: rest =>
    if c = '&' then
      match attributeReference? rest with
      | some (cs, left) => cs ++ resolveAll fuel left
      | none => c :: resolveAll fuel rest
    else c :: resolveAll fuel rest

/-- The text of an attribute with its references replaced. -/
def resolve (cs : List Char) : List Char := resolveAll cs.length cs

/-- The characters that may stand in the name of a reference in running text. -/
def isNameChar (c : Char) : Bool := c.isAlphanum || c = '-' || c = '.'

/-- A reference in running text, from behind its `&`. A name that is not known stands for itself,
and loses the semicolon. Nothing is read at the very end of a text. -/
def textReference? (cs : List Char) : Option (List Char × List Char) :=
  match cs with
  | '#' :: rest =>
    match numberReference? rest with
    | some (n, next :: left) =>
      -- decimal digits that run on into hexadecimal ones are no number
      if (Json.hexValue? next).isSome then none
      else some (textCharacter n, skipSemicolon (next :: left))
    | _ => none
  | c :: _ =>
    let name := cs.takeWhile isNameChar
    let left := cs.dropWhile isNameChar
    if !c.isAlpha || left.isEmpty then none
    else match namedCharacters.lookup (String.ofList name) with
      | some found => some ([found], skipSemicolon left)
      | none => some ('&' :: name, skipSemicolon left)
  | [] => none

end Retrace.Markup
