/-
Numbers read from text.

A whole number is a sign and digits; a decimal number may also have a point, an exponent, or be
one of the words for infinity and not-a-number. Blanks around the number are skipped (not the
four separators U+001C to U+001F, which are no margin of a number), digits of every script
count, and a single underscore may stand between two digits. A plain whole number has the digits
of ASCII only, but zeros may follow behind a point.
-/
import Retrace.Text.Blank
import Retrace.Text.Digit
import Retrace.Decimal.Binary

set_option autoImplicit false

namespace Retrace.Decimal

open Retrace.Text

/-! ## Digits -/

/-- The longest whole number that is read has this many digits. -/
def maxDigits : Nat := 4300

/-- May the character stand around a number? -/
def isMargin (c : Char) : Bool := isBlank c && !(0x1c ≤ c.toNat && c.toNat ≤ 0x1f)

/-- The value of digits written most significant first. -/
def numeralValue (digits : List Nat) : Nat := digits.foldl (fun n d => 10 * n + d) 0

/-- Reads digits with single underscores between them, as many as there are. `afterDigit` says
whether the last character read was a digit, so that an underscore may follow. -/
def digitRun (afterDigit : Bool) : List Char → List Nat × List Char
  | [] => ([], [])
  | c :: rest =>
    match digitValue? c with
    | some d =>
      let (ds, left) := digitRun true rest
      (d :: ds, left)
    | none =>
      if c = '_' && afterDigit then
        match rest with
        | [] => ([], c :: rest)
        | next :: more =>
          match digitValue? next with
          | some d =>
            let (ds, left) := digitRun true more
            (d :: ds, left)
          | none => ([], c :: rest)
      else ([], c :: rest)

/-- Splits off a sign: is it a minus, and what follows. -/
def splitSign : List Char → Bool × List Char
  | '-' :: rest => (true, rest)
  | '+' :: rest => (false, rest)
  | rest => (false, rest)

/-! ## Whole numbers -/

/-- The whole number of the given sign whose digits the text holds, `none` unless the whole text
is used up. More than `maxDigits` digits are refused. -/
def wholeNumber? (negative : Bool) (cs : List Char) : Option Int :=
  let (digits, left) := digitRun false cs
  if digits.isEmpty || !left.isEmpty || maxDigits < digits.length then none
  else
    let n : Int := numeralValue digits
    some (if negative then -n else n)

/-- The whole number that the text spells, blanks around it left aside. -/
def readInt? (s : String) : Option Int :=
  let (negative, body) := splitSign (trim isMargin s.toList)
  wholeNumber? negative body

/-! ## Plain digits -/

/-- The digits 0 to 9 at the front of a text, and what follows them. -/
def plainDigits (cs : List Char) : List Char × List Char :=
  (cs.takeWhile Char.isDigit, cs.dropWhile Char.isDigit)

def plainValue (digits : List Char) : Nat := numeralValue (digits.map fun c => c.toNat - 0x30)

/-! ## Plain whole numbers -/

/-- Leaves out the zeros at the front and the underscores among them. Where there is nothing
else, the last character stays. -/
def dropLeadingZeros (cs : List Char) : List Char :=
  match cs with
  | '0' :: _ =>
    match cs.dropWhile fun c => c = '0' || c = '_' with
    | [] => cs.getLast?.toList
    | rest => rest
  | _ => cs

/-- Nothing, or a point and zeros behind it. -/
def isZeroFraction : List Char → Bool
  | [] => true
  | '.' :: zeros => !zeros.isEmpty && zeros.all (· = '0')
  | _ => false

/-- The whole number that the text spells plainly: with the digits of ASCII only, but maybe with
a point and zeros at the end. -/
def readPlainInt? (s : String) : Option Int :=
  let (negative, body) := splitSign (trim isMargin s.toList)
  let (whole, fraction) := body.span (· != '.')
  if whole.all (·.toNat < 0x80) && isZeroFraction fraction then
    wholeNumber? negative (dropLeadingZeros whole)
  else none

/-! ## Decimal numbers -/

/-- The words for numbers that are not finite, in lower case. -/
def infinityWords : List String := ["inf", "infinity"]

/-- The word for not-a-number, in lower case. -/
def nanWord : String := "nan"

/-- Not a number, with a clear sign. -/
def nan : Float := Float.ofBits 0x7ff8000000000000

/-- Infinity of the given sign. -/
def infinity (negative : Bool) : Float := nearest negative (Nat.pow 2 1100) 1

/-- Reads an exponent mark and the exponent behind it. A mark without digits is left unread. -/
def exponentPart (cs : List Char) : Int × List Char :=
  match cs with
  | c :: rest =>
    if c = 'e' || c = 'E' then
      let (negative, body) := splitSign rest
      match digitRun false body with
      | ([], _) => (0, cs)
      | (digits, left) =>
        let n : Int := numeralValue digits
        (if negative then -n else n, left)
    else (0, cs)
  | [] => (0, [])

/-- Reads a decimal number without its sign, `none` unless the whole text is used up. There must
be a digit before or after the point. -/
def unsignedDecimal? (negative : Bool) (cs : List Char) : Option Float :=
  let (whole, left) := digitRun false cs
  let (fraction, left) := match left with
    | '.' :: rest => digitRun false rest
    | _ => ([], left)
  if whole.isEmpty && fraction.isEmpty then none
  else
    let (exponent, left) := exponentPart left
    if left.isEmpty then
      some (ofDecimal negative (numeralValue (whole ++ fraction)) (exponent - fraction.length))
    else none

/-- The double nearest to the number that the text spells, blanks around it left aside. -/
def readFloat? (s : String) : Option Float :=
  let (negative, body) := splitSign (trim isMargin s.toList)
  let word := String.ofList (body.map Char.toLower)
  if infinityWords.contains word then some (infinity negative)
  else if word = nanWord then some nan
  else unsignedDecimal? negative body

end Retrace.Decimal
