/-
Amounts in form controls.

An amount is a number, or a date or a time of day in a fixed written form. Its kind is the type of
the control that holds it. Amounts of one kind are ordered, so a control can have bounds; the
times of day go round, so their upper bound may lie before the lower one.
-/
import Retrace.Decimal.Numeral

set_option autoImplicit false

namespace Retrace

/-- What a control holds. -/
inductive Amount where
  | number (x : Float)
  /-- A date or a time of day, the longest unit first. -/
  | date (units : List Nat)

namespace Amount

/-! ## The calendar -/

/-- Has the year a 29th of February? -/
def isLeap (year : Nat) : Bool := year % 4 == 0 && (year % 100 != 0 || year % 400 == 0)

/-- The number of days in a month. -/
def daysIn (year month : Nat) : Nat :=
  if month = 2 then if isLeap year then 29 else 28
  else if [4, 6, 9, 11].contains month then 30 else 31

/-- The weekday of the last day of a year, counted from Sunday. -/
def lastWeekday (year : Nat) : Nat := (year + year / 4 - year / 100 + year / 400) % 7

/-- The number of the last week of a year: that of the year's last day, or 53 where this day falls
into the first week of the next year. -/
def weeksIn (year : Nat) : Nat :=
  match lastWeekday year with
  | 0 | 6 => 52
  | 5 => if isLeap year then 53 else 52
  | _ => 53

/-- Is there such a month? -/
def isMonth (year month : Nat) : Bool := 1 ≤ year && 1 ≤ month && month ≤ 12

/-- Is there such a day? -/
def isDay (year month day : Nat) : Bool :=
  isMonth year month && 1 ≤ day && day ≤ daysIn year month

/-- Is there such a time of day? -/
def isTime (hour minute : Nat) : Bool := hour ≤ 23 && minute ≤ 59

/-! ## Written forms -/

/-- A part of a written date or time. -/
inductive Part where
  /-- Four digits or more. -/
  | year
  /-- Two digits. -/
  | pair
  | mark (c : Char)
  deriving Repr, DecidableEq

/-- The numbers in a text that is made of the given parts. -/
def readParts? : List Part → List Char → Option (List Nat)
  | [], cs => if cs.isEmpty then some [] else none
  | .mark _ :: _, [] => none
  | .mark m :: parts, c :: cs => if c = m then readParts? parts cs else none
  | .year :: parts, cs =>
    let (digits, rest) := Decimal.plainDigits cs
    if 4 ≤ digits.length then (readParts? parts rest).map (Decimal.plainValue digits :: ·)
    else none
  | .pair :: parts, cs =>
    let (digits, rest) := Decimal.plainDigits cs
    if digits.length = 2 then (readParts? parts rest).map (Decimal.plainValue digits :: ·)
    else none

/-- A written form and the numbers that may stand in it. -/
structure Form where
  parts : List Part
  valid : List Nat → Bool

def dayParts : List Part := [.year, .mark '-', .pair, .mark '-', .pair]

def timeParts : List Part := [.pair, .mark ':', .pair]

/-- The form for a type of control. -/
def Form.ofType? (type : String) : Option Form :=
  match type with
  | "date" => some ⟨dayParts, fun
    | [year, month, day] => isDay year month day
    | _ => false⟩
  | "month" => some ⟨[.year, .mark '-', .pair], fun
    | [year, month] => isMonth year month
    | _ => false⟩
  | "week" => some ⟨[.year, .mark '-', .mark 'W', .pair], fun
    | [year, week] => 1 ≤ year && 1 ≤ week && week ≤ weeksIn year
    | _ => false⟩
  | "time" => some ⟨timeParts, fun
    | [hour, minute] => isTime hour minute
    | _ => false⟩
  | "datetime-local" => some ⟨dayParts ++ .mark 'T' :: timeParts, fun
    | [year, month, day, hour, minute] => isDay year month day && isTime hour minute
    | _ => false⟩
  | _ => none

/-- The digits behind a point, `none` if something else stands there. -/
def fractionOf? : List Char → Option (List Char)
  | [] => some []
  | '.' :: digits => if !digits.isEmpty && digits.all Char.isDigit then some digits else none
  | _ => none

def readNumber? (cs : List Char) : Option Float :=
  let (negative, body) := match cs with
    | '-' :: rest => (true, rest)
    | _ => (false, cs)
  let (whole, rest) := Decimal.plainDigits body
  (fractionOf? rest).bind fun fraction =>
    if whole.isEmpty && fraction.isEmpty then none
    else some <| Decimal.ofDecimal negative (Decimal.plainValue (whole ++ fraction))
      (-(fraction.length : Int))

/-- The amount that a text spells in a control of the given type. -/
def read? (type text : String) : Option Amount :=
  let cs := Text.dropFinalBreak text.toList
  if type = "number" || type = "range" then (readNumber? cs).map .number
  else (Form.ofType? type).bind fun form =>
    ((readParts? form.parts cs).filter form.valid).map .date

/-! ## Order -/

/-- Is the first amount less? Amounts of different sorts are not compared. -/
def less : Amount → Amount → Bool
  | .number x, .number y => x < y
  | .date a, .date b => a < b
  | _, _ => false

/-- Does the amount keep within the bounds that there are? If amounts go round, an upper bound
below the lower one leaves out what lies between the two. -/
def keepsWithin (goesRound : Bool) (low high : Option Amount) (amount : Amount) : Bool :=
  let tooLow := low.any amount.less
  let tooHigh := high.any fun bound => bound.less amount
  if goesRound && high.any fun h => low.any h.less then !(tooLow && tooHigh)
  else !(tooLow || tooHigh)

end Amount

end Retrace
