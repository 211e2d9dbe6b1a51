/-
The shortest decimal that reads back as a given double.

The reals that round to the double `m · 2 ^ q` form an interval around it, its ends included
exactly when `m` is even. For one digit, two digits and so on, the decimals with that many
digits form a grid, and if a grid has a point in the interval then one of the two grid points
next to the double itself lies there. So the first grid with a hit gives the fewest digits, and
of two hits on it the nearer one is taken. Everything is decided in natural numbers.

Which digits a double has is mathematics; how they are laid out is convention, and the one
record `layout` holds all of it.
-/
import Retrace.Decimal.Binary

set_option autoImplicit false

namespace Retrace.Decimal

/-! ## The digits -/

/-- A positive real number as a ratio of natural numbers, for comparisons only. -/
structure Ratio where
  num : Nat
  den : Nat

/-- `n · 2 ^ e` as a ratio. -/
def Ratio.binary (n : Nat) (e : Int) : Ratio :=
  if 0 ≤ e then ⟨n * Nat.pow 2 e.toNat, 1⟩ else ⟨n, Nat.pow 2 (-e).toNat⟩

/-- `n · 10 ^ e` as a ratio. -/
def Ratio.decimal (n : Nat) (e : Int) : Ratio :=
  if 0 ≤ e then ⟨n * Nat.pow 10 e.toNat, 1⟩ else ⟨n, Nat.pow 10 (-e).toNat⟩

/-- Is the first ratio below the second? -/
def Ratio.lt (a b : Ratio) : Bool := a.num * b.den < b.num * a.den

/-- The reals that round to `m · 2 ^ q`, by their two ends. Below a power of two the neighbour is
only half as far away as above it. -/
structure Rounding where
  low : Ratio
  high : Ratio
  closed : Bool

/-- The interval of the double `m · 2 ^ q`. -/
def Rounding.ofDouble (m : Nat) (q : Int) : Rounding :=
  let below := if m = Nat.pow 2 52 && q != -1074 then 1 else 2
  { low := .binary (4 * m - below) (q - 2)
    high := .binary (4 * m + 2) (q - 2)
    closed := m % 2 == 0 }

/-- Does the number read back as the double of the interval? -/
def Rounding.contains (i : Rounding) (x : Ratio) : Bool :=
  if i.closed then !x.lt i.low && !i.high.lt x else i.low.lt x && x.lt i.high

/-- The number of digits before the decimal point of `m · 2 ^ q`; for a number below one, minus the
number of zeros after the point. `2 ^ b ≤ m · 2 ^ q < 2 ^ (b + 1)` gives it up to one. -/
def pointPosition (m : Nat) (q : Int) : Int :=
  let b : Int := m.log2 + q
  let guess := Int.fdiv (b * 30103) 100000
  if (Ratio.binary m q).lt (.decimal 1 (guess + 1)) then guess + 1 else guess + 2

/-- The nearer of two neighbouring grid points `d` and `d + 1` in units of `10 ^ e`, a tie going to
the even one. -/
def nearerPoint (x : Ratio) (d : Nat) (e : Int) : Nat :=
  let middle := Ratio.decimal (10 * d + 5) (e - 1)
  if x.lt middle then d else if middle.lt x then d + 1 else d + d % 2

/-- The point of the grid `10 ^ e` that stands for `m · 2 ^ q`, if one does. -/
def gridPoint? (m : Nat) (q e : Int) : Option Nat :=
  let x := Ratio.binary m q
  let i := Rounding.ofDouble m q
  let unit := Ratio.decimal 1 e
  let d := x.num * unit.den / (x.den * unit.num)
  match i.contains (.decimal d e), i.contains (.decimal (d + 1) e) with
  | true, true => some (nearerPoint x d e)
  | true, false => some d
  | false, true => some (d + 1)
  | false, false => none

/-- The first hit among the grids with `n` digits, `n + 1` digits and so on, `steps` grids in all,
as a number of units and the exponent of the unit. The last grid is used without a test. -/
def firstGridPoint (m : Nat) (q point : Int) (n : Nat) : Nat → Nat × Int
  | 0 =>
    let x := Ratio.binary m q
    let unit := Ratio.decimal 1 (point - n)
    (nearerPoint x (x.num * unit.den / (x.den * unit.num)) (point - n), point - n)
  | steps + 1 =>
    match gridPoint? m q (point - n) with
    | some d => (d, point - n)
    | none => firstGridPoint m q point (n + 1) steps

/-- The digits of the shortest decimal that reads back as `m · 2 ^ q`, and the place of its point:
the value is `0.d₁d₂… · 10 ^ point`. The digits do not end in a zero. -/
def shortestDigits (m : Nat) (q : Int) : List Char × Int :=
  let (d, e) := firstGridPoint m q (pointPosition m q) 1 16
  let digits := (toString d).toList
  let point := digits.length + e
  ((digits.reverse.dropWhile (· = '0')).reverse, point)

/-! ## The layout -/

/-- How the digits of a double are laid out. -/
structure Layout where
  /-- The least exponent of the leading digit that is still written with a point only. -/
  leastPositional : Int
  /-- The greatest one. -/
  greatestPositional : Int
  /-- The least number of digits of a written exponent. -/
  exponentWidth : Nat
  nan : String
  infinity : String

/-- Plain notation from `0.0001` up to sixteen digits before the point, always with a digit after
it; beyond, an exponent of two digits or more that always carries its sign. -/
def layout : Layout :=
  { leastPositional := -4, greatestPositional := 15, exponentWidth := 2
    nan := "nan", infinity := "inf" }

/-- The digits around a point at the given place, with at least one digit on either side. -/
def positional (digits : List Char) (point : Int) : List Char :=
  if point ≤ 0 then '0' :: '.' :: (List.replicate (-point).toNat '0' ++ digits)
  else
    let p := point.toNat
    let whole := digits.take p
    let fraction := digits.drop p
    whole ++ List.replicate (p - whole.length) '0' ++ '.'
      :: (if fraction.isEmpty then ['0'] else fraction)

/-- One digit before the point, the others after it, and the power of ten. -/
def exponential (l : Layout) (digits : List Char) (point : Int) : List Char :=
  let exponent := point - 1
  let size := (toString exponent.natAbs).toList
  let padded := List.replicate (l.exponentWidth - size.length) '0' ++ size
  let lead := match digits with
    | d :: e :: more => d :: '.' :: e :: more
    | _ => digits
  lead ++ 'e' :: (if exponent < 0 then '-' else '+') :: padded

def text (x : Float) : String :=
  match decode x with
  | .nan => layout.nan
  | .infinite negative => (if negative then "-" else "") ++ layout.infinity
  | .finite negative mantissa exponent =>
    let body :=
      if mantissa = 0 then ['0', '.', '0']
      else
        let (digits, point) := shortestDigits mantissa exponent
        if layout.leastPositional ≤ point - 1 && point - 1 ≤ layout.greatestPositional then
          positional digits point
        else exponential layout digits point
    String.ofList (if negative then '-' :: body else body)

end Retrace.Decimal
