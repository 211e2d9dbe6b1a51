/-
Doubles as exact integers.

A finite double is `± mantissa · 2 ^ exponent` for two integers, and both directions of the
correspondence are exact: `decode` reads the two integers off the bits, and `nearest` takes any
ratio of natural numbers to the double closest to it, a tie going to the even mantissa. All
other numeric work of the library (reading and printing decimals, comparing with unbounded
integers, cutting off a fraction) goes through these two, so none of it depends on a rounding
that happens out of sight.
-/

set_option autoImplicit false

namespace Retrace.Decimal

/-! ## From bits to integers -/

/-- What the bits of a double say. -/
inductive Decoded where
  | nan
  | infinite (negative : Bool)
  | finite (negative : Bool) (mantissa : Nat) (exponent : Int)
  deriving Repr, DecidableEq

/-- Reads sign, exponent and mantissa off the 64 bits. A biased exponent of zero marks the numbers
without a leading one. -/
def decodeBits (bits : Nat) : Decoded :=
  let negative := bits / Nat.pow 2 63 % 2 == 1
  let biased : Nat := bits / Nat.pow 2 52 % Nat.pow 2 11
  let fraction : Nat := bits % Nat.pow 2 52
  if biased = 2047 then if fraction = 0 then .infinite negative else .nan
  else if biased = 0 then .finite negative fraction (-1074)
  else .finite negative (Nat.pow 2 52 + fraction) ((biased : Int) - 1075)

def decode (x : Float) : Decoded := decodeBits x.toBits.toNat

/-! ## From a ratio to bits -/

/-- The natural number nearest to `num / den`; of two equally near ones, the even one. -/
def roundHalfEven (num den : Nat) : Nat :=
  let q := num / den
  let twice := 2 * (num % den)
  if twice < den then q
  else if den < twice then q + 1
  else q + q % 2

def infinityBits : Nat := 2047 * Nat.pow 2 52

/-- `num / den` in units of `2 ^ e`, as a ratio again. -/
def inUnits (num den : Nat) (e : Int) : Nat × Nat :=
  if 0 ≤ e then (num, den * Nat.pow 2 e.toNat) else (num * Nat.pow 2 (-e).toNat, den)

/-- The exponent of the unit in the last place of the double nearest to `num / den`: the one that
leaves a quotient of 53 bits, though never below -1074. -/
def unitExponent (num den : Nat) : Int :=
  let e := max ((num.log2 : Int) - den.log2 - 52) (-1074)
  let (n, d) := inUnits num den e
  if n / d < Nat.pow 2 52 then max (e - 1) (-1074) else e

/-- The bits of the double nearest to `num / den`. The quotient in units of the last place is
rounded once; a carry out of its 53 bits runs into the exponent field, where it belongs. -/
def nearestBits (num den : Nat) : Nat :=
  let e := unitExponent num den
  let (n, d) := inUnits num den e
  if num = 0 then 0 else min ((e + 1074).toNat * Nat.pow 2 52 + roundHalfEven n d) infinityBits

/-- The double nearest to `± num / den`; beyond the largest finite double it is infinite. -/
def nearest (negative : Bool) (num den : Nat) : Float :=
  Float.ofBits (UInt64.ofNat ((if negative then Nat.pow 2 63 else 0) + nearestBits num den))

/-- The double nearest to an integer, `none` where it would be infinite. -/
def ofInt? (n : Int) : Option Float :=
  if nearestBits n.natAbs 1 < infinityBits then some (nearest (n < 0) n.natAbs 1) else none

/-- The double nearest to `± digits · 10 ^ exponent`. Exponents far outside of the range of a
double are answered at once: a number of `k` digits lies between `10 ^ (k - 1)` and `10 ^ k`. -/
def ofDecimal (negative : Bool) (digits : Nat) (exponent : Int) : Float :=
  let size : Int := (toString digits).length + exponent
  if digits = 0 || size < -330 then nearest negative 0 1
  else if 400 < size then nearest negative (Nat.pow 2 1100) 1
  else if 0 ≤ exponent then nearest negative (digits * Nat.pow 10 exponent.toNat) 1
  else nearest negative digits (Nat.pow 10 (-exponent).toNat)

/-! ## Comparing and truncating -/

/-- The whole part of `± mantissa · 2 ^ exponent`. -/
def wholePart (negative : Bool) (mantissa : Nat) (exponent : Int) : Int :=
  let size :=
    if 0 ≤ exponent then mantissa * Nat.pow 2 exponent.toNat
    else mantissa / Nat.pow 2 (-exponent).toNat
  if negative then -(size : Int) else size

/-- The integer that a double is left with when its fraction is cut off, `none` if it is not
finite. -/
def truncate? (x : Float) : Option Int :=
  match decode x with
  | .finite negative mantissa exponent => some (wholePart negative mantissa exponent)
  | _ => none

def isInt (x : Float) (n : Int) : Bool :=
  match decode x with
  | .finite negative mantissa exponent =>
    wholePart negative mantissa exponent == n
      && (0 ≤ exponent || mantissa % Nat.pow 2 (-exponent).toNat == 0)
  | _ => false

/-! ## Rounding is nearest -/

/-- The rounded quotient is within half a unit of the exact one. -/
theorem roundHalfEven_near (num : Nat) {den : Nat} (h : 0 < den) :
    2 * num ≤ (2 * roundHalfEven num den + 1) * den ∧
      2 * roundHalfEven num den * den ≤ 2 * num + den := by
  have hd := Nat.div_add_mod num den
  have hm := Nat.mod_lt num h
  have expand : (2 * (num / den) + 1) * den = 2 * (den * (num / den)) + den := by
    rw [Nat.add_mul, Nat.mul_assoc, Nat.mul_comm (num / den) den, Nat.one_mul]
  have expand' : 2 * (num / den) * den = 2 * (den * (num / den)) := by
    rw [Nat.mul_assoc, Nat.mul_comm (num / den) den]
  have up : (2 * (num / den + 1) + 1) * den = 2 * (den * (num / den)) + 3 * den := by
    rw [show 2 * (num / den + 1) + 1 = 2 * (num / den) + 3 by omega, Nat.add_mul, expand']
  have up' : 2 * (num / den + 1) * den = 2 * (den * (num / den)) + 2 * den := by
    rw [show 2 * (num / den + 1) = 2 * (num / den) + 2 by omega, Nat.add_mul, expand']
  unfold roundHalfEven
  dsimp only
  split
  · omega
  · split
    · omega
    · rcases Nat.mod_two_eq_zero_or_one (num / den) with h2 | h2 <;> simp only [h2, Nat.add_zero]
        <;> omega

end Retrace.Decimal
