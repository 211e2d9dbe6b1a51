/-
The order of doubles, and their two zeros.

Doubles that are numbers are in a linear order by their sign, exponent and mantissa (`rank`), and
not-a-number is in no order with anything. So "not less" goes on from one double to the next over a
number, and over nothing else (`not_lt_trans`).

The order of doubles does not see the sign of a zero, and this is all that is lost where a number
that counts as nothing is left out of a record (`unsigned`).
-/
import Mathlib
import Retrace.Decimal.Numeral

set_option autoImplicit false

namespace Retrace.Decimal

open Float.Model

/-! ## Order -/

theorem lt_iff (x y : Float) :
    x < y ↔ x.toModel.unpack.compare y.toModel.unpack = some .lt := by
  show decide ((x.toModel.unpack.compare y.toModel.unpack == some .lt) = true) = true ↔ _
  rw [decide_eq_true_iff]
  exact beq_iff_eq

/-- No double is less than itself. -/
theorem not_lt_self (x : Float) : ¬ x < x := by
  rw [lt_iff]
  cases x.toModel.unpack with
  | infinity s => cases s <;> decide
  | notANumber => simp [UnpackedFloat.compare]
  | zero s => simp [UnpackedFloat.compare]
  | finite s m e hm => cases s <;> simp [UnpackedFloat.compare]

/-- The place of a double among the others: its sign and whether it is infinite, its exponent and
its mantissa, these two turned round below zero. -/
def rank : UnpackedFloat → Int ×ₗ Int ×ₗ Int
  | .infinity .negative => toLex (-2, toLex (0, 0))
  | .finite .negative m e _ => toLex (-1, toLex (-e, -m))
  | .notANumber | .zero _ => toLex (0, toLex (0, 0))
  | .finite .positive m e _ => toLex (1, toLex (e, m))
  | .infinity .positive => toLex (2, toLex (0, 0))

/-- Numbers are compared by their places. -/
theorem compare_eq_lt_iff (x y : UnpackedFloat) :
    x.compare y = some .lt ↔ x ≠ .notANumber ∧ y ≠ .notANumber ∧ rank x < rank y := by
  have hsigns : compare UnpackedFloat.Sign.negative .positive = .lt := rfl
  rcases x with ⟨_ | _⟩ | _ | _ | ⟨_ | _, m, e, hm⟩ <;>
    rcases y with ⟨_ | _⟩ | _ | _ | ⟨_ | _, m', e', hm'⟩ <;>
    simp [UnpackedFloat.compare, rank, Prod.Lex.toLex_lt_toLex, hsigns, Ordering.then_eq_lt,
      Ordering.then_eq_gt, compare_lt_iff_lt, compare_gt_iff_gt]

theorem isNaN_iff (x : Float) : x.isNaN = true ↔ x.toModel.unpack = .notANumber :=
  UnpackedFloat.isNaN_iff

/-- Nothing is less than what is no number. -/
theorem not_lt_of_isNaN {x y : Float} (hy : y.isNaN = true) : ¬ x < y := by
  rw [lt_iff, compare_eq_lt_iff, (isNaN_iff y).1 hy]
  simp

/-- **Over a number**, what is not less than it is not less than what it is not less than. -/
theorem not_lt_trans {x y z : Float} (hy : y.isNaN = false) (hyx : ¬ y < x) (hzy : ¬ z < y) :
    ¬ z < x := by
  have hnumber : y.toModel.unpack ≠ .notANumber := by
    intro h
    rw [(isNaN_iff y).2 h] at hy
    exact Bool.false_ne_true hy.symm
  simp only [lt_iff, compare_eq_lt_iff, not_and, not_lt] at *
  intro hz hx
  exact (hyx hnumber hx).trans (hzy hz hnumber)

/-! ## Zero -/

/-- The double, a negative zero taken as zero. -/
def unsigned (x : Float) : Float := if x == 0 then 0.0 else x

/-- There are two zeros. -/
theorem beq_zero_iff (x : Float) : (x == 0) = true ↔ x = 0.0 ∨ x = -0.0 := by
  constructor
  · intro h
    obtain ⟨-, -, rfl | ⟨rfl, -⟩ | ⟨rfl, -⟩⟩ := Float.beq_iff_ne_nan_and_eq.1 h
    · exact .inl rfl
    · exact .inl rfl
    · exact .inr rfl
  · rintro (rfl | rfl)
    · rfl
    · rfl

theorem unsigned_eq_self {x : Float} (h : x ≠ -0.0) : unsigned x = x := by
  unfold unsigned
  split
  · next hzero => exact (((beq_zero_iff x).1 hzero).resolve_right h).symm
  · rfl

/-- What is compared with a zero does not see its sign. -/
theorem lt_negZero (y : Float) : (-0.0 < y ↔ 0.0 < y) ∧ (y < -0.0 ↔ y < 0.0) := by
  have hneg : (-0.0 : Float).toModel.unpack = .zero .negative := rfl
  have hpos : (0.0 : Float).toModel.unpack = .zero .positive := rfl
  rw [lt_iff, lt_iff, lt_iff, lt_iff, hneg, hpos]
  cases y.toModel.unpack with
  | infinity s => cases s <;> exact ⟨.rfl, .rfl⟩
  | notANumber => exact ⟨.rfl, .rfl⟩
  | zero s => exact ⟨.rfl, .rfl⟩
  | finite s m e hm => cases s <;> exact ⟨.rfl, .rfl⟩

/-- The order does not see the sign of a zero. -/
theorem unsigned_lt_unsigned (x y : Float) : unsigned x < unsigned y ↔ x < y := by
  have hleft : ∀ x y : Float, unsigned x < y ↔ x < y := by
    intro x y
    by_cases h : x = -0.0
    · rw [h]
      exact (lt_negZero y).1.symm
    · rw [unsigned_eq_self h]
  have hright : ∀ x y : Float, x < unsigned y ↔ x < y := by
    intro x y
    by_cases h : y = -0.0
    · rw [h]
      exact (lt_negZero x).2.symm
    · rw [unsigned_eq_self h]
  rw [hleft, hright]

end Retrace.Decimal
