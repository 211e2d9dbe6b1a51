/-
Doubles and the integers they are equal to.

A double is equal to at most one integer, and where two doubles are equal to the same integer they
are equal to one another: the integer rounds to either of them, or they are the two zeros.
-/
import Retrace.Proofs.Decimal.Read

set_option autoImplicit false

namespace Retrace.Decimal

variable {x y : Float} {n : Int}

/-- The mantissa and the exponent of a double that is equal to an integer make up its size. -/
theorem value_of_isInt (h : isInt x n = true) :
    ∃ negative m q, decode x = .finite negative m q ∧ (n.natAbs : ℚ) = m * 2 ^ q
      ∧ (m ≠ 0 → negative = decide (n < 0)) := by
  unfold isInt at h
  split at h
  · next negative m q hx =>
    obtain ⟨hwhole, hfraction⟩ := Bool.and_eq_true_iff.1 h
    rw [beq_iff_eq] at hwhole
    refine ⟨negative, m, q, hx, ?_⟩
    unfold wholePart at hwhole
    rw [Nat.pow_eq] at hfraction
    simp only [Nat.pow_eq] at hwhole
    by_cases hq : 0 ≤ q
    · obtain ⟨k, rfl⟩ := Int.eq_ofNat_of_zero_le hq
      have hpos : 0 < 2 ^ k := Nat.two_pow_pos k
      rw [if_pos hq, Int.toNat_natCast] at hwhole
      have habs : n.natAbs = m * 2 ^ k := by
        rw [← hwhole]
        split <;> simp only [Int.natAbs_neg, Int.natAbs_natCast]
      refine ⟨by rw [habs]; push_cast; rfl, fun hm => ?_⟩
      have hsize : 0 < m * 2 ^ k := Nat.mul_pos (Nat.pos_of_ne_zero hm) hpos
      cases negative <;> simp only [if_true, Bool.false_eq_true, if_false] at hwhole <;>
        simp <;> omega
    · -- without a fraction the mantissa is a multiple of the power that it is divided by
      obtain ⟨k, hk⟩ := Int.eq_ofNat_of_zero_le (show 0 ≤ -q by omega)
      obtain rfl : q = -(k : Int) := by omega
      have hpos : 0 < 2 ^ k := Nat.two_pow_pos k
      rw [if_neg hq, neg_neg, Int.toNat_natCast] at hwhole
      rw [decide_eq_false hq, Bool.false_or, neg_neg, Int.toNat_natCast, beq_iff_eq] at hfraction
      obtain ⟨c, rfl⟩ := Nat.dvd_of_mod_eq_zero hfraction
      rw [Nat.mul_div_cancel_left c hpos] at hwhole
      have habs : n.natAbs = c := by
        rw [← hwhole]
        split <;> simp only [Int.natAbs_neg, Int.natAbs_natCast]
      refine ⟨?_, fun hm => ?_⟩
      · rw [habs, zpow_neg, zpow_natCast]
        push_cast
        field_simp
      · have hc : 0 < c := Nat.pos_of_ne_zero fun hzero => hm (by rw [hzero, Nat.mul_zero])
        cases negative <;> simp only [if_true, Bool.false_eq_true, if_false] at hwhole <;>
          simp <;> omega
  · cases h

/-- A double is equal to one integer only. -/
theorem eq_of_isInt {k : Int} (h : isInt x n = true) (hk : isInt x k = true) : n = k := by
  unfold isInt at h hk
  split at h
  · next negative m q hx =>
    rw [hx] at hk
    exact (beq_iff_eq.1 (Bool.and_eq_true_iff.1 h).1).symm.trans
      (beq_iff_eq.1 (Bool.and_eq_true_iff.1 hk).1)
  · cases h

/-- An integer that is not zero is rounded to the double that is equal to it. -/
theorem nearest_of_isInt (h : isInt x n = true) (hn : n ≠ 0) :
    nearest (decide (n < 0)) n.natAbs 1 = x := by
  obtain ⟨negative, m, q, hx, hvalue, hsign⟩ := value_of_isInt h
  have hunit : (0 : ℚ) < 2 ^ q := by positivity
  have hm : 0 < m := by
    refine Nat.pos_of_ne_zero fun hzero => hn ?_
    rw [hzero, Nat.cast_zero, zero_mul, Nat.cast_eq_zero] at hvalue
    exact Int.natAbs_eq_zero.1 hvalue
  have hhalf : 0 < lowerHalf m q := by
    unfold lowerHalf
    split <;> norm_num
  have hrounds : RoundsTo m q ((n.natAbs : ℚ) / (1 : Nat)) := by
    rw [Nat.cast_one, div_one, hvalue]
    have hlow : ((m : ℚ) - lowerHalf m q) * 2 ^ q < m * 2 ^ q :=
      mul_lt_mul_of_pos_right (by linarith) hunit
    have hhigh : (m : ℚ) * 2 ^ q < ((m : ℚ) + 1 / 2) * 2 ^ q :=
      mul_lt_mul_of_pos_right (by linarith) hunit
    exact ⟨hlow.le, hhigh.le, .inr ⟨hlow, hhigh⟩⟩
  rw [← hsign hm.ne']
  exact nearest_eq hx (nearestBits_eq (shaped_of_decodeBits hx) hm one_pos hrounds)

/-- No double but the two zeros is equal to zero. -/
theorem zero_of_isInt (h : isInt x 0 = true) : x = 0.0 ∨ x = -0.0 := by
  obtain ⟨negative, m, q, hx, hvalue, -⟩ := value_of_isInt h
  have hunit : (2 : ℚ) ^ q ≠ 0 := by positivity
  obtain rfl : m = 0 := by
    have hprod : (m : ℚ) * 2 ^ q = 0 := by simpa using hvalue.symm
    exact_mod_cast (mul_eq_zero.1 hprod).resolve_right hunit
  cases negative with
  | true => exact .inr (ofDecimal_zero hx 0).symm
  | false => exact .inl (ofDecimal_zero hx 0).symm

/-- Doubles that are equal to the same integer are equal. -/
theorem beq_of_isInt (hx : isInt x n = true) (hy : isInt y n = true) : (x == y) = true := by
  by_cases hn : n = 0
  · rw [hn] at hx hy
    rcases zero_of_isInt hx with rfl | rfl <;> rcases zero_of_isInt hy with rfl | rfl <;> rfl
  · rw [← (nearest_of_isInt hx hn).symm.trans (nearest_of_isInt hy hn), Float.beq_self_iff]
    rintro rfl
    cases hx

theorem isInt_zero (n : Int) : isInt 0.0 n = (0 == n) ∧ isInt (-0.0) n = (0 == n) := by
  have hpos : decode 0.0 = .finite false 0 (-1074) := rfl
  have hneg : decode (-0.0) = .finite true 0 (-1074) := rfl
  rw [isInt, isInt, hpos, hneg]
  simp only [wholePart, Nat.zero_div, Nat.zero_mod, beq_self_eq_true, Bool.or_true, Bool.and_true]
  exact ⟨rfl, rfl⟩

/-- Doubles that are equal are equal to the same integers. -/
theorem isInt_eq_of_beq (h : (x == y) = true) (n : Int) : isInt x n = isInt y n := by
  obtain ⟨-, -, rfl | ⟨rfl, rfl⟩ | ⟨rfl, rfl⟩⟩ := Float.beq_iff_ne_nan_and_eq.1 h
  · rfl
  · exact (isInt_zero n).1.trans (isInt_zero n).2.symm
  · exact (isInt_zero n).2.trans (isInt_zero n).1.symm

theorem beq_trans {z : Float} (h : (x == y) = true) (h' : (y == z) = true) : (x == z) = true := by
  obtain ⟨-, -, rfl | ⟨rfl, rfl⟩ | ⟨rfl, rfl⟩⟩ := Float.beq_iff_ne_nan_and_eq.1 h
  · exact h'
  · obtain ⟨-, -, rfl | ⟨-, rfl⟩ | ⟨-, rfl⟩⟩ := Float.beq_iff_ne_nan_and_eq.1 h' <;> rfl
  · obtain ⟨-, -, rfl | ⟨-, rfl⟩ | ⟨-, rfl⟩⟩ := Float.beq_iff_ne_nan_and_eq.1 h' <;> rfl

end Retrace.Decimal
