/-
Which whole numbers are too large for a double.

A whole number is measured in a unit that leaves 53 bits of it. Below the last unit the rounded
quotient is in range, and above it the number is too large. In the last unit it depends on the
rounding: from half a unit below `2 ^ 1024` on, the quotient is rounded up to a power of two, and
the bits are those of infinity (`nearestBits_lt_infinityBits_iff`).
-/
import Retrace.Proofs.Decimal.Nearest

set_option autoImplicit false

namespace Retrace.Decimal

/-- Half way between the greatest finite double and the next power of two. -/
def overflowBound : Nat := (2 ^ 54 - 1) * 1024 ^ 97

/-- A rounded quotient is no further than half a unit off. -/
theorem roundHalfEven_near_div (n : Nat) {d : Nat} (hd : 0 < d) :
    (n : ℚ) / d ≤ roundHalfEven n d + 1 / 2 ∧ (roundHalfEven n d : ℚ) ≤ n / d + 1 / 2 := by
  obtain ⟨hup, hdown⟩ := roundHalfEven_near n hd
  have hpos : (0 : ℚ) < d := by exact_mod_cast hd
  have hup' : (2 : ℚ) * n ≤ (2 * roundHalfEven n d + 1) * d := by exact_mod_cast hup
  have hdown' : (2 : ℚ) * roundHalfEven n d * d ≤ 2 * n + d := by exact_mod_cast hdown
  refine ⟨?_, ?_⟩
  · rw [div_le_iff₀ hpos]
    linarith
  · have hsum : (n : ℚ) / d + 1 / 2 = (2 * n + d) / (2 * d) := by field_simp
    rw [hsum, le_div_iff₀ (by positivity)]
    linarith

theorem overflowBound_value : (overflowBound : ℚ) = (2 ^ 53 - 1 / 2) * 2 ^ (971 : Int) := by
  have hunit : (2 : ℚ) ^ (971 : Int) = 1024 ^ 97 * 2 := by
    rw [show (971 : Int) = 10 * 97 + 1 by norm_num, zpow_add_one₀ (by norm_num), zpow_mul]
    norm_num
  rw [hunit, overflowBound]
  norm_num

section Units

variable {n : Nat}

/-- A number in its unit is rounded to a whole one, so the quotient and the rounded quotient differ
by a half at most. And there are `53` bits for it. -/
theorem quotient_near (hn : 0 < n) :
    (n : ℚ) / 2 ^ unitExponent n 1 < 2 ^ 53
      ∧ (n : ℚ) / 2 ^ unitExponent n 1
        ≤ roundHalfEven (inUnits n 1 (unitExponent n 1)).1 (inUnits n 1 (unitExponent n 1)).2
          + 1 / 2
      ∧ (roundHalfEven (inUnits n 1 (unitExponent n 1)).1
          (inUnits n 1 (unitExponent n 1)).2 : ℚ)
        ≤ n / 2 ^ unitExponent n 1 + 1 / 2 := by
  obtain ⟨-, hhigh, -⟩ := unitExponent_spec hn Nat.one_pos
  obtain ⟨hd, hvalue⟩ := inUnits_value n Nat.one_pos (unitExponent n 1)
  obtain ⟨hup, hdown⟩ := roundHalfEven_near_div (inUnits n 1 (unitExponent n 1)).1 hd
  rw [Nat.cast_one, div_one] at hhigh hvalue
  rw [hvalue] at hup hdown
  refine ⟨?_, hup, hdown⟩
  rw [div_lt_iff₀ (by positivity), mul_comm]
  rwa [zpow_add₀ (by norm_num)] at hhigh

/-- The exponent and the rounded quotient tell whether a number is too large. -/
theorem nearestBits_lt_iff (hn : 0 < n) :
    nearestBits n 1 < infinityBits ↔ (unitExponent n 1 + 1074).toNat * 2 ^ 52
      + roundHalfEven (inUnits n 1 (unitExponent n 1)).1 (inUnits n 1 (unitExponent n 1)).2
        < 2047 * 2 ^ 52 := by
  rw [nearestBits]
  dsimp only
  rw [if_neg (by omega), infinityBits, Nat.pow_eq]
  omega

/-- In a unit below the last one the number is below the last power of two. -/
theorem lt_of_unitExponent_lt (hn : 0 < n) (h : unitExponent n 1 < 971) :
    nearestBits n 1 < infinityBits ∧ n < overflowBound := by
  obtain ⟨-, hhigh, -⟩ := unitExponent_spec hn Nat.one_pos
  obtain ⟨hquotient, -, hdown⟩ := quotient_near hn
  refine ⟨?_, ?_⟩
  · rw [nearestBits_lt_iff hn]
    generalize roundHalfEven _ _ = r at hdown ⊢
    have hround : (r : ℚ) < 2 ^ 53 + 1 := by linarith
    have hround : r < 2 ^ 53 + 1 := by exact_mod_cast hround
    omega
  · rw [← Nat.cast_lt (α := ℚ), overflowBound_value]
    rw [Nat.cast_one, div_one] at hhigh
    have hlast := hhigh.trans_le (zpow_le_zpow_right₀ (by norm_num)
      (show unitExponent n 1 + 53 ≤ 52 + 971 by omega))
    rw [zpow_add₀ (by norm_num)] at hlast
    refine hlast.trans (mul_lt_mul_of_pos_right ?_ (by positivity))
    norm_num

/-- In the last unit the quotient is rounded up to a power of two, or is not. -/
theorem lt_iff_of_unitExponent_eq (hn : 0 < n) (h : unitExponent n 1 = 971) :
    nearestBits n 1 < infinityBits ↔ n < overflowBound := by
  obtain ⟨hd, hvalue⟩ := inUnits_value n Nat.one_pos 971
  obtain ⟨hquotient, -, hdown⟩ := quotient_near hn
  rw [nearestBits_lt_iff hn]
  rw [h] at hquotient hdown ⊢
  have hlast : n < overflowBound ↔ (n : ℚ) / 2 ^ (971 : Int) < 2 ^ 53 - 1 / 2 := by
    rw [← Nat.cast_lt (α := ℚ), overflowBound_value, div_lt_iff₀ (by positivity)]
  rw [hlast]
  constructor
  · intro hbits
    by_contra hge
    rw [not_lt] at hge
    rw [Nat.cast_one, div_one] at hvalue
    have hround : roundHalfEven (inUnits n 1 971).1 (inUnits n 1 971).2 = 2 ^ 53 := by
      refine roundHalfEven_eq hd ?_ ?_ (.inl (by norm_num))
      · rw [hvalue, Nat.cast_pow, Nat.cast_ofNat]
        exact hge
      · rw [hvalue, Nat.cast_pow, Nat.cast_ofNat]
        linarith
    rw [hround] at hbits
    omega
  · intro hbelow
    generalize roundHalfEven _ _ = r at hdown ⊢
    have hround : (r : ℚ) < 2 ^ 53 := by linarith
    have hround : r < 2 ^ 53 := by exact_mod_cast hround
    omega

/-- In a unit above the last one the number is at least the next power of two. -/
theorem le_of_lt_unitExponent (hn : 0 < n) (h : 971 < unitExponent n 1) :
    ¬ nearestBits n 1 < infinityBits ∧ ¬ n < overflowBound := by
  obtain ⟨-, -, hlow⟩ := unitExponent_spec hn Nat.one_pos
  obtain ⟨-, hup, -⟩ := quotient_near hn
  have hlow := hlow.resolve_left (by omega)
  rw [Nat.cast_one, div_one] at hlow
  refine ⟨?_, ?_⟩
  · have hnormal : (2 : ℚ) ^ 52 ≤ n / 2 ^ unitExponent n 1 := by
      rw [le_div_iff₀ (by positivity), mul_comm]
      rwa [zpow_add₀ (by norm_num)] at hlow
    rw [nearestBits_lt_iff hn]
    generalize roundHalfEven _ _ = r at hup ⊢
    have hround : (2 : ℚ) ^ 52 < r + 1 := by linarith
    have hround : 2 ^ 52 < r + 1 := by exact_mod_cast hround
    omega
  · rw [← Nat.cast_lt (α := ℚ), overflowBound_value, not_lt]
    have hlast := (zpow_le_zpow_right₀ (by norm_num)
      (show (53 : Int) + 971 ≤ unitExponent n 1 + 52 by omega)).trans hlow
    rw [zpow_add₀ (by norm_num)] at hlast
    refine le_trans (mul_le_mul_of_nonneg_right ?_ (by positivity)) hlast
    norm_num

end Units

/-- **Which whole numbers are too large** for a double. -/
theorem nearestBits_lt_infinityBits_iff (n : Nat) :
    nearestBits n 1 < infinityBits ↔ n < overflowBound := by
  rcases Nat.eq_zero_or_pos n with rfl | hn
  · refine iff_of_true (by decide) ?_
    rw [← Nat.cast_lt (α := ℚ), overflowBound_value, Nat.cast_zero]
    exact mul_pos (by norm_num) (by positivity)
  · rcases lt_trichotomy (unitExponent n 1) 971 with hlt | heq | hgt
    · obtain ⟨hbits, hbelow⟩ := lt_of_unitExponent_lt hn hlt
      exact iff_of_true hbits hbelow
    · exact lt_iff_of_unitExponent_eq hn heq
    · obtain ⟨hbits, hbelow⟩ := le_of_lt_unitExponent hn hgt
      exact iff_of_false hbits hbelow

/-- **Whole numbers that are no double.** -/
theorem ofInt?_eq_none_iff (n : Int) : ofInt? n = none ↔ overflowBound ≤ n.natAbs := by
  unfold ofInt?
  split
  · next h => simpa using (nearestBits_lt_infinityBits_iff n.natAbs).1 h
  · next h => simpa using (nearestBits_lt_infinityBits_iff n.natAbs).not.1 h

end Retrace.Decimal
