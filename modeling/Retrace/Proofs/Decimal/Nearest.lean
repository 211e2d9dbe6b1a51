/-
The nearest double of a number that lies next to a double.

The numbers that round to the double `m · 2 ^ q` form an interval around it. The nearest double of
any of them is that double again (`nearestBits_eq`): either the number is measured in the double's
own unit, and the rounded quotient is `m`; or it lies just below a power of two and is measured in
the unit below, and then the carry of the quotient leads to the same bits.
-/
import Mathlib.Tactic.Linarith
import Mathlib.Tactic.Positivity
import Mathlib.Tactic.FieldSimp
import Mathlib.Tactic.Ring
import Mathlib.Algebra.Order.Field.Power
import Mathlib.Data.Nat.Log
import Mathlib.Data.Rat.Cast.Order
import Retrace.Decimal.Binary

set_option autoImplicit false

namespace Retrace.Decimal

/-! ## Rounding -/

/-- A quotient next to a natural number is rounded to it; half way, if it is even. -/
theorem roundHalfEven_eq {n d m : Nat} (hd : 0 < d) (hlow : (m : ℚ) - 1 / 2 ≤ n / d)
    (hhigh : (n : ℚ) / d ≤ m + 1 / 2)
    (htie : m % 2 = 0 ∨ (m : ℚ) - 1 / 2 < n / d ∧ (n : ℚ) / d < m + 1 / 2) :
    roundHalfEven n d = m := by
  have hpos : (0 : ℚ) < d := by exact_mod_cast hd
  have hlow' : 2 * (m * d) ≤ 2 * n + d := by
    rw [le_div_iff₀ hpos] at hlow
    have h : (2 : ℚ) * (m * d) ≤ 2 * n + d := by linarith
    exact_mod_cast h
  have hhigh' : 2 * n ≤ 2 * (m * d) + d := by
    rw [div_le_iff₀ hpos] at hhigh
    have h : (2 : ℚ) * n ≤ 2 * (m * d) + d := by linarith
    exact_mod_cast h
  have htie' : m % 2 = 0 ∨ 2 * (m * d) < 2 * n + d ∧ 2 * n < 2 * (m * d) + d := by
    refine htie.imp_right fun ⟨h₁, h₂⟩ => ⟨?_, ?_⟩
    · rw [lt_div_iff₀ hpos] at h₁
      have h : (2 : ℚ) * (m * d) < 2 * n + d := by linarith
      exact_mod_cast h
    · rw [div_lt_iff₀ hpos] at h₂
      have h : (2 : ℚ) * n < 2 * (m * d) + d := by linarith
      exact_mod_cast h
  have hdiv := Nat.div_add_mod n d
  have hmod := Nat.mod_lt n hd
  -- the quotient is `m`, or one below
  have hquotient : n / d = m ∨ n / d + 1 = m := by
    have hle : n / d ≤ m := by
      by_contra h
      have hmul : d * (m + 1) ≤ d * (n / d) := Nat.mul_le_mul_left d (by omega)
      rw [Nat.mul_add, Nat.mul_comm d m] at hmul
      omega
    have hge : m ≤ n / d + 1 := by
      by_contra h
      have hmul : d * (n / d + 2) ≤ d * m := Nat.mul_le_mul_left d (by omega)
      rw [Nat.mul_add, Nat.mul_comm d m] at hmul
      omega
    omega
  unfold roundHalfEven
  rcases hquotient with h | h
  · rw [h, Nat.mul_comm d m] at hdiv
    rw [h]
    dsimp only
    split
    · rfl
    · split
      · omega
      · omega
  · have hmul : m * d = d * (n / d) + d := by rw [← h, Nat.add_mul, Nat.mul_comm, Nat.one_mul]
    dsimp only
    split
    · omega
    · split
      · exact h
      · omega

/-! ## Units -/

/-- The quotient in units of `2 ^ e`. -/
theorem inUnits_value (num : Nat) {den : Nat} (hden : 0 < den) (e : Int) :
    0 < (inUnits num den e).2
      ∧ ((inUnits num den e).1 : ℚ) / (inUnits num den e).2 = (num : ℚ) / den / 2 ^ e := by
  unfold inUnits
  split
  · next he =>
    obtain ⟨k, rfl⟩ := Int.eq_ofNat_of_zero_le he
    refine ⟨Nat.mul_pos hden (Nat.pow_pos (by decide)), ?_⟩
    simp only [Int.toNat_natCast, Nat.pow_eq, Nat.cast_mul, Nat.cast_pow,
      Nat.cast_ofNat, zpow_natCast]
    rw [div_div]
  · next he =>
    obtain ⟨k, hk⟩ := Int.eq_ofNat_of_zero_le (show 0 ≤ -e by omega)
    refine ⟨hden, ?_⟩
    have he : e = -(k : Int) := by omega
    subst he
    simp only [neg_neg, Int.toNat_natCast, Nat.pow_eq, Nat.cast_mul, Nat.cast_pow, Nat.cast_ofNat,
      zpow_neg, zpow_natCast, div_inv_eq_mul]
    rw [div_mul_eq_mul_div]

/-- A natural number lies between two powers of two. -/
theorem log2_bounds {n : Nat} (hn : 0 < n) :
    (2 : ℚ) ^ (n.log2 : Int) ≤ n ∧ (n : ℚ) < 2 ^ ((n.log2 : Int) + 1) := by
  have hlow : 2 ^ n.log2 ≤ n := Nat.log2_self_le (by omega)
  have hhigh : n < 2 ^ (n.log2 + 1) := Nat.lt_log2_self
  refine ⟨?_, ?_⟩
  · rw [zpow_natCast]
    exact_mod_cast hlow
  · rw [← Nat.cast_succ, zpow_natCast]
    exact_mod_cast hhigh

/-- A quotient lies between the powers of two of the difference of the lengths. -/
theorem quotient_bounds {num den : Nat} (hnum : 0 < num) (hden : 0 < den) :
    (2 : ℚ) ^ ((num.log2 : Int) - den.log2 - 1) < (num : ℚ) / den
      ∧ (num : ℚ) / den < 2 ^ ((num.log2 : Int) - den.log2 + 1) := by
  obtain ⟨hnumLow, hnumHigh⟩ := log2_bounds hnum
  obtain ⟨hdenLow, hdenHigh⟩ := log2_bounds hden
  have hpos : (0 : ℚ) < den := by exact_mod_cast hden
  refine ⟨?_, ?_⟩
  · rw [lt_div_iff₀ hpos]
    calc (2 : ℚ) ^ ((num.log2 : Int) - den.log2 - 1) * den
        < 2 ^ ((num.log2 : Int) - den.log2 - 1) * 2 ^ ((den.log2 : Int) + 1) :=
          mul_lt_mul_of_pos_left hdenHigh (by positivity)
      _ = 2 ^ (num.log2 : Int) := by
          rw [← zpow_add₀ (by norm_num)]
          congr 1
          omega
      _ ≤ num := hnumLow
  · rw [div_lt_iff₀ hpos]
    calc (num : ℚ) < 2 ^ ((num.log2 : Int) + 1) := hnumHigh
      _ = 2 ^ ((num.log2 : Int) - den.log2 + 1) * 2 ^ (den.log2 : Int) := by
          rw [← zpow_add₀ (by norm_num)]
          congr 1
          omega
      _ ≤ 2 ^ ((num.log2 : Int) - den.log2 + 1) * den :=
          mul_le_mul_of_nonneg_left hdenLow (by positivity)

/-- The whole part of a quotient tells which side of a power of two it is on. -/
theorem div_inUnits_lt_iff (num : Nat) {den : Nat} (hden : 0 < den) (e : Int) :
    (inUnits num den e).1 / (inUnits num den e).2 < 2 ^ 52 ↔ (num : ℚ) / den < 2 ^ (e + 52) := by
  obtain ⟨hpos, hvalue⟩ := inUnits_value num hden e
  have hcast : (0 : ℚ) < (inUnits num den e).2 := by exact_mod_cast hpos
  have hunit : (0 : ℚ) < 2 ^ e := by positivity
  rw [Nat.div_lt_iff_lt_mul hpos, zpow_add₀ (by norm_num), ← div_lt_iff₀' hunit, ← hvalue,
    div_lt_iff₀ hcast]
  norm_cast

/-- **The unit of a number.** The quotient has 53 bits, or the unit is the least one. -/
theorem unitExponent_spec {num den : Nat} (hnum : 0 < num) (hden : 0 < den) :
    -1074 ≤ unitExponent num den
      ∧ (num : ℚ) / den < 2 ^ (unitExponent num den + 53)
      ∧ (unitExponent num den = -1074
        ∨ (2 : ℚ) ^ (unitExponent num den + 52) ≤ (num : ℚ) / den) := by
  obtain ⟨hlow, hhigh⟩ := quotient_bounds hnum hden
  have hmono : ∀ {i j : Int}, i ≤ j → (2 : ℚ) ^ i ≤ 2 ^ j :=
    fun h => zpow_le_zpow_right₀ (by norm_num) h
  unfold unitExponent
  set e : Int := max ((num.log2 : Int) - den.log2 - 52) (-1074) with he
  dsimp only
  split
  · next h =>
    rw [Nat.pow_eq, div_inUnits_lt_iff num hden] at h
    refine ⟨by omega, ?_, ?_⟩
    · rcases le_total (-1074) (e - 1) with hleast | hleast
      · rw [max_eq_left hleast, show e - 1 + 53 = e + 52 by ring]
        exact h
      · rw [max_eq_right hleast]
        exact h.trans_le (hmono (by omega))
    · rcases le_or_gt (e - 1) (-1074) with hleast | hleast
      · exact .inl (max_eq_right hleast)
      · rw [max_eq_left hleast.le]
        exact .inr ((hmono (by omega)).trans hlow.le)
  · next h =>
    rw [Nat.pow_eq, div_inUnits_lt_iff num hden, not_lt] at h
    refine ⟨by omega, ?_, .inr h⟩
    exact hhigh.trans_le (hmono (by omega))

/-! ## Doubles -/

/-- Mantissa and exponent as a finite double has them. -/
structure Shaped (m : Nat) (q : Int) : Prop where
  lt : m < 2 ^ 53
  least : -1074 ≤ q
  greatest : q ≤ 971
  normal : 2 ^ 52 ≤ m ∨ q = -1074

/-- Below a power of two the doubles are half as far apart as above it. -/
def lowerHalf (m : Nat) (q : Int) : ℚ := if m = 2 ^ 52 ∧ q ≠ -1074 then 1 / 4 else 1 / 2

/-- The number rounds to the double `m · 2 ^ q`; half way it does so if `m` is even. -/
structure RoundsTo (m : Nat) (q : Int) (v : ℚ) : Prop where
  low : ((m : ℚ) - lowerHalf m q) * 2 ^ q ≤ v
  high : v ≤ ((m : ℚ) + 1 / 2) * 2 ^ q
  tie : m % 2 = 0 ∨ ((m : ℚ) - lowerHalf m q) * 2 ^ q < v ∧ v < ((m : ℚ) + 1 / 2) * 2 ^ q

theorem lowerHalf_le (m : Nat) (q : Int) : lowerHalf m q ≤ 1 / 2 := by
  unfold lowerHalf
  split <;> norm_num

theorem RoundsTo.pos {m : Nat} {q : Int} {v : ℚ} (h : RoundsTo m q v) (hm : 0 < m) : 0 < v := by
  have hcast : (1 : ℚ) ≤ m := by exact_mod_cast hm
  have hunit : (0 : ℚ) < 2 ^ q := by positivity
  have hhalf := lowerHalf_le m q
  exact (mul_pos (by linarith) hunit).trans_le h.low

/-- A number that lies in the unit below its double is next to a power of two. -/
theorem RoundsTo.below {m : Nat} {q : Int} {v : ℚ} (h : RoundsTo m q v) (hshape : Shaped m q)
    (hq : q ≠ -1074) (hv : v < 2 ^ (q + 52)) :
    m = 2 ^ 52 ∧ ((2 : ℚ) ^ 52 - 1 / 4) * 2 ^ q ≤ v := by
  have hunit : (0 : ℚ) < 2 ^ q := by positivity
  have hle : m ≤ 2 ^ 52 := by
    have hhalf := lowerHalf_le m q
    have hmul : ((m : ℚ) - lowerHalf m q) * 2 ^ q < 2 ^ 52 * 2 ^ q := by
      refine h.low.trans_lt (hv.trans_eq ?_)
      rw [zpow_add₀ (by norm_num), mul_comm]
      norm_cast
    have hlt : (m : ℚ) < 2 ^ 52 + 1 := by
      have := lt_of_mul_lt_mul_right hmul hunit.le
      linarith
    have hcast : m < 2 ^ 52 + 1 := by exact_mod_cast hlt
    omega
  have heq : m = 2 ^ 52 := by
    rcases hshape.normal with hnormal | hleast
    · omega
    · exact absurd hleast hq
  have hlow := h.low
  rw [lowerHalf, if_pos ⟨heq, hq⟩, heq] at hlow
  exact ⟨heq, by exact_mod_cast hlow⟩

/-- **The nearest double** of a number that rounds to `m · 2 ^ q`. -/
theorem nearestBits_eq {m : Nat} {q : Int} (hshape : Shaped m q) (hm : 0 < m) {num den : Nat}
    (hden : 0 < den) (h : RoundsTo m q ((num : ℚ) / den)) :
    nearestBits num den = (q + 1074).toNat * 2 ^ 52 + m := by
  have hnum : num ≠ 0 := by
    rintro rfl
    have hpos := h.pos hm
    simp at hpos
  obtain ⟨hleast, hhigh, hlow⟩ := unitExponent_spec (Nat.pos_of_ne_zero hnum) hden
  obtain ⟨hd, hvalue⟩ := inUnits_value num hden (unitExponent num den)
  have hmono : ∀ {i j : Int}, i ≤ j → (2 : ℚ) ^ i ≤ 2 ^ j :=
    fun h => zpow_le_zpow_right₀ (by norm_num) h
  have hunit : (0 : ℚ) < 2 ^ q := by positivity
  -- the bits are right if unit and rounded quotient make up the same number
  suffices hsum : (unitExponent num den + 1074).toNat * 2 ^ 52
      + roundHalfEven (inUnits num den (unitExponent num den)).1
        (inUnits num den (unitExponent num den)).2 = (q + 1074).toNat * 2 ^ 52 + m by
    have hfinite : (q + 1074).toNat * 2 ^ 52 + m ≤ infinityBits := by
      obtain ⟨hlt, -, hgreatest, -⟩ := hshape
      simp only [infinityBits, Nat.pow_eq]
      omega
    rw [nearestBits]
    dsimp only
    rw [if_neg hnum, Nat.pow_eq, hsum, Nat.min_eq_left hfinite]
  rcases lt_trichotomy (unitExponent num den) q with hlt | heq | hgt
  · -- just below a power of two
    obtain ⟨rfl, hbelow⟩ := h.below hshape (by omega) (hhigh.trans_le (hmono (by omega)))
    have he : unitExponent num den = q - 1 := by
      by_contra hne
      have hsmall : (2 : ℚ) ^ (q + 51) = 2 ^ 51 * 2 ^ q := by
        rw [zpow_add₀ (by norm_num), mul_comm]
        norm_cast
      have hlt := hhigh.trans_le (hmono (show unitExponent num den + 53 ≤ q + 51 by omega))
      rw [hsmall] at hlt
      linarith
    rw [he] at hvalue hhigh hd ⊢
    rw [show (2 : ℚ) ^ (q - 1) = 2 ^ q / 2 by rw [zpow_sub_one₀ (by norm_num)]; rfl] at hvalue
    rw [show q - 1 + 53 = q + 52 by ring, zpow_add₀ (by norm_num)] at hhigh
    have hround : roundHalfEven (inUnits num den (q - 1)).1 (inUnits num den (q - 1)).2
        = 2 ^ 53 := by
      refine roundHalfEven_eq hd ?_ ?_ (.inl (by norm_num))
      · rw [hvalue, le_div_iff₀ (by positivity)]
        push_cast
        linarith
      · rw [hvalue, div_le_iff₀ (by positivity)]
        push_cast
        have h52 : (2 : ℚ) ^ (52 : Int) = 2 ^ 52 := by norm_cast
        rw [h52] at hhigh
        linarith
    rw [hround]
    omega
  · -- in the double's own unit
    rw [heq] at hvalue hd ⊢
    have hhalf := lowerHalf_le m q
    have hround : roundHalfEven (inUnits num den q).1 (inUnits num den q).2 = m := by
      refine roundHalfEven_eq hd ?_ ?_ ?_
      · rw [hvalue, le_div_iff₀ hunit]
        refine le_trans (mul_le_mul_of_nonneg_right ?_ hunit.le) h.low
        linarith
      · rw [hvalue, div_le_iff₀ hunit]
        exact h.high
      · refine h.tie.imp_right fun ⟨h₁, h₂⟩ => ⟨?_, ?_⟩
        · rw [hvalue, lt_div_iff₀ hunit]
          refine lt_of_le_of_lt (mul_le_mul_of_nonneg_right ?_ hunit.le) h₁
          linarith
        · rw [hvalue, div_lt_iff₀ hunit]
          exact h₂
    rw [hround]
  · -- no number that rounds to the double is so large
    exfalso
    have hlarge : (2 : ℚ) ^ (q + 53) ≤ (num : ℚ) / den :=
      (hmono (by omega)).trans (hlow.resolve_left (by have := hshape.least; omega))
    have h53 : (2 : ℚ) ^ (q + 53) = 2 ^ 53 * 2 ^ q := by
      rw [zpow_add₀ (by norm_num), mul_comm]
      norm_cast
    rw [h53] at hlarge
    have hm53 : (m : ℚ) + 1 ≤ 2 ^ 53 := by exact_mod_cast hshape.lt
    have hmul : (2 : ℚ) ^ 53 ≤ m + 1 / 2 := le_of_mul_le_mul_right (hlarge.trans h.high) hunit
    linarith

end Retrace.Decimal
