/-
The digits of a double round to it.

A grid is taken at once if one of its points rounds to the double. The last grid, of seventeen
digits, is taken without a test: it is so fine that its nearest point always does
(`firstGridPoint_spec`). How fine it is depends on the place of the point, and that is estimated
from below (`pow_pointPosition_le`).
-/
import Retrace.Decimal.Shortest
import Retrace.Proofs.Decimal.Nearest

set_option autoImplicit false

namespace Retrace.Decimal

/-! ## Ratios -/

namespace Ratio

/-- The number that a ratio stands for. -/
def value (r : Ratio) : ℚ := (r.num : ℚ) / r.den

theorem lt_iff {a b : Ratio} (ha : 0 < a.den) (hb : 0 < b.den) :
    a.lt b = true ↔ a.value < b.value := by
  have ha' : (0 : ℚ) < a.den := by exact_mod_cast ha
  have hb' : (0 : ℚ) < b.den := by exact_mod_cast hb
  rw [lt, decide_eq_true_iff, value, value, div_lt_div_iff₀ ha' hb']
  norm_cast

theorem lt_eq_false_iff {a b : Ratio} (ha : 0 < a.den) (hb : 0 < b.den) :
    a.lt b = false ↔ b.value ≤ a.value := by
  rw [Bool.eq_false_iff, ne_eq, lt_iff ha hb, not_lt]

theorem binary_spec (n : Nat) (e : Int) :
    0 < (binary n e).den ∧ (binary n e).value = n * 2 ^ e := by
  unfold binary value
  split
  · next he =>
    obtain ⟨k, rfl⟩ := Int.eq_ofNat_of_zero_le he
    exact ⟨Nat.one_pos, by simp⟩
  · next he =>
    obtain ⟨k, hk⟩ := Int.eq_ofNat_of_zero_le (show 0 ≤ -e by omega)
    obtain rfl : e = -(k : Int) := by omega
    exact ⟨Nat.pow_pos (by decide), by simp [div_eq_mul_inv]⟩

theorem decimal_spec (n : Nat) (e : Int) :
    0 < (decimal n e).den ∧ (decimal n e).value = n * 10 ^ e := by
  unfold decimal value
  split
  · next he =>
    obtain ⟨k, rfl⟩ := Int.eq_ofNat_of_zero_le he
    exact ⟨Nat.one_pos, by simp⟩
  · next he =>
    obtain ⟨k, hk⟩ := Int.eq_ofNat_of_zero_le (show 0 ≤ -e by omega)
    obtain rfl : e = -(k : Int) := by omega
    exact ⟨Nat.pow_pos (by decide), by simp [div_eq_mul_inv]⟩

end Ratio

/-! ## Grids -/

variable {m : Nat} {q : Int}

/-- The lower end of the interval of a double. -/
theorem low_value (hm : 0 < m) (q : Int) :
    0 < (Rounding.ofDouble m q).low.den
      ∧ (Rounding.ofDouble m q).low.value = ((m : ℚ) - lowerHalf m q) * 2 ^ q := by
  have hunit : (2 : ℚ) ^ (q - 2) = 2 ^ q / 4 := by
    rw [zpow_sub₀ (by norm_num)]
    norm_num
  simp only [Rounding.ofDouble, Nat.pow_eq]
  refine ⟨(Ratio.binary_spec _ _).1, ?_⟩
  rw [(Ratio.binary_spec _ _).2, hunit, lowerHalf]
  by_cases h : m = 2 ^ 52 ∧ q ≠ -1074
  · have hcond : (decide (m = 2 ^ 52) && q != -1074) = true := by simp [h.1, h.2]
    rw [if_pos hcond, if_pos h, Nat.cast_sub (by omega)]
    push_cast
    ring
  · have hcond : ¬ (decide (m = 2 ^ 52) && q != -1074) = true := by simpa using h
    rw [if_neg hcond, if_neg h, Nat.cast_sub (by omega)]
    push_cast
    ring

/-- The upper end of the interval of a double. -/
theorem high_value (m : Nat) (q : Int) :
    0 < (Rounding.ofDouble m q).high.den
      ∧ (Rounding.ofDouble m q).high.value = ((m : ℚ) + 1 / 2) * 2 ^ q := by
  have hunit : (2 : ℚ) ^ (q - 2) = 2 ^ q / 4 := by
    rw [zpow_sub₀ (by norm_num)]
    norm_num
  refine ⟨(Ratio.binary_spec _ _).1, ?_⟩
  rw [show (Rounding.ofDouble m q).high = .binary (4 * m + 2) (q - 2) from rfl,
    (Ratio.binary_spec _ _).2, hunit]
  push_cast
  ring

/-- The interval of a double holds the numbers that round to it. -/
theorem roundsTo_of_contains (hm : 0 < m) {r : Ratio} (hr : 0 < r.den)
    (h : (Rounding.ofDouble m q).contains r = true) : RoundsTo m q r.value := by
  obtain ⟨hlowDen, hlow⟩ := low_value hm q
  obtain ⟨hhighDen, hhigh⟩ := high_value m q
  unfold Rounding.contains at h
  split at h
  · next hclosed =>
    have heven : m % 2 = 0 := by simpa [Rounding.ofDouble] using hclosed
    rw [Bool.and_eq_true, Bool.not_eq_true', Bool.not_eq_true', Ratio.lt_eq_false_iff hr hlowDen,
      Ratio.lt_eq_false_iff hhighDen hr, hlow, hhigh] at h
    exact ⟨h.1, h.2, .inl heven⟩
  · rw [Bool.and_eq_true, Ratio.lt_iff hlowDen hr, Ratio.lt_iff hr hhighDen, hlow, hhigh] at h
    exact ⟨h.1.le, h.2.le, .inr h⟩

theorem nearerPoint_eq (x : Ratio) (d : Nat) (e : Int) :
    nearerPoint x d e = d ∨ nearerPoint x d e = d + 1 := by
  unfold nearerPoint
  dsimp only
  split
  · exact .inl rfl
  · split
    · exact .inr rfl
    · omega

/-- A grid point that is taken rounds to the double. -/
theorem roundsTo_of_gridPoint? (hm : 0 < m) {e : Int} {d : Nat} (h : gridPoint? m q e = some d) :
    RoundsTo m q (d * 10 ^ e) := by
  have hpoint : ∀ n, (Rounding.ofDouble m q).contains (.decimal n e) = true →
      RoundsTo m q (n * 10 ^ e) := by
    intro n hn
    obtain ⟨hden, hvalue⟩ := Ratio.decimal_spec n e
    rw [← hvalue]
    exact roundsTo_of_contains hm hden hn
  unfold gridPoint? at h
  dsimp only at h
  split at h
  · next hleft hright =>
    -- both neighbours round to the double, so it does not matter which one is nearer
    obtain rfl := Option.some.inj h
    rcases nearerPoint_eq (Ratio.binary m q) _ e with hd | hd
    · rw [hd]
      exact hpoint _ hleft
    · rw [hd]
      exact hpoint _ hright
  · next hleft _ =>
    obtain rfl := Option.some.inj h
    exact hpoint _ hleft
  · next _ hright =>
    obtain rfl := Option.some.inj h
    exact hpoint _ hright
  · simp at h

/-- The grid points next to a number. -/
theorem gridPoint_bounds {x : Ratio} (hx : 0 < x.den) (e : Int) :
    ((x.num * (Ratio.decimal 1 e).den / (x.den * (Ratio.decimal 1 e).num) : Nat) : ℚ) * 10 ^ e
        ≤ x.value
      ∧ x.value < (((x.num * (Ratio.decimal 1 e).den / (x.den * (Ratio.decimal 1 e).num) : Nat) : ℚ)
        + 1) * 10 ^ e := by
  obtain ⟨hden, hvalue⟩ := Ratio.decimal_spec 1 e
  have hunit : (0 : ℚ) < 10 ^ e := by positivity
  have hdenCast : (0 : ℚ) < (Ratio.decimal 1 e).den := by exact_mod_cast hden
  have hxCast : (0 : ℚ) < x.den := by exact_mod_cast hx
  have hnum : 0 < (Ratio.decimal 1 e).num := by
    rcases Nat.eq_zero_or_pos (Ratio.decimal 1 e).num with hzero | hpos
    · rw [Ratio.value, hzero] at hvalue
      simp at hvalue
      exact absurd hvalue.symm hunit.ne'
    · exact hpos
  have hnumCast : (0 : ℚ) < (Ratio.decimal 1 e).num := by exact_mod_cast hnum
  have hratio : (10 : ℚ) ^ e = (Ratio.decimal 1 e).num / (Ratio.decimal 1 e).den := by
    rw [← Ratio.value, hvalue]
    simp
  set n := x.num * (Ratio.decimal 1 e).den
  set k := x.den * (Ratio.decimal 1 e).num
  have hk : 0 < k := Nat.mul_pos hx hnum
  have hkCast : (0 : ℚ) < k := by exact_mod_cast hk
  have hquotient : x.value = (n : ℚ) / k * 10 ^ e := by
    rw [hratio, Ratio.value]
    simp only [n, k]
    push_cast
    field_simp
  rw [hquotient]
  refine ⟨mul_le_mul_of_nonneg_right ?_ hunit.le, mul_lt_mul_of_pos_right ?_ hunit⟩
  · rw [le_div_iff₀ hkCast]
    exact_mod_cast Nat.div_mul_le_self n k
  · rw [div_lt_iff₀ hkCast]
    have hlt : n < (n / k + 1) * k := by
      rw [Nat.add_mul, Nat.one_mul, Nat.mul_comm]
      have hdiv := Nat.div_add_mod n k
      have hmod := Nat.mod_lt n hk
      omega
    exact_mod_cast hlt

/-- The nearer grid point is within half a unit. -/
theorem nearerPoint_near {x : Ratio} (hx : 0 < x.den) {d : Nat} {e : Int}
    (hlow : (d : ℚ) * 10 ^ e ≤ x.value) (hhigh : x.value < ((d : ℚ) + 1) * 10 ^ e) :
    |(nearerPoint x d e : ℚ) * 10 ^ e - x.value| ≤ 10 ^ e / 2 := by
  have hunit : (0 : ℚ) < 10 ^ e := by positivity
  obtain ⟨hden, hvalue⟩ := Ratio.decimal_spec (10 * d + 5) (e - 1)
  have hmiddle : (Ratio.decimal (10 * d + 5) (e - 1)).value = ((d : ℚ) + 1 / 2) * 10 ^ e := by
    rw [hvalue, zpow_sub_one₀ (by norm_num)]
    push_cast
    ring
  rw [abs_le]
  unfold nearerPoint
  dsimp only
  split
  · next h =>
    rw [Ratio.lt_iff hx hden, hmiddle] at h
    constructor <;> linarith
  · next h =>
    rw [Ratio.lt_iff hx hden, hmiddle, not_lt] at h
    split
    · next h' =>
      push_cast
      constructor <;> linarith
    · next h' =>
      rw [Ratio.lt_iff hden hx, hmiddle, not_lt] at h'
      rcases Nat.mod_two_eq_zero_or_one d with hd | hd
      · rw [hd]
        push_cast
        constructor <;> linarith
      · rw [hd]
        push_cast
        constructor <;> linarith

/-! ## The place of the point -/

/-- The estimate of a power of two by a power of ten, in the range of a double. -/
theorem ten_pow_le_two_pow : ∀ b < 1024, 10 ^ (b * 30103 / 100000) ≤ 2 ^ b := by
  decide +kernel

theorem two_pow_le_ten_pow : ∀ k < 1075, 2 ^ k ≤ 10 ^ ((k * 30103 + 99999) / 100000) := by
  decide +kernel

theorem ten_zpow_le_two_zpow {b : Int} (hlow : -1075 < b) (hhigh : b < 1024) :
    (10 : ℚ) ^ Int.fdiv (b * 30103) 100000 ≤ 2 ^ b := by
  rw [Int.fdiv_eq_ediv_of_nonneg _ (by norm_num)]
  rcases Int.le_total 0 b with hb | hb
  · obtain ⟨k, rfl⟩ := Int.eq_ofNat_of_zero_le hb
    have h := ten_pow_le_two_pow k (by omega)
    rw [show (k : Int) * 30103 / 100000 = ((k * 30103 / 100000 : Nat) : Int) by push_cast; rfl,
      zpow_natCast, zpow_natCast]
    exact_mod_cast h
  · obtain ⟨k, hk⟩ := Int.eq_ofNat_of_zero_le (show 0 ≤ -b by omega)
    obtain rfl : b = -(k : Int) := by omega
    have h := two_pow_le_ten_pow k (by omega)
    rw [show -(k : Int) * 30103 / 100000 = -(((k * 30103 + 99999) / 100000 : Nat) : Int) by
      push_cast
      omega, zpow_neg, zpow_neg, zpow_natCast, zpow_natCast]
    exact inv_anti₀ (by positivity) (by exact_mod_cast h)

/-- The double has at least that many digits before its point. -/
theorem pow_pointPosition_le (hshape : Shaped m q) (hm : 0 < m) :
    (10 : ℚ) ^ (pointPosition m q - 1) ≤ m * 2 ^ q := by
  obtain ⟨hdouble, hdoubleValue⟩ := Ratio.binary_spec m q
  unfold pointPosition
  dsimp only
  obtain ⟨hpower, hpowerValue⟩ :=
    Ratio.decimal_spec 1 (Int.fdiv (((m.log2 : Int) + q) * 30103) 100000 + 1)
  split
  · have hlog : m.log2 < 53 := (Nat.log2_lt (by omega)).2 hshape.lt
    have hleast := hshape.least
    have hgreatest := hshape.greatest
    rw [add_sub_cancel_right]
    calc (10 : ℚ) ^ Int.fdiv (((m.log2 : Int) + q) * 30103) 100000
        ≤ 2 ^ ((m.log2 : Int) + q) := ten_zpow_le_two_zpow (by omega) (by omega)
      _ = 2 ^ (m.log2 : Int) * 2 ^ q := zpow_add₀ (by norm_num) _ _
      _ ≤ m * 2 ^ q := mul_le_mul_of_nonneg_right (log2_bounds hm).1 (by positivity)
  · next h =>
    rw [Ratio.lt_iff hdouble hpower, hdoubleValue, hpowerValue, not_lt, Nat.cast_one, one_mul] at h
    rwa [show Int.fdiv (((m.log2 : Int) + q) * 30103) 100000 + 2 - 1
      = Int.fdiv (((m.log2 : Int) + q) * 30103) 100000 + 1 by ring]

/-- On the grid of seventeen digits, half a unit is less than the way to the end of the interval. -/
theorem half_unit_lt (hshape : Shaped m q) (hm : 0 < m) :
    (10 : ℚ) ^ (pointPosition m q - 17) / 2 < lowerHalf m q * 2 ^ q := by
  have hunit : (0 : ℚ) < 2 ^ q := by positivity
  have hgrid : (10 : ℚ) ^ (pointPosition m q - 17) * 10 ^ 16 ≤ m * 2 ^ q := by
    have hpoint := pow_pointPosition_le hshape hm
    rw [show pointPosition m q - 1 = pointPosition m q - 17 + (16 : Nat) by push_cast; ring,
      zpow_add₀ (by norm_num), zpow_natCast] at hpoint
    exact hpoint
  unfold lowerHalf
  split
  · next h =>
    have hcast : (m : ℚ) = 2 ^ 52 := by exact_mod_cast h.1
    rw [hcast] at hgrid
    linarith
  · have hlt : (m : ℚ) + 1 ≤ 2 ^ 53 := by exact_mod_cast hshape.lt
    have hmul : (m : ℚ) * 2 ^ q ≤ (2 ^ 53 - 1) * 2 ^ q :=
      mul_le_mul_of_nonneg_right (by linarith) hunit.le
    linarith

/-- **The digits round to the double.** The induction is on the number of grids that are left. -/
theorem firstGridPoint_spec (hshape : Shaped m q) (hm : 0 < m) {n steps : Nat}
    (hlast : n + steps = 17) :
    RoundsTo m q ((firstGridPoint m q (pointPosition m q) n steps).1
      * 10 ^ (firstGridPoint m q (pointPosition m q) n steps).2) := by
  induction steps generalizing n with
  | zero =>
    obtain rfl : n = 17 := hlast
    obtain ⟨hden, hvalue⟩ := Ratio.binary_spec m q
    obtain ⟨hlow, hhigh⟩ := gridPoint_bounds hden (pointPosition m q - (17 : Nat))
    have hnear := abs_le.1 (nearerPoint_near hden hlow hhigh)
    have hhalf := half_unit_lt hshape hm
    have hunit : (0 : ℚ) < 2 ^ q := by positivity
    have hupper : lowerHalf m q * 2 ^ q ≤ 1 / 2 * 2 ^ q :=
      mul_le_mul_of_nonneg_right (lowerHalf_le m q) hunit.le
    rw [hvalue] at hnear
    have hstrict : ((m : ℚ) - lowerHalf m q) * 2 ^ q
          < (firstGridPoint m q (pointPosition m q) 17 0).1
            * 10 ^ (firstGridPoint m q (pointPosition m q) 17 0).2
        ∧ ((firstGridPoint m q (pointPosition m q) 17 0).1 : ℚ)
            * 10 ^ (firstGridPoint m q (pointPosition m q) 17 0).2 < ((m : ℚ) + 1 / 2) * 2 ^ q := by
      simp only [firstGridPoint, Nat.cast_ofNat] at hnear ⊢
      constructor <;> linarith
    exact ⟨hstrict.1.le, hstrict.2.le, .inr hstrict⟩
  | succ steps ih =>
    rw [firstGridPoint]
    split
    · next d hd => exact roundsTo_of_gridPoint? hm hd
    · exact ih (by omega)

end Retrace.Decimal
