/-
Which double a decimal is read as.

The bits of a finite double are its sign, its mantissa and its exponent (`bits_of_decode`). So a
decimal that rounds to the double is read as it (`ofDecimal_eq`), however many digits it has and
wherever its point stands.
-/
import Retrace.Proofs.Decimal.Double
import Retrace.Proofs.Decimal.Nearest

set_option autoImplicit false

namespace Retrace.Decimal

open Float.Model Float.Model.UnpackedFloat

/-! ## Finite doubles -/

theorem shaped_of_decodeBits {bits m : Nat} {q : Int} {negative : Bool}
    (h : decodeBits bits = .finite negative m q) : Shaped m q := by
  have hfraction : bits % 2 ^ 52 < 2 ^ 52 := Nat.mod_lt _ (by decide)
  have hbiased : bits / 2 ^ 52 % 2 ^ 11 < 2 ^ 11 := Nat.mod_lt _ (by decide)
  simp only [decodeBits, Nat.pow_eq] at h
  split at h
  · split at h <;> simp at h
  · split at h
    · obtain ⟨-, rfl, rfl⟩ := Decoded.finite.inj h
      exact ⟨by omega, by omega, by omega, .inr rfl⟩
    · obtain ⟨-, rfl, rfl⟩ := Decoded.finite.inj h
      exact ⟨by omega, by omega, by omega, .inl (by omega)⟩

theorem bits_of_decodeBits {bits m : Nat} {q : Int} {negative : Bool} (hbits : bits < 2 ^ 64)
    (h : decodeBits bits = .finite negative m q) :
    bits = (if negative then 2 ^ 63 else 0) + ((q + 1074).toNat * 2 ^ 52 + m) := by
  simp only [decodeBits, Nat.pow_eq] at h
  split at h
  · split at h <;> simp at h
  · split at h
    · obtain ⟨rfl, rfl, rfl⟩ := Decoded.finite.inj h
      by_cases hsign : bits / 2 ^ 63 % 2 = 1
      · simp only [hsign, beq_self_eq_true, if_true]
        omega
      · simp only [beq_eq_false_iff_ne.2 hsign, Bool.false_eq_true, if_false]
        omega
    · obtain ⟨rfl, rfl, rfl⟩ := Decoded.finite.inj h
      by_cases hsign : bits / 2 ^ 63 % 2 = 1
      · simp only [hsign, beq_self_eq_true, if_true]
        omega
      · simp only [beq_eq_false_iff_ne.2 hsign, Bool.false_eq_true, if_false]
        omega

variable {x : Float} {negative : Bool} {m : Nat} {q : Int}

theorem ofBits_eq {bits : Nat} (h : bits = x.toBits.toNat) :
    Float.ofBits (UInt64.ofNat bits) = x := by
  rw [h, UInt64.ofNat_toNat, Float.ofBits_toBits]

/-- A quotient with the bits of the double is read as it. -/
theorem nearest_eq (h : decode x = .finite negative m q) {num den : Nat}
    (hbits : nearestBits num den = (q + 1074).toNat * 2 ^ 52 + m) :
    nearest negative num den = x := by
  rw [nearest, hbits]
  exact ofBits_eq (bits_of_decodeBits x.toBits.toNat_lt h).symm

/-- A number with digits in front of a power of ten lies between two powers of ten. -/
theorem decimal_bounds {d : Nat} (hd : 0 < d) (e : Int) :
    (10 : ℚ) ^ (((toString d).length : Int) + e - 1) ≤ d * 10 ^ e
      ∧ (d : ℚ) * 10 ^ e < 10 ^ (((toString d).length : Int) + e) := by
  have hunit : (0 : ℚ) < 10 ^ e := by positivity
  obtain ⟨k, hk⟩ := Nat.exists_eq_add_of_lt (@Nat.length_repr_pos d)
  have hlength : (toString d).length = k + 1 := by
    show d.repr.length = k + 1
    omega
  have hhigh : d < 10 ^ (k + 1) := (Nat.length_repr_le_iff (by omega)).1 hlength.le
  have hlow : 10 ^ k ≤ d := by
    rcases Nat.eq_zero_or_pos k with rfl | hpos
    · exact hd
    · by_contra h
      have hle := (Nat.length_repr_le_iff hpos).2 (not_le.1 h)
      have hlength : d.repr.length = k + 1 := hlength
      omega
  rw [hlength]
  refine ⟨?_, ?_⟩
  · rw [show ((k + 1 : Nat) : Int) + e - 1 = k + e by push_cast; ring, zpow_add₀ (by norm_num),
      zpow_natCast]
    exact mul_le_mul_of_nonneg_right (by exact_mod_cast hlow) hunit.le
  · rw [zpow_add₀ (by norm_num), zpow_natCast]
    exact mul_lt_mul_of_pos_right (by exact_mod_cast hhigh) hunit

theorem two_zpow_lt {i j : Nat} (h : 2 ^ i < 10 ^ j) : (2 : ℚ) ^ (i : Int) < 10 ^ (j : Int)
    ∧ (10 : ℚ) ^ (-(j : Int)) < 2 ^ (-(i : Int)) := by
  have hcast : (2 : ℚ) ^ (i : Int) < 10 ^ (j : Int) := by
    rw [zpow_natCast, zpow_natCast]
    exact_mod_cast h
  refine ⟨hcast, ?_⟩
  rw [zpow_neg, zpow_neg]
  exact inv_strictAnti₀ (by positivity) hcast

/-- What rounds to a double is not out of its range. -/
theorem RoundsTo.range {v : ℚ} (h : RoundsTo m q v) (hshape : Shaped m q) (hm : 0 < m) :
    (10 : ℚ) ^ (-331 : Int) < v ∧ v < 10 ^ (400 : Int) := by
  have hunit : (0 : ℚ) < 2 ^ q := by positivity
  have hmono : ∀ {i j : Int}, i ≤ j → (2 : ℚ) ^ i ≤ 2 ^ j :=
    fun h => zpow_le_zpow_right₀ (by norm_num) h
  have hhalf := lowerHalf_le m q
  have hleast : (10 : ℚ) ^ (-331 : Int) < 2 ^ (-1075 : Int) :=
    (@two_zpow_lt 1075 331 (by decide +kernel)).2
  have hgreatest := (@two_zpow_lt 1024 400 (by decide +kernel)).1
  rw [show ((1024 : Nat) : Int) = 1024 from rfl, show ((400 : Nat) : Int) = 400 from rfl]
    at hgreatest
  have hlow : (1 : ℚ) ≤ m := by exact_mod_cast hm
  have hhigh : (m : ℚ) + 1 ≤ 2 ^ 53 := by exact_mod_cast hshape.lt
  refine ⟨?_, ?_⟩
  · calc (10 : ℚ) ^ (-331 : Int) < 2 ^ (-1075 : Int) := hleast
      _ ≤ 2 ^ (q - 1) := hmono (by have := hshape.least; omega)
      _ = 1 / 2 * 2 ^ q := by
          rw [zpow_sub_one₀ (by norm_num)]
          ring
      _ ≤ ((m : ℚ) - lowerHalf m q) * 2 ^ q :=
          mul_le_mul_of_nonneg_right (by linarith) hunit.le
      _ ≤ v := h.low
  · calc v ≤ ((m : ℚ) + 1 / 2) * 2 ^ q := h.high
      _ ≤ 2 ^ 53 * 2 ^ q := mul_le_mul_of_nonneg_right (by linarith) hunit.le
      _ = 2 ^ (53 + q) := by
          rw [zpow_add₀ (by norm_num), show (2 : ℚ) ^ (53 : Int) = 2 ^ 53 by norm_num]
      _ ≤ 2 ^ (1024 : Int) := hmono (by have := hshape.greatest; omega)
      _ < 10 ^ (400 : Int) := hgreatest

/-- **Reading a decimal** that rounds to a double. -/
theorem ofDecimal_eq (h : decode x = .finite negative m q) (hm : 0 < m) {d : Nat} {e : Int}
    (hd : 0 < d) (hv : RoundsTo m q (d * 10 ^ e)) : ofDecimal negative d e = x := by
  have hshape := shaped_of_decodeBits h
  obtain ⟨hlow, hhigh⟩ := decimal_bounds hd e
  obtain ⟨hleast, hgreatest⟩ := hv.range hshape hm
  have hsmall : -331 < ((toString d).length : Int) + e :=
    (zpow_lt_zpow_iff_right₀ (by norm_num : (1 : ℚ) < 10)).1 (hleast.trans hhigh)
  have hlarge : ((toString d).length : Int) + e - 1 < 400 :=
    (zpow_lt_zpow_iff_right₀ (by norm_num : (1 : ℚ) < 10)).1 (hlow.trans_lt hgreatest)
  have hbits : ∀ num den : Nat, 0 < den → (num : ℚ) / den = d * 10 ^ e →
      nearest negative num den = x := by
    intro num den hden hvalue
    exact nearest_eq h (nearestBits_eq hshape hm hden (by rw [hvalue]; exact hv))
  unfold ofDecimal
  dsimp only
  have hsize : (decide (d = 0) || decide (((toString d).length : Int) + e < -330)) = false := by
    rw [Bool.or_eq_false_iff, decide_eq_false_iff_not, decide_eq_false_iff_not]
    omega
  rw [if_neg (by rw [hsize]; decide), if_neg (by omega)]
  split
  · next he =>
    obtain ⟨k, rfl⟩ := Int.eq_ofNat_of_zero_le he
    refine hbits _ _ (by decide) ?_
    simp
  · next he =>
    obtain ⟨k, hk⟩ := Int.eq_ofNat_of_zero_le (show 0 ≤ -e by omega)
    obtain rfl : e = -(k : Int) := by omega
    refine hbits _ _ (Nat.pow_pos (by decide)) ?_
    simp [div_eq_mul_inv]

theorem ofDecimal_zero (h : decode x = .finite negative 0 q) (e : Int) :
    ofDecimal negative 0 e = x := by
  have hq : q = -1074 := by
    rcases (shaped_of_decodeBits h).normal with hnormal | hleast
    · omega
    · exact hleast
  have hbits : nearestBits 0 1 = (q + 1074).toNat * 2 ^ 52 + 0 := by
    rw [hq]
    decide
  rw [ofDecimal, if_pos (by simp)]
  exact nearest_eq h hbits

/-! ## Infinite doubles, and not-a-number -/

theorem infinity_eq (h : decode x = .infinite negative) : infinity negative = x := by
  have hbits : nearestBits (Nat.pow 2 1100) 1 = 2047 * 2 ^ 52 := by decide +kernel
  have hlt := x.toBits.toNat_lt
  rw [infinity, nearest, hbits, Nat.pow_eq]
  refine ofBits_eq ?_
  simp only [decode, decodeBits, Nat.pow_eq] at h
  split at h
  · split at h
    · obtain rfl := Decoded.infinite.inj h
      by_cases hsign : x.toBits.toNat / 2 ^ 63 % 2 = 1
      · simp only [hsign, beq_self_eq_true, if_true]
        omega
      · simp only [beq_eq_false_iff_ne.2 hsign, Bool.false_eq_true, if_false]
        omega
    · simp at h
  · split at h <;> simp at h

/-- There is only one double that is not a number. -/
theorem nan_eq (h : decode x = .nan) : nan = x := by
  let b : BitVec Format.binary64.numBits := x.toBits.toBitVec
  have hexponent : (unpackExponent b).toNat = x.toBits.toNat / 2 ^ 52 % 2 ^ 11 := by
    simp [unpackExponent, b, Nat.shiftRight_eq_div_pow]
  have hmantissa : (unpackMantissa b).toNat = x.toBits.toNat % 2 ^ 52 := by
    simp [unpackMantissa, b]
  have hparts : x.toBits.toNat / 2 ^ 52 % 2 ^ 11 = 2047 ∧ x.toBits.toNat % 2 ^ 52 ≠ 0 := by
    simp only [decode, decodeBits, Nat.pow_eq] at h
    split at h
    · next hexp =>
      split at h
      · simp at h
      · next hne => exact ⟨hexp, hne⟩
    · split at h <;> simp at h
  have hbits : b = packedNaN .binary64 := by
    refine x.toModel.valid.eq_packedNaN ?_ ?_
    · exact BitVec.eq_of_toNat_eq (hexponent.trans hparts.1)
    · intro hzero
      have hzero : unpackMantissa b = 0 := hzero
      rw [hzero] at hmantissa
      exact hparts.2 hmantissa.symm
  have hnan : (0x7ff8000000000000 : UInt64).toBitVec = packedNaN .binary64 := by decide
  rw [← Float.ofBits_toBits x, nan]
  exact congrArg Float.ofBits (UInt64.toBitVec_inj.1 (hnan.trans hbits.symm))

end Retrace.Decimal
