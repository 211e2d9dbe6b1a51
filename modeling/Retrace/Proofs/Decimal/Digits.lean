/-
Plain digits.

Digits are read one after the other, so the value of two runs of digits in a row is that of the
first, moved up by the length of the second, and that of the second. Zeros at the front do not
count, and zeros at the end move the others up.
-/
import Mathlib.Algebra.Group.Nat.Defs
import Mathlib.Data.List.Induction
import Retrace.Decimal.Numeral

set_option autoImplicit false

namespace Retrace.Decimal

theorem plainValue_eq (cs : List Char) : plainValue cs = Nat.ofDigitChars 10 cs 0 := by
  simp [plainValue, numeralValue, Nat.ofDigitChars_eq_foldl, List.foldl_map]

/-- The digits of a number have its value. -/
theorem plainValue_toDigits (n : Nat) : plainValue (Nat.toDigits 10 n) = n := by
  rw [plainValue_eq, Nat.ofDigitChars_ten_toDigits]

/-- Digits in front count by the number of digits behind them. -/
theorem plainValue_append (cs ds : List Char) :
    plainValue (cs ++ ds) = 10 ^ ds.length * plainValue cs + plainValue ds := by
  rw [plainValue_eq, plainValue_eq, plainValue_eq, Nat.ofDigitChars_append,
    Nat.ofDigitChars_eq_ofDigitChars_zero]

@[simp] theorem plainValue_zeros (k : Nat) : plainValue (List.replicate k '0') = 0 := by
  rw [plainValue_eq, Nat.ofDigitChars_replicate_zero, Nat.mul_zero]

theorem plainValue_lt {cs : List Char} (h : ∀ c ∈ cs, c.isDigit = true) :
    plainValue cs < 10 ^ cs.length := by
  induction cs using List.reverseRecOn with
  | nil => decide
  | append_singleton cs c ih =>
    have hc : c.toNat ≤ 57 := by
      have hdigit := h c (by simp)
      simp only [Char.isDigit, Bool.and_eq_true, decide_eq_true_eq] at hdigit
      exact hdigit.2
    have hcs := ih fun d hd => h d (by simp [hd])
    have hvalue : plainValue [c] = c.toNat - 48 := by simp [plainValue, numeralValue]
    rw [plainValue_append, hvalue, List.length_append, List.length_singleton, Nat.pow_succ]
    omega

/-- A number that is not zero is not written with a zero in front. -/
theorem head?_toDigits_ne {n : Nat} (hn : 0 < n) : (Nat.toDigits 10 n).head? ≠ some '0' := by
  intro hhead
  obtain ⟨more, hmore⟩ := List.head?_eq_some_iff.1 hhead
  have hdigits : ∀ c ∈ more, c.isDigit = true := by
    intro c hc
    have hmem : c ∈ Nat.toDigits 10 n := by
      rw [hmore]
      exact List.mem_cons_of_mem _ hc
    exact Nat.isDigit_of_mem_toDigits (by decide) (by decide) hmem
  have hvalue : n = plainValue more := by
    have happend := plainValue_append ['0'] more
    rw [List.singleton_append, ← hmore, plainValue_toDigits] at happend
    simpa [plainValue, numeralValue] using happend
  have hlt := plainValue_lt hdigits
  rw [← hvalue] at hlt
  rcases Nat.eq_zero_or_pos more.length with hzero | hpos
  · rw [hzero] at hlt
    omega
  · have hlength := (Nat.length_toDigits_le_iff (by decide) hpos).2 hlt
    rw [hmore, List.length_cons] at hlength
    omega

/-- Digits are read up to the first character that is none. -/
theorem plainDigits_append {cs rest : List Char} (hcs : ∀ c ∈ cs, c.isDigit = true)
    (hrest : ∀ c ∈ rest.head?, c.isDigit = false) : plainDigits (cs ++ rest) = (cs, rest) := by
  rw [plainDigits, List.takeWhile_append_of_pos hcs, List.dropWhile_append_of_pos hcs]
  cases rest with
  | nil => simp
  | cons c more =>
    have hc := hrest c rfl
    simp [hc]

end Retrace.Decimal
