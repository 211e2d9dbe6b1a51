/-
Written numbers are read back.

A number is read up to the first character that cannot go on with it (`EndsNumber`). Decimal
numbers are written in one of two layouts, and both are a run of digits, maybe a point and more
digits, and maybe an exponent (`numeral`). The digits of the layout and its power of ten make up the
shortest decimal of the double, so what is read is the double (`number_text`).
-/
import Mathlib.Data.List.TakeWhile
import Retrace.Json.Reader
import Retrace.Json.Writer
import Retrace.Proofs.Decimal.Digits
import Retrace.Proofs.Decimal.Read
import Retrace.Proofs.Decimal.Shortest

set_option autoImplicit false

namespace Retrace

open Decimal

namespace Json

/-! ## Where a number ends -/

/-- A text that does not go on with a number. -/
def EndsNumber (rest : List Char) : Prop :=
  ∀ c ∈ rest.head?, c.isDigit = false ∧ c ≠ '.' ∧ c ≠ 'e' ∧ c ≠ 'E'

theorem EndsNumber.not_isDigit {rest : List Char} (h : EndsNumber rest) :
    ∀ c ∈ rest.head?, c.isDigit = false := fun c hc => (h c hc).1

/-- Without a point there is no fraction. -/
theorem fractionDigits_none {cs : List Char} (h : ∀ c ∈ cs.head?, c ≠ '.') :
    fractionDigits cs = none := by
  unfold fractionDigits
  split
  · exact absurd rfl (h '.' rfl)
  · rfl

/-- Without the letter there is no exponent. -/
theorem exponentNumber_none {cs : List Char} (h : ∀ c ∈ cs.head?, c ≠ 'e' ∧ c ≠ 'E') :
    exponentNumber cs = none := by
  unfold exponentNumber
  split
  · next c rest =>
    obtain ⟨he, hE⟩ := h c rfl
    rw [if_neg (by simp [he, hE])]
  · rfl

/-- A fraction is read up to the first character that is no digit. -/
theorem fractionDigits_append {ds rest : List Char} (hne : ds ≠ [])
    (hds : ∀ c ∈ ds, c.isDigit = true) (hrest : ∀ c ∈ rest.head?, c.isDigit = false) :
    fractionDigits ('.' :: (ds ++ rest)) = some (ds, rest) := by
  rw [fractionDigits, plainDigits_append hds hrest]
  simp [hne]

/-- An exponent as it is written: its mark, its sign and its digits. -/
def exponentText (negative : Bool) (ds : List Char) : List Char :=
  'e' :: (if negative then '-' else '+') :: ds

/-- An exponent is read with its sign, up to the first character that is no digit. -/
theorem exponentNumber_append (negative : Bool) {ds rest : List Char} (hne : ds ≠ [])
    (hds : ∀ c ∈ ds, c.isDigit = true) (hrest : ∀ c ∈ rest.head?, c.isDigit = false) :
    exponentNumber (exponentText negative ds ++ rest)
      = some (if negative then -(plainValue ds : Int) else plainValue ds, rest) := by
  have hsign : splitSign ((if negative then '-' else '+') :: (ds ++ rest))
      = (negative, ds ++ rest) := by
    cases negative <;> rfl
  rw [exponentText, List.cons_append, List.cons_append, exponentNumber]
  simp only [hsign, plainDigits_append hds hrest]
  simp [hne]

/-- The digits before a point are a zero, or do not begin with one. -/
def IsWhole (cs : List Char) : Prop :=
  cs = ['0'] ∨ cs ≠ [] ∧ cs.head? ≠ some '0' ∧ ∀ c ∈ cs, c.isDigit = true

/-- A whole number is read up to the first character that is no digit. -/
theorem wholeDigits_append {whole rest : List Char} (h : IsWhole whole)
    (hrest : ∀ c ∈ rest.head?, c.isDigit = false) :
    wholeDigits (whole ++ rest) = (whole, rest) := by
  rcases h with rfl | ⟨hne, hhead, hdigits⟩
  · rfl
  · obtain ⟨c, more, rfl⟩ := List.exists_cons_of_ne_nil hne
    have hc : c ≠ '0' := by simpa using hhead
    rw [← plainDigits_append hdigits hrest]
    unfold wholeDigits
    split
    · next heq =>
      rw [List.cons_append] at heq
      exact absurd (List.cons.inj heq).1 hc
    · rfl

theorem IsWhole.ne_nil {whole : List Char} (h : IsWhole whole) : whole ≠ [] := by
  rcases h with rfl | ⟨hne, -⟩
  · simp
  · exact hne

theorem IsWhole.isDigit {whole : List Char} (h : IsWhole whole) :
    ∀ c ∈ whole, c.isDigit = true := by
  rcases h with rfl | ⟨-, -, hdigits⟩
  · simp
  · exact hdigits

/-- The sign in front of a number. -/
def signText (negative : Bool) : List Char := if negative then ['-'] else []

/-- What is read behind the sign and the digits before the point. The text `cs` is the whole
number, for reports. -/
def numberBehind (negative : Bool) (whole left cs : List Char) :
    Except ReadError (Json × List Char) :=
  let fraction := fractionDigits left
  let behind := (fraction.map (·.2)).getD left
  let exponent := exponentNumber behind
  let rest := (exponent.map (·.2)).getD behind
  if fraction.isNone && exponent.isNone then
    if Decimal.maxDigits < whole.length then .error ⟨.tooManyDigits, cs⟩
    else .ok (.int (if negative then -(plainValue whole : Int) else plainValue whole), rest)
  else
    let after := (fraction.map (·.1)).getD []
    .ok (.float (ofDecimal negative (plainValue (whole ++ after))
      ((exponent.map (·.1)).getD 0 - after.length)), rest)

/-- Where a digit comes first there is a whole number, be it nothing but a zero. -/
theorem wholeDigits_ne_nil {d : Char} (hd : d.isDigit = true) (more : List Char) :
    (wholeDigits (d :: more)).1 ≠ [] := by
  unfold wholeDigits
  split
  · simp
  · simp [plainDigits, hd]

/-- Reading a number from its sign on. -/
theorem number_signText (negative : Bool) {d : Char} (hd : d.isDigit = true) (more : List Char) :
    number (signText negative ++ d :: more)
      = numberBehind negative (wholeDigits (d :: more)).1 (wholeDigits (d :: more)).2
        (signText negative ++ d :: more) := by
  have hne : (wholeDigits (d :: more)).1.isEmpty = false := by
    simpa using wholeDigits_ne_nil hd more
  have hminus : d ≠ '-' := by
    rintro rfl
    exact absurd hd (by decide)
  unfold number numberBehind signText
  cases negative with
  | true =>
    simp only [if_true, List.cons_append, List.nil_append, hne, Bool.false_eq_true, if_false]
  | false =>
    simp only [Bool.false_eq_true, if_false, List.nil_append]
    split
    · next heq => exact absurd (List.cons.inj heq).1 hminus
    · simp only [hne, Bool.false_eq_true, if_false]

/-- The sign and the whole number come first, and what is behind them tells what number it is. -/
theorem number_of_whole (negative : Bool) {whole left : List Char} (hwhole : IsWhole whole)
    (hleft : ∀ c ∈ left.head?, c.isDigit = false) :
    number (signText negative ++ (whole ++ left))
      = numberBehind negative whole left (signText negative ++ (whole ++ left)) := by
  have hread := wholeDigits_append hwhole hleft
  obtain ⟨d, more, rfl⟩ := List.exists_cons_of_ne_nil hwhole.ne_nil
  rw [List.cons_append] at hread ⊢
  rw [number_signText negative (hwhole.isDigit d (by simp)), hread]

/-- **Reading a whole number.** It may have too many digits. -/
theorem number_int (negative : Bool) {whole rest : List Char} (hwhole : IsWhole whole)
    (hrest : EndsNumber rest) :
    number (signText negative ++ (whole ++ rest))
      = if Decimal.maxDigits < whole.length then
          .error ⟨.tooManyDigits, signText negative ++ (whole ++ rest)⟩
        else
          .ok (.int (if negative then -(plainValue whole : Int) else plainValue whole), rest) := by
  have hfraction : fractionDigits rest = none := fractionDigits_none fun c hc => (hrest c hc).2.1
  have hexponent : exponentNumber rest = none := exponentNumber_none fun c hc => (hrest c hc).2.2
  rw [number_of_whole negative hwhole hrest.not_isDigit]
  simp [numberBehind, hfraction, hexponent]

/-! ## Numerals -/

/-- An exponent, if there is one. -/
def exponentPart? (exponent : Option (Bool × List Char)) : List Char :=
  (exponent.map fun e => exponentText e.1 e.2).getD []

/-- The digits behind a point, if there are any. -/
def fractionText (fraction : List Char) : List Char :=
  if fraction = [] then [] else '.' :: fraction

/-- The power of ten in the exponent. -/
def exponentValue (exponent : Option (Bool × List Char)) : Int :=
  (exponent.map fun e => if e.1 then -(plainValue e.2 : Int) else plainValue e.2).getD 0

/-- **Reading a decimal number** that has a point or an exponent. -/
theorem number_float (negative : Bool) {whole fraction rest : List Char}
    {exponent : Option (Bool × List Char)} (hwhole : IsWhole whole)
    (hfraction : ∀ c ∈ fraction, c.isDigit = true)
    (hexponent : ∀ e ∈ exponent, e.2 ≠ [] ∧ ∀ c ∈ e.2, c.isDigit = true)
    (hfloat : fraction ≠ [] ∨ exponent ≠ none) (hrest : EndsNumber rest) :
    number (signText negative
        ++ (whole ++ (fractionText fraction ++ (exponentPart? exponent ++ rest))))
      = .ok (.float (ofDecimal negative (plainValue (whole ++ fraction))
          (exponentValue exponent - fraction.length)), rest) := by
  -- what follows the digits behind the point goes on neither with them nor with a point
  have hafter : ∀ c ∈ (exponentPart? exponent ++ rest).head?, c.isDigit = false ∧ c ≠ '.' := by
    cases exponent with
    | none => exact fun c hc => ⟨(hrest c hc).1, (hrest c hc).2.1⟩
    | some e =>
      intro c hc
      obtain rfl : 'e' = c := by simpa [exponentPart?, exponentText] using hc
      decide
  have hread : exponentNumber (exponentPart? exponent ++ rest)
      = exponent.map fun e =>
        (if e.1 then -(plainValue e.2 : Int) else (plainValue e.2 : Int), rest) := by
    cases exponent with
    | none => exact exponentNumber_none fun c hc => (hrest c hc).2.2
    | some e =>
      obtain ⟨hne, hdigits⟩ := hexponent e rfl
      exact exponentNumber_append e.1 hne hdigits hrest.not_isDigit
  by_cases hnone : fraction = []
  · subst hnone
    obtain ⟨e, rfl⟩ := Option.ne_none_iff_exists'.1 (hfloat.resolve_left (by simp))
    have hpoint : fractionDigits (exponentPart? (some e) ++ rest) = none :=
      fractionDigits_none fun c hc => (hafter c hc).2
    rw [fractionText, if_pos rfl, List.nil_append,
      number_of_whole negative hwhole fun c hc => (hafter c hc).1]
    simp [numberBehind, hpoint, hread, exponentValue]
  · have hpoint := fractionDigits_append hnone hfraction fun c hc => (hafter c hc).1
    have hhead : ∀ c ∈ ('.' :: (fraction ++ (exponentPart? exponent ++ rest))).head?,
        c.isDigit = false := by
      intro c hc
      obtain rfl : '.' = c := by simpa using hc
      decide
    rw [fractionText, if_neg hnone, List.cons_append, number_of_whole negative hwhole hhead]
    simp only [numberBehind, hpoint, Option.map_some, Option.getD_some, hread]
    cases exponent <;> simp [exponentValue, exponentPart?]

/-! ## Layouts -/

/-- The digits of a double: they do not begin with a zero. -/
structure IsDigits (digits : List Char) : Prop where
  ne_nil : digits ≠ []
  head : digits.head? ≠ some '0'
  isDigit : ∀ c ∈ digits, c.isDigit = true

/-- The text is a decimal number of the given value. -/
def Spells (v : ℚ) (cs : List Char) : Prop :=
  ∃ (whole fraction : List Char) (exponent : Option (Bool × List Char)),
    cs = whole ++ (fractionText fraction ++ exponentPart? exponent) ∧ IsWhole whole
      ∧ (∀ c ∈ fraction, c.isDigit = true)
      ∧ (∀ e ∈ exponent, e.2 ≠ [] ∧ ∀ c ∈ e.2, c.isDigit = true)
      ∧ (fraction ≠ [] ∨ exponent ≠ none)
      ∧ (plainValue (whole ++ fraction) : ℚ) * 10 ^ (exponentValue exponent - fraction.length) = v

theorem isDigit_zeros (k : Nat) : ∀ c ∈ List.replicate k '0', c.isDigit = true := by
  intro c hc
  rw [List.eq_of_mem_replicate hc]
  decide

section Positional

variable {digits : List Char}

/-- In front of the digits, the point is followed by zeros. -/
theorem spells_zeros_append (h : IsDigits digits) (k : Nat) :
    Spells (plainValue digits * 10 ^ (-(k : Int) - digits.length))
      ('0' :: '.' :: (List.replicate k '0' ++ digits)) := by
  refine ⟨['0'], List.replicate k '0' ++ digits, none, ?_, .inl rfl, ?_, by simp, ?_, ?_⟩
  · simp [fractionText, exponentPart?, h.ne_nil]
  · exact List.forall_mem_append.2 ⟨isDigit_zeros k, h.isDigit⟩
  · exact .inl (by simp [h.ne_nil])
  · have hzeros : plainValue (['0'] ++ (List.replicate k '0' ++ digits)) = plainValue digits := by
      rw [← List.append_assoc, plainValue_append, List.singleton_append, ← List.replicate_succ,
        plainValue_zeros, Nat.mul_zero, Nat.zero_add]
    rw [hzeros]
    congr 2
    simp [exponentValue]
    ring

/-- The first digits make a whole number, also with zeros behind them. -/
theorem isWhole_take_append (h : IsDigits digits) {p : Nat} (hp : p ≠ 0) (k : Nat) :
    IsWhole (digits.take p ++ List.replicate k '0') := by
  refine .inr ⟨?_, ?_, ?_⟩
  · simp [h.ne_nil, hp]
  · obtain ⟨c, more, hdigits⟩ := List.exists_cons_of_ne_nil h.ne_nil
    obtain ⟨p, rfl⟩ := Nat.exists_eq_succ_of_ne_zero hp
    have hhead := h.head
    rw [hdigits] at hhead ⊢
    simpa using hhead
  · exact List.forall_mem_append.2
      ⟨fun c hc => h.isDigit c (List.mem_of_mem_take hc), isDigit_zeros k⟩

/-- The point stands among the digits. -/
theorem spells_take_drop (h : IsDigits digits) {p : Nat} (hp : p ≠ 0) (hlt : p < digits.length) :
    Spells (plainValue digits * 10 ^ ((p : Int) - digits.length))
      (digits.take p ++ '.' :: digits.drop p) := by
  have hdrop : digits.drop p ≠ [] := by simpa using hlt
  have hwhole : IsWhole (digits.take p) := by simpa using isWhole_take_append h hp 0
  refine ⟨_, digits.drop p, none, ?_, hwhole, ?_, by simp, .inl hdrop, ?_⟩
  · simp [fractionText, exponentPart?, hdrop]
  · exact fun c hc => h.isDigit c (List.mem_of_mem_drop hc)
  · rw [List.take_append_drop, List.length_drop]
    congr 2
    simp only [exponentValue, Option.map_none, Option.getD_none]
    omega

/-- The digits are filled up with zeros, and one more stands behind the point. -/
theorem spells_append_zeros (h : IsDigits digits) {p : Nat} (hp : p ≠ 0)
    (hge : digits.length ≤ p) :
    Spells (plainValue digits * 10 ^ ((p : Int) - digits.length))
      (digits ++ List.replicate (p - digits.length) '0' ++ ['.', '0']) := by
  have hwhole := isWhole_take_append h hp (p - digits.length)
  rw [List.take_of_length_le hge] at hwhole
  refine ⟨_, ['0'], none, ?_, hwhole, by simp, by simp, .inl (by simp), ?_⟩
  · simp [fractionText, exponentPart?]
  · rw [List.append_assoc, ← List.replicate_succ',
      plainValue_append, plainValue_zeros, Nat.add_zero, List.length_replicate]
    simp only [exponentValue, Option.map_none, Option.getD_none, List.length_singleton]
    push_cast
    rw [mul_comm ((10 : ℚ) ^ _), mul_assoc, ← zpow_natCast, ← zpow_add₀ (by norm_num)]
    congr 2
    push_cast [Nat.cast_sub hge]
    ring

/-- The digits stand for their number, wherever the point is put among them or zeros are added. -/
theorem spells_positional (h : IsDigits digits) (point : Int) :
    Spells (plainValue digits * 10 ^ (point - digits.length)) (positional digits point) := by
  unfold positional
  split
  · next hpoint =>
    obtain ⟨k, hk⟩ := Int.eq_ofNat_of_zero_le (show 0 ≤ -point by omega)
    obtain rfl : point = -(k : Int) := by omega
    simpa using spells_zeros_append h k
  · next hpoint =>
    obtain ⟨p, rfl⟩ := Int.eq_ofNat_of_zero_le (show 0 ≤ point by omega)
    have hp : p ≠ 0 := by omega
    dsimp only [Int.toNat_natCast]
    rcases Nat.lt_or_ge p digits.length with hlt | hge
    · have hdrop : digits.drop p ≠ [] := by simpa using hlt
      have hzeros : p - min p digits.length = 0 := by omega
      simpa [hzeros, hdrop] using spells_take_drop h hp hlt
    · have hdrop : digits.drop p = [] := List.drop_eq_nil_iff.2 hge
      simpa [hdrop, List.take_of_length_le hge] using spells_append_zeros h hp hge

end Positional

/-- The digits of an exponent, filled up with zeros at the front. -/
def exponentDigits (exponent : Int) : List Char :=
  let size := (toString exponent.natAbs).toList
  List.replicate (layout.exponentWidth - size.length) '0' ++ size

theorem plainValue_exponentDigits (exponent : Int) :
    plainValue (exponentDigits exponent) = exponent.natAbs := by
  simp [exponentDigits, plainValue_append, plainValue_toDigits]

theorem exponentDigits_ne_nil (exponent : Int) : exponentDigits exponent ≠ [] := by
  simp [exponentDigits]

theorem isDigit_exponentDigits (exponent : Int) :
    ∀ c ∈ exponentDigits exponent, c.isDigit = true := by
  intro c hc
  rw [exponentDigits, Nat.toString_eq_repr, Nat.toList_repr] at hc
  rcases List.mem_append.1 hc with hc | hc
  · exact isDigit_zeros _ c hc
  · exact Nat.isDigit_of_mem_toDigits (by decide) (by decide) hc

/-- The digits stand for their number with the point behind the first one and an exponent. -/
theorem spells_exponential {digits : List Char} (h : IsDigits digits) (point : Int) :
    Spells (plainValue digits * 10 ^ (point - digits.length))
      (exponential layout digits point) := by
  have hexponent : exponentValue (some (decide (point - 1 < 0), exponentDigits (point - 1)))
      = point - 1 := by
    simp only [exponentValue, Option.map_some, Option.getD_some, plainValue_exponentDigits,
      decide_eq_true_eq, Int.natCast_natAbs]
    split
    · next hneg => rw [abs_of_neg hneg, neg_neg]
    · next hpos => exact abs_of_nonneg (not_lt.1 hpos)
  have hread : ∀ e ∈ some (decide (point - 1 < 0), exponentDigits (point - 1)),
      e.2 ≠ [] ∧ ∀ c ∈ e.2, c.isDigit = true := by
    intro e he
    rw [← Option.some.inj he]
    exact ⟨exponentDigits_ne_nil _, isDigit_exponentDigits _⟩
  have hfirst : ∀ {d more}, digits = d :: more → IsWhole [d] := by
    rintro d more rfl
    have hhead := h.head
    have hdigit := h.isDigit d
    exact .inr (by simpa using ⟨by simpa using hhead, by simpa using hdigit⟩)
  match digits, h.ne_nil with
  | [d], _ =>
    refine ⟨[d], [], some (decide (point - 1 < 0), exponentDigits (point - 1)), ?_, hfirst rfl,
      by simp, hread, .inr (by simp), ?_⟩
    · simp [exponential, fractionText, exponentPart?, exponentText, exponentDigits]
    · rw [hexponent]
      simp
  | d :: e :: more, _ =>
    refine ⟨[d], e :: more, some (decide (point - 1 < 0), exponentDigits (point - 1)), ?_,
      hfirst rfl, fun c hc => h.isDigit c (List.mem_cons_of_mem _ hc), hread, .inr (by simp), ?_⟩
    · simp [exponential, fractionText, exponentPart?, exponentText, exponentDigits]
    · rw [hexponent]
      simp only [List.singleton_append, List.length_cons]
      congr 2
      push_cast
      ring

/-! ## Doubles -/

/-- Zeros at the end are all that is dropped of the digits. -/
theorem exists_zeros (digits : List Char) :
    ∃ k, digits = (digits.reverse.dropWhile (· = '0')).reverse ++ List.replicate k '0' := by
  refine ⟨(digits.reverse.takeWhile (· = '0')).length, ?_⟩
  have hzeros : digits.reverse.takeWhile (· = '0')
      = List.replicate (digits.reverse.takeWhile (· = '0')).length '0' := by
    refine List.eq_replicate_iff.2 ⟨rfl, fun c hc => ?_⟩
    simpa using List.mem_takeWhile_imp hc
  rw [← List.reverse_replicate, ← hzeros, ← List.reverse_append, List.takeWhile_append_dropWhile,
    List.reverse_reverse]

/-- The digits of a double and the place of their point make up a decimal that rounds to it. -/
theorem shortestDigits_spec {m : Nat} {q : Int} (hshape : Shaped m q) (hm : 0 < m) :
    IsDigits (shortestDigits m q).1 ∧
      RoundsTo m q (plainValue (shortestDigits m q).1
        * 10 ^ ((shortestDigits m q).2 - (shortestDigits m q).1.length)) := by
  have hrounds := firstGridPoint_spec hshape hm (show 1 + 16 = 17 from rfl)
  unfold shortestDigits
  dsimp only
  rw [Nat.toString_eq_repr, Nat.toList_repr]
  set d := (firstGridPoint m q (pointPosition m q) 1 16).1
  set e := (firstGridPoint m q (pointPosition m q) 1 16).2
  have hd : 0 < d := by
    have hpos := hrounds.pos hm
    by_contra hzero
    rw [show d = 0 by omega] at hpos
    simp at hpos
  obtain ⟨k, hk⟩ := exists_zeros (Nat.toDigits 10 d)
  set digits := ((Nat.toDigits 10 d).reverse.dropWhile (· = '0')).reverse
  have hvalue : d = 10 ^ k * plainValue digits := by
    have happend := plainValue_append digits (List.replicate k '0')
    rwa [← hk, plainValue_toDigits, plainValue_zeros, Nat.add_zero,
      List.length_replicate] at happend
  have hne : digits ≠ [] := by
    intro hnil
    rw [hnil, show plainValue [] = 0 from rfl] at hvalue
    omega
  refine ⟨⟨hne, ?_, ?_⟩, ?_⟩
  · have hhead := head?_toDigits_ne hd
    rwa [hk, List.head?_append_of_ne_nil _ hne] at hhead
  · intro c hc
    have hmem : c ∈ Nat.toDigits 10 d := by
      rw [hk]
      exact List.mem_append_left _ hc
    exact Nat.isDigit_of_mem_toDigits (by decide) (by decide) hmem
  · have hlength : (Nat.toDigits 10 d).length = digits.length + k := by
      conv_lhs => rw [hk]
      simp
    rw [hlength, show ((digits.length + k : Nat) : Int) + e - digits.length = k + e by
      push_cast; ring, zpow_add₀ (by norm_num), zpow_natCast, ← mul_assoc]
    rw [hvalue] at hrounds
    push_cast at hrounds
    rwa [mul_comm ((plainValue digits : ℚ))]

/-- **Reading a printed double.** -/
theorem number_text {x : Float} {negative : Bool} {m : Nat} {q : Int}
    (h : decode x = .finite negative m q) {rest : List Char} (hrest : EndsNumber rest) :
    number ((Decimal.text x).toList ++ rest) = .ok (.float x, rest) := by
  have hsign : ∀ body : List Char,
      (String.ofList (if negative then '-' :: body else body)).toList
        = signText negative ++ body := by
    intro body
    rw [String.toList_ofList]
    cases negative <;> rfl
  simp only [Decimal.text, h, hsign, List.append_assoc]
  split
  · next hzero =>
    subst hzero
    have hread := @number_float negative ['0'] ['0'] rest none (.inl rfl) (by simp) (by simp)
      (.inl (by simp)) hrest
    exact hread.trans (by rw [show plainValue (['0'] ++ ['0']) = 0 from rfl, ofDecimal_zero h])
  · next hzero =>
    have hm : 0 < m := Nat.pos_of_ne_zero hzero
    obtain ⟨hdigits, hrounds⟩ := shortestDigits_spec (shaped_of_decodeBits h) hm
    have hread : ∀ body, Spells (plainValue (shortestDigits m q).1
          * 10 ^ ((shortestDigits m q).2 - (shortestDigits m q).1.length)) body →
        number (signText negative ++ (body ++ rest)) = .ok (.float x, rest) := by
      rintro _ ⟨whole, fraction, exponent, rfl, hwhole, hfraction, hexponent, hfloat, hvalue⟩
      rw [← hvalue] at hrounds
      have hpos : 0 < plainValue (whole ++ fraction) := by
        by_contra hnot
        have hlt := hrounds.pos hm
        rw [show plainValue (whole ++ fraction) = 0 by omega] at hlt
        simp at hlt
      simp only [List.append_assoc]
      rw [number_float negative hwhole hfraction hexponent hfloat hrest,
        ofDecimal_eq h hm hpos hrounds]
    split
    · exact hread _ (spells_positional hdigits _)
    · exact hread _ (spells_exponential hdigits _)

end Json

end Retrace
