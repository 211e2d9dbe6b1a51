/-
Names are read back as they were written.

Writing a name escapes one character at a time, and reading takes one character or escape at a
time, so the argument goes character by character: `SpellsChar` says that a piece of text is read
as one character whatever comes behind it, and a name is a row of such pieces. The one thing that
must be known of what follows is that it does not go on with the name (`EndsName`).

A numbered escape ends with a blank of its own, which reading takes along. So it makes no
difference whether a combinator or another digit follows.

Two sorts of characters are not read back. U+0000 has no written form, and the controls from
U+0080 to U+009F are written as they are but may not stand in a name.
-/
import Mathlib.Data.List.Forall2
import Retrace.Selector.Reader

set_option autoImplicit false

namespace Retrace.Selector

/-! ## What can be spelled -/

/-- Does the character survive being written and read? -/
def IsSpellable (c : Char) : Prop := c ≠ '\x00' ∧ ¬ (0x80 ≤ c.toNat ∧ c.toNat ≤ 0x9f)

instance (c : Char) : Decidable (IsSpellable c) := inferInstanceAs (Decidable (_ ∧ _))

/-- Do all characters of the name survive? -/
def Spellable (name : String) : Prop := ∀ c ∈ name.toList, IsSpellable c

-- by the list, and not by a search through all characters
instance (name : String) : Decidable (Spellable name) := List.decidableBAll _ name.toList

/-- A text that does not go on with a name in front of it, and does not make it that of a
language. -/
def EndsName (rest : List Char) : Prop :=
  ∀ c ∈ rest.head?, isNameChar c = false ∧ c ≠ '\\' ∧ c ≠ '|'

/-- The text is read as one character of a name, in one step. -/
def SpellsChar (text : List Char) (c : Char) : Prop :=
  ∀ fuel rest, readNameChars (fuel + 1) (text ++ rest)
    = (c :: (readNameChars fuel rest).1, (readNameChars fuel rest).2)

/-! ## Characters -/

theorem isUpper_iff_toNat {c : Char} : c.isUpper = true ↔ 65 ≤ c.toNat ∧ c.toNat ≤ 90 := by
  have hrange : c.isUpper = decide ('A'.val ≤ c.val ∧ c.val ≤ 'Z'.val) := rfl
  rw [hrange, decide_eq_true_iff, UInt32.le_iff_toNat_le, UInt32.le_iff_toNat_le]
  rfl

theorem isLower_iff_toNat {c : Char} : c.isLower = true ↔ 97 ≤ c.toNat ∧ c.toNat ≤ 122 := by
  have hrange : c.isLower = (decide ('a'.val ≤ c.val) && decide (c.val ≤ 'z'.val)) := rfl
  rw [hrange, Bool.and_eq_true, decide_eq_true_iff, decide_eq_true_iff,
    UInt32.le_iff_toNat_le, UInt32.le_iff_toNat_le]
  rfl

theorem isAlpha_iff_toNat {c : Char} : c.isAlpha = true
    ↔ (65 ≤ c.toNat ∧ c.toNat ≤ 90) ∨ (97 ≤ c.toNat ∧ c.toNat ≤ 122) := by
  have hcases : c.isAlpha = (c.isUpper || c.isLower) := rfl
  rw [hcases, Bool.or_eq_true, isUpper_iff_toNat, isLower_iff_toNat]

theorem isDigit_iff_toNat {c : Char} : c.isDigit = true ↔ 48 ≤ c.toNat ∧ c.toNat ≤ 57 := by
  simp [Char.isDigit, UInt32.le_iff_toNat_le]

theorem isAlphanum_of_isHexDigit {c : Char} (h : isHexDigit c = true) : c.isAlphanum = true := by
  unfold isHexDigit Json.hexValue? at h
  simp only [Char.isAlphanum, Bool.or_eq_true, isAlpha_iff_toNat, isDigit_iff_toNat]
  simp only [Char.le_def, UInt32.le_iff_toNat_le, Bool.and_eq_true, decide_eq_true_eq,
    seval] at h
  simp only [Char.toNat]
  split_ifs at h with hdigit hsmall hcapital
  · omega
  · omega
  · omega
  · simp at h

/-! ## Escapes -/

/-- The digits of a number escape spell its number, and there are at most two of them. -/
theorem shortHex_spec : ∀ n < 128,
    (shortHex n).length ≤ 2 ∧ (shortHex n).all isHexDigit = true ∧ shortHex n ≠ []
      ∧ Json.hexNumber? (shortHex n) = some n := by
  decide

/-- A number escape is read up to and including its blank. -/
theorem readEscape?_shortHex {c : Char} (hlt : c.toNat < 128) (h0 : c ≠ '\x00')
    (rest : List Char) : readEscape? (shortHex c.toNat ++ ' ' :: rest) = some (c, rest) := by
  obtain ⟨hlen, hall, hne, hnum⟩ := shortHex_spec c.toNat hlt
  rw [List.all_eq_true] at hall
  have hrun : ((shortHex c.toNat ++ ' ' :: rest).take 6).takeWhile isHexDigit
      = shortHex c.toNat := by
    -- an escape has up to six digits, so the blank is still looked at, and ends the run
    obtain ⟨k, hk⟩ : ∃ k, 6 = (shortHex c.toNat).length + (k + 1) :=
      ⟨5 - (shortHex c.toNat).length, by omega⟩
    have hblank : isHexDigit ' ' = false := by decide
    rw [hk, List.take_length_add_append, List.takeWhile_append_of_pos hall]
    simp [hblank]
  have hchar : numberedChar c.toNat = c := by
    have hpos : c.toNat ≠ 0 := fun h => h0 (Char.toNat_inj.1 (by simpa using h))
    have hvalid : c.toNat.isValidChar := c.valid
    rw [numberedChar, if_pos (by simp [hpos, hvalid]), Char.ofNat_toNat]
  unfold readEscape?
  rw [hrun]
  cases hd : shortHex c.toNat with
  | nil => exact absurd hd hne
  | cons d ds =>
    have hsmall : c.toNat ≤ 0x10ffff := by omega
    rw [← hd]
    simp [hnum, hsmall, hchar, skipOneSpace, isSpace]

/-- Behind a backslash, a character that is neither a digit nor a line break stands for itself. -/
theorem readEscape?_cons {c : Char} (hhex : isHexDigit c = false)
    (hbreak : 0x20 ≤ c.toNat) (rest : List Char) : readEscape? (c :: rest) = some (c, rest) := by
  have hne : c ≠ '\n' ∧ c ≠ '\r' ∧ c ≠ '\x0c' := by
    refine ⟨?_, ?_, ?_⟩ <;> rintro rfl <;> exact absurd hbreak (by decide)
  simp [readEscape?, hhex, hne]

theorem spellsChar_self {c : Char} (h : isNameChar c = true) : SpellsChar [c] c := by
  intro fuel rest
  simp [readNameChars, h]

/-- What is read as an escape, with a backslash in front. -/
theorem spellsChar_escape {text : List Char} {c : Char}
    (h : ∀ rest, readEscape? (text ++ rest) = some (c, rest)) : SpellsChar ('\\' :: text) c := by
  intro fuel rest
  have hback : isNameChar '\\' = false := by decide
  simp [readNameChars, h, hback]

/-- The three ways in which a character is written. -/
theorem escapeChar_cases (atStart : Bool) {c : Char} (h : IsSpellable c) :
    (escapeChar atStart c = numberEscape c ∧ c.toNat < 128)
      ∨ (escapeChar atStart c = [c] ∧ isNameChar c = true ∧ (atStart = true → c.isDigit = false))
      ∨ (escapeChar atStart c = ['\\', c] ∧ isHexDigit c = false ∧ 0x20 ≤ c.toNat) := by
  obtain ⟨h0, hmid⟩ := h
  unfold escapeChar
  rw [if_neg h0]
  split_ifs with hlow hdigit hplain
  · refine .inl ⟨rfl, ?_⟩
    simp only [Bool.or_eq_true, decide_eq_true_eq] at hlow
    rcases hlow with hlow | rfl
    · omega
    · decide
  · refine .inl ⟨rfl, ?_⟩
    simp only [Bool.and_eq_true, isDigit_iff_toNat] at hdigit
    omega
  · refine .inr (.inl ⟨rfl, ?_, fun hstart => by simpa [hstart] using hdigit⟩)
    simp only [needsNoEscape, Char.isAlphanum, isNameChar, isNameStart, Bool.or_eq_true,
      decide_eq_true_eq] at hplain ⊢
    -- the controls between the two bounds are the ones left out
    have hcontrols : 0x80 ≤ c.toNat → 0xa0 ≤ c.toNat := by omega
    tauto
  · refine .inr (.inr ⟨rfl, ?_, ?_⟩)
    · by_contra hhex
      have halnum := isAlphanum_of_isHexDigit (Bool.not_eq_false _ ▸ hhex)
      simp [needsNoEscape, halnum] at hplain
    · simp only [Bool.or_eq_true, decide_eq_true_eq, not_or] at hlow
      omega

theorem spellsChar_escapeChar (atStart : Bool) {c : Char} (h : IsSpellable c) :
    SpellsChar (escapeChar atStart c) c := by
  rcases escapeChar_cases atStart h with ⟨heq, hlt⟩ | ⟨heq, hname, -⟩ | ⟨heq, hhex, hbreak⟩
  · rw [heq]
    refine spellsChar_escape fun rest => ?_
    simpa using readEscape?_shortHex hlt h.1 rest
  · rw [heq]
    exact spellsChar_self hname
  · rw [heq]
    exact spellsChar_escape fun rest => readEscape?_cons hhex hbreak rest

/-! ## Names -/

/-- A name is written as a row of texts, one for each of its characters. -/
theorem escapeName_pieces {name : List Char} (h : ∀ c ∈ name, IsSpellable c) :
    ∃ pieces, escapeName name = pieces.flatten ∧ List.Forall₂ SpellsChar pieces name := by
  have hrest : ∀ rest : List Char, (∀ c ∈ rest, IsSpellable c) →
      List.Forall₂ SpellsChar (rest.map (escapeChar false)) rest := by
    intro rest hr
    rw [List.forall₂_map_left_iff, List.forall₂_same]
    exact fun c hc => spellsChar_escapeChar false (hr c hc)
  unfold escapeName
  split
  · exact ⟨[], rfl, .nil⟩
  · -- a hyphen alone is escaped
    refine ⟨[['\\', '-']], rfl, .cons (spellsChar_escape fun rest => ?_) .nil⟩
    exact readEscape?_cons (by decide) (by decide) rest
  · -- what comes behind a hyphen in front is written as if it stood in front
    next c rest =>
    refine ⟨['-'] :: escapeChar true c :: rest.map (escapeChar false), ?_, ?_⟩
    · simp [List.flatMap_def]
    · refine .cons (spellsChar_self (by decide)) (.cons ?_ ?_)
      · exact spellsChar_escapeChar true (h c (by simp))
      · exact hrest rest fun d hd => h d (by simp [hd])
  · next c rest _ _ =>
    refine ⟨escapeChar true c :: rest.map (escapeChar false), ?_, ?_⟩
    · simp [List.flatMap_def]
    · refine .cons (spellsChar_escapeChar true (h c (by simp))) ?_
      exact hrest rest fun d hd => h d (by simp [hd])

/-- What does not go on with a name holds no name characters at its front. -/
theorem readNameChars_endsName {rest : List Char} (h : EndsName rest) (fuel : Nat) :
    readNameChars fuel rest = ([], rest) := by
  cases fuel with
  | zero => rfl
  | succ fuel =>
    cases rest with
    | nil => rfl
    | cons c rest =>
      obtain ⟨hname, hback, -⟩ := h c rfl
      simp [readNameChars, hname, hback]

/-- A row of such texts is read as the row of characters. The induction follows the row; every
piece costs one step of fuel. -/
theorem readNameChars_pieces {pieces : List (List Char)} {name rest : List Char}
    (h : List.Forall₂ SpellsChar pieces name) (hrest : EndsName rest) {fuel : Nat}
    (hfuel : name.length ≤ fuel) :
    readNameChars fuel (pieces.flatten ++ rest) = (name, rest) := by
  induction h generalizing fuel with
  | nil => simpa using readNameChars_endsName hrest fuel
  | cons hpiece _ ih =>
    obtain ⟨fuel, rfl⟩ : ∃ k, fuel = k + 1 := ⟨fuel - 1, by simp at hfuel; omega⟩
    simp only [List.length_cons, Nat.add_le_add_iff_right] at hfuel
    rw [List.flatten_cons, List.append_assoc, hpiece, ih hfuel]

/-- No text is empty, so there is fuel enough in the length of the whole. -/
theorem length_le_length_flatten {pieces : List (List Char)} {name : List Char}
    (h : List.Forall₂ SpellsChar pieces name) : name.length ≤ pieces.flatten.length := by
  induction h with
  | nil => simp
  | @cons piece c _ _ hpiece _ ih =>
    have hne : piece ≠ [] := by
      rintro rfl
      simpa [readNameChars] using hpiece 0 []
    have hpos := List.length_pos_iff.2 hne
    simp only [List.length_cons, List.flatten_cons, List.length_append]
    omega

/-- A first character is written so that a name starts with it, also behind a hyphen. -/
theorem startsName_escapeChar {c : Char} (h : IsSpellable c) (rest : List Char) :
    (c ≠ '-' → startsName (escapeChar true c ++ rest) = true)
      ∧ startsName ('-' :: (escapeChar true c ++ rest)) = true := by
  have hescape : ∀ text : List Char, (readEscape? text).isSome = true →
      startsName ('\\' :: text) = true ∧ startsName ('-' :: '\\' :: text) = true := by
    intro text ht
    simp [startsName, ht]
  rcases escapeChar_cases true h with ⟨heq, hlt⟩ | ⟨heq, hname, hdigit⟩ | ⟨heq, hhex, hbreak⟩
  · have hnumber := hescape (shortHex c.toNat ++ ' ' :: rest)
      (by simp [readEscape?_shortHex hlt h.1])
    rw [heq]
    simpa [numberEscape] using And.intro (fun _ => hnumber.1) hnumber.2
  · rw [heq]
    by_cases hc : c = '-'
    · subst hc
      simp [startsName]
    · have hstart : isNameStart c = true := by
        simpa [isNameChar, hdigit rfl, hc] using hname
      refine ⟨fun _ => ?_, by simp [startsName, hstart]⟩
      rw [List.singleton_append, startsName]
      · simp [hstart]
      · rintro rest' rfl
        exact absurd rfl hc
      · rintro d rest' rfl
        exact absurd rfl hc
  · have hself := hescape (c :: rest) (by simp [readEscape?_cons hhex hbreak])
    rw [heq]
    exact ⟨fun _ => hself.1, hself.2⟩

theorem startsName_escapeName {name : List Char} (hne : name ≠ [])
    (h : ∀ c ∈ name, IsSpellable c) (rest : List Char) :
    startsName (escapeName name ++ rest) = true := by
  unfold escapeName
  split
  · exact absurd rfl hne
  · have hhyphen := readEscape?_cons (show isHexDigit '-' = false by decide)
      (show 0x20 ≤ '-'.toNat by decide) rest
    simp [startsName, hhyphen]
  · next c more =>
    have hstart :=
      (startsName_escapeChar (h c (by simp)) (more.flatMap (escapeChar false) ++ rest)).2
    simpa using hstart
  · next c more hlone hhyphen =>
    have hc : c ≠ '-' := by
      rintro rfl
      cases more with
      | nil => exact hlone rfl rfl
      | cons d more => exact hhyphen d more rfl rfl
    have hstart :=
      (startsName_escapeChar (h c (by simp)) (more.flatMap (escapeChar false) ++ rest)).1 hc
    simpa using hstart

/-- **Names read back.** A written name is read as that name, whatever follows, as long as it does
not go on with the name. -/
theorem readName?_escapeName {name : List Char} (hne : name ≠ [])
    (h : ∀ c ∈ name, IsSpellable c) {rest : List Char} (hrest : EndsName rest) :
    readName? (escapeName name ++ rest) = some (String.ofList name, rest) := by
  obtain ⟨pieces, heq, hpieces⟩ := escapeName_pieces h
  have hfuel : name.length ≤ (escapeName name ++ rest).length := by
    have hlength := length_le_length_flatten hpieces
    rw [heq, List.length_append]
    omega
  have hread : readNameChars (escapeName name ++ rest).length (escapeName name ++ rest)
      = (name, rest) := by
    conv_lhs => rw [heq]
    rw [heq] at hfuel
    exact readNameChars_pieces hpieces hrest hfuel
  rw [readName?, if_pos (startsName_escapeName hne h rest), hread]

end Retrace.Selector
