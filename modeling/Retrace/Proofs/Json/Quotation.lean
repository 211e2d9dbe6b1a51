/-
Written strings are read back.

A character is written as itself, as a letter behind a backslash, or as one or two units of four
hexadecimal digits. Whatever it is written as, the reader gets the character back
(`joinPieces_writeChar`): a unit on its own is no half of a character, and the two halves of a
character beyond the first 65536 stand next to each other.
-/
import Mathlib.Algebra.Group.Nat.Defs
import Mathlib.Tactic.SplitIfs
import Retrace.Json.Reader
import Retrace.Json.Writer

set_option autoImplicit false

namespace Retrace.Json

/-! ## Hexadecimal digits -/

theorem hexValue?_hexDigit : ∀ d < 16, hexValue? (Text.hexDigit d) = some d := by
  decide

theorem hexNumber?_append (ds : List Char) (c : Char) :
    hexNumber? (ds ++ [c]) = (hexNumber? ds).bind fun n => (hexValue? c).map (16 * n + ·) := by
  simp [hexNumber?, List.foldlM_append]

/-- A number that is written in hexadecimal digits is read again, up to the width. -/
theorem hexNumber?_hex (width n : Nat) : hexNumber? (Text.hex width n) = some (n % 16 ^ width) := by
  induction width generalizing n with
  | zero => simp [Text.hex, hexNumber?, Nat.mod_one]
  | succ width ih =>
    rw [Text.hex, hexNumber?_append, ih, Option.bind_some,
      hexValue?_hexDigit _ (Nat.mod_lt _ (by decide)), Option.map_some, Nat.pow_succ,
      Nat.mul_comm (16 ^ width) 16, Nat.mod_mul, Nat.add_comm]

/-! ## Pieces -/

variable {start rest left : List Char} {ps : List Piece}

theorem ne_nil_of_pieces (h : pieces start rest = .ok (ps, left)) : rest ≠ [] := by
  rintro rfl
  simp [pieces] at h

/-- A unit is read as its number. -/
theorem pieces_unitEscape {n : Nat} (hn : n < 0x10000) (h : pieces start rest = .ok (ps, left)) :
    pieces start (unitEscape n ++ rest) = .ok (.unit n :: ps, left) := by
  obtain ⟨next, more, rfl⟩ := List.exists_cons_of_ne_nil (ne_nil_of_pieces h)
  have hread : hexNumber? (Text.hex 4 n) = some n := by
    rw [hexNumber?_hex, Nat.mod_eq_of_lt (by omega)]
  simp only [Text.hex, List.nil_append, List.cons_append] at hread
  simp only [unitEscape, Text.hex, List.nil_append, List.cons_append, pieces, hread, h]
  rfl

/-- A letter behind a backslash is read as the character it stands for. -/
theorem pieces_escaped {e c : Char} (he : escaped? e = some c) (hu : e ≠ 'u')
    (h : pieces start rest = .ok (ps, left)) :
    pieces start ('\\' :: e :: rest) = .ok (.char c :: ps, left) := by
  rw [pieces.eq_def]
  simp [he, hu, h, bind, Except.bind, pure, Except.pure]

/-- Any other character stands for itself. -/
theorem pieces_plain {c : Char} (hquote : c ≠ '"') (hbackslash : c ≠ '\\') (hc : ¬ c.toNat < 0x20)
    (h : pieces start rest = .ok (ps, left)) :
    pieces start (c :: rest) = .ok (.char c :: ps, left) := by
  rw [pieces.eq_def]
  simp [hbackslash, hc, h, bind, Except.bind, pure, Except.pure]

/-! ## Joining -/

/-- No character is numbered as half of another one. -/
theorem toNat_lt_or_lt (c : Char) : c.toNat < 0xd800 ∨ 0xdfff < c.toNat ∧ c.toNat < 0x110000 :=
  c.valid

/-- The unit of a character stands for it. -/
theorem unitChar_toNat (c : Char) : joinPieces.unitChar c.toNat = c := by
  rw [joinPieces.unitChar, if_pos (show c.toNat.isValidChar from c.valid), Char.ofNat_toNat]

theorem joinPieces_unit (c : Char) (ps : List Piece) :
    joinPieces (.unit c.toNat :: ps) = c :: joinPieces ps := by
  have hc := toNat_lt_or_lt c
  match ps with
  | [] => rw [joinPieces.eq_4 _ _ (by simp), unitChar_toNat]
  | .char d :: ps => rw [joinPieces.eq_4 _ _ (by simp), unitChar_toNat]
  | .unit lo :: ps =>
    rw [joinPieces, unitChar_toNat, if_neg]
    simp only [Bool.and_eq_true, decide_eq_true_eq]
    omega

/-- The two halves of a character are joined again. -/
theorem joinPieces_units {c : Char} (hc : 0x10000 ≤ c.toNat) (ps : List Piece) :
    joinPieces (.unit (0xd800 + (c.toNat - 0x10000) / 0x400)
      :: .unit (0xdc00 + (c.toNat - 0x10000) % 0x400) :: ps) = c :: joinPieces ps := by
  have hrange := toNat_lt_or_lt c
  have hjoined : 0x10000 + (0xd800 + (c.toNat - 0x10000) / 0x400 - 0xd800) * 0x400
      + (0xdc00 + (c.toNat - 0x10000) % 0x400 - 0xdc00) = c.toNat := by
    omega
  rw [joinPieces, if_pos, hjoined, Char.ofNat_toNat]
  simp only [Bool.and_eq_true, decide_eq_true_eq]
  omega

/-! ## Characters and strings -/

/-- A character in escapes is read back. -/
theorem joinPieces_charEscape (c : Char) (h : pieces start rest = .ok (ps, left)) :
    ∃ ps', pieces start (charEscape c ++ rest) = .ok (ps', left)
      ∧ joinPieces ps' = c :: joinPieces ps := by
  have hc := toNat_lt_or_lt c
  unfold charEscape
  dsimp only
  split
  · next hn => exact ⟨_, pieces_unitEscape hn h, joinPieces_unit c ps⟩
  · next hn =>
    rw [List.append_assoc]
    exact ⟨_, pieces_unitEscape (by omega) (pieces_unitEscape (by omega) h),
      joinPieces_units (by omega) ps⟩

/-- **A written character is read back**, with whatever stands behind it. -/
theorem joinPieces_writeChar (asciiOnly : Bool) (c : Char)
    (h : pieces start rest = .ok (ps, left)) :
    ∃ ps', pieces start (writeChar asciiOnly c ++ rest) = .ok (ps', left)
      ∧ joinPieces ps' = c :: joinPieces ps := by
  have hletter : ∀ {e d : Char}, escaped? e = some d → e ≠ 'u' →
      ∃ ps', pieces start (['\\', e] ++ rest) = .ok (ps', left)
        ∧ joinPieces ps' = d :: joinPieces ps :=
    fun he hu => ⟨_, pieces_escaped he hu h, by rw [joinPieces]⟩
  unfold writeChar
  split_ifs with hquote hbackslash hfeed hreturn htab hback hform hcontrol hascii
  · subst hquote
    exact hletter rfl (by decide)
  · subst hbackslash
    exact hletter rfl (by decide)
  · subst hfeed
    exact hletter rfl (by decide)
  · subst hreturn
    exact hletter rfl (by decide)
  · subst htab
    exact hletter rfl (by decide)
  · subst hback
    exact hletter rfl (by decide)
  · subst hform
    exact hletter rfl (by decide)
  · exact joinPieces_charEscape c h
  · exact joinPieces_charEscape c h
  · exact ⟨_, pieces_plain hquote hbackslash hcontrol h, by rw [joinPieces]⟩

/-- **Quoted text is read back.** The induction is on the text, one piece or two for each
character. -/
theorem pieces_flatMap_writeChar (asciiOnly : Bool) (cs : List Char) (start rest : List Char) :
    ∃ ps, pieces start (cs.flatMap (writeChar asciiOnly) ++ '"' :: rest) = .ok (ps, rest)
      ∧ joinPieces ps = cs := by
  induction cs with
  | nil => exact ⟨[], rfl, rfl⟩
  | cons c cs ih =>
    obtain ⟨ps, hps, hcs⟩ := ih
    rw [List.flatMap_cons, List.append_assoc, ← hcs]
    exact joinPieces_writeChar asciiOnly c (hcs ▸ hps)

/-- **A written string is read back.** -/
theorem stringText_writeString (asciiOnly : Bool) (s : String) (rest : List Char) :
    ∃ text, writeString asciiOnly s ++ rest = '"' :: text ∧ stringText text = .ok (s, rest) := by
  obtain ⟨ps, hps, hs⟩ := pieces_flatMap_writeChar asciiOnly s.toList
    ('"' :: (s.toList.flatMap (writeChar asciiOnly) ++ '"' :: rest)) rest
  refine ⟨s.toList.flatMap (writeChar asciiOnly) ++ '"' :: rest, by simp [writeString], ?_⟩
  rw [stringText, hps]
  simp [hs, bind, Except.bind, pure, Except.pure]

end Retrace.Json
