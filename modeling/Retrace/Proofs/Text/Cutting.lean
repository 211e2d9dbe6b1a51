/-
What is left of a text that is cut.

A text is trimmed down to its core, which begins and ends with characters that stay, or cut into the
pieces between the characters at which it is cut.
-/
import Mathlib.Data.List.DropRight
import Retrace.Text.Blank

set_option autoImplicit false

namespace Retrace.Text

/-! ## Stripped texts -/

/-- A list neither end of which is a character of `p`. -/
def IsTrimmed (p : Char → Bool) (cs : List Char) : Prop :=
  (∀ c ∈ cs.head?, p c = false) ∧ ∀ c ∈ cs.getLast?, p c = false

instance (p : Char → Bool) (cs : List Char) : Decidable (IsTrimmed p cs) :=
  decidable_of_iff (cs.head?.all (! p ·) = true ∧ cs.getLast?.all (! p ·) = true)
    (by simp [IsTrimmed, Option.all_eq_true])

/-- `piece` is what is left of the text without the characters of `p` at its ends. -/
def IsCore (p : Char → Bool) (piece cs : List Char) : Prop :=
  piece ≠ [] ∧ IsTrimmed p piece
    ∧ ∃ before after, (∀ c ∈ before ++ after, p c = true) ∧ cs = before ++ piece ++ after

variable {p : Char → Bool} {cs piece : List Char}

theorem dropTrailing_eq_rdropWhile (p : Char → Bool) (cs : List Char) :
    dropTrailing p cs = cs.rdropWhile p := by
  rw [dropTrailing, List.rdropWhile]

theorem trim_eq_nil_iff : trim p cs = [] ↔ ∀ c ∈ cs, p c = true := by
  rw [trim, dropTrailing_eq_rdropWhile, List.rdropWhile_eq_nil_iff]
  constructor
  · intro hrest c hc
    rw [← List.takeWhile_append_dropWhile (p := p) (l := cs)] at hc
    rcases List.mem_append.1 hc with hfront | hback
    · exact List.mem_takeWhile_imp hfront
    · exact hrest c hback
  · intro hall c hc
    exact hall c ((List.dropWhile_sublist p).mem hc)

/-- What a trimmed text has left begins and ends with a character that stays. -/
theorem isTrimmed_trim (p : Char → Bool) (cs : List Char) : IsTrimmed p (trim p cs) := by
  rw [trim, dropTrailing_eq_rdropWhile]
  constructor
  · -- the first character of what is left is the first one behind the dropped front
    intro c hc
    obtain ⟨rest, hrest⟩ := List.rdropWhile_prefix p (l := cs.dropWhile p)
    have hhead : c ∈ (cs.dropWhile p).head? := by
      rw [← hrest, List.head?_append]
      simp_all
    have hnot := List.head?_dropWhile_not p cs
    rw [Option.mem_def.1 hhead] at hnot
    simpa using hnot
  · intro c hc
    obtain ⟨hne, rfl⟩ := List.mem_getLast?_eq_getLast hc
    simpa using List.rdropWhile_last_not p (cs.dropWhile p) hne

/-- A text is what is left of it between characters that were dropped. -/
theorem exists_append_trim (p : Char → Bool) (cs : List Char) :
    ∃ before after, (∀ c ∈ before ++ after, p c = true) ∧ cs = before ++ trim p cs ++ after := by
  refine ⟨cs.takeWhile p, (cs.dropWhile p).rtakeWhile p, ?_, ?_⟩
  · intro c hc
    rcases List.mem_append.1 hc with hfront | hback
    · exact List.mem_takeWhile_imp hfront
    · exact List.mem_rtakeWhile_imp hback
  · rw [trim, dropTrailing_eq_rdropWhile, List.append_assoc, List.rdropWhile_append_rtakeWhile,
      List.takeWhile_append_dropWhile]

/-- The core of a text is the text trimmed, if that is not empty. -/
theorem isCore_iff : IsCore p piece cs ↔ trim p cs ≠ [] ∧ piece = trim p cs := by
  constructor
  · rintro ⟨hne, ⟨hhead, hlast⟩, before, after, hends, rfl⟩
    have hbefore : ∀ c ∈ before, p c = true := fun c hc => hends c (by simp [hc])
    have hafter : ∀ c ∈ after.reverse, p c = true := fun c hc => hends c (by simp_all)
    have hfront : (before ++ piece ++ after).dropWhile p = piece ++ after := by
      rw [List.append_assoc, List.dropWhile_append_of_pos hbefore]
      cases piece with
      | nil => exact absurd rfl hne
      | cons c rest => simp [hhead c rfl]
    have hback : dropTrailing p (piece ++ after) = piece := by
      rw [dropTrailing, List.reverse_append, List.dropWhile_append_of_pos hafter,
        ← dropTrailing, dropTrailing_eq_rdropWhile, List.rdropWhile_eq_self_iff]
      intro hl
      simp [hlast _ (List.getLast?_eq_some_getLast hl)]
    have htrim : trim p (before ++ piece ++ after) = piece := by
      rw [trim, hfront, hback]
    rw [htrim]
    exact ⟨hne, rfl⟩
  · rintro ⟨hne, rfl⟩
    exact ⟨hne, isTrimmed_trim p cs, exists_append_trim p cs⟩

/-! ## Pieces -/

theorem pieces_ne_nil (p : Char → Bool) (cs : List Char) : pieces p cs ≠ [] := by
  cases cs with
  | nil => simp [pieces]
  | cons c rest =>
    unfold pieces
    split
    · simp
    · split <;> simp

theorem pieces_of_forall_not (h : ∀ c ∈ cs, p c = false) :
    pieces p cs = [cs] := by
  induction cs with
  | nil => rw [pieces]
  | cons c rest ih =>
    obtain ⟨hc, hrest⟩ := List.forall_mem_cons.1 h
    rw [pieces, ih hrest]
    simp [hc]

/-- A character at which a text is cut separates the pieces in front of it from those behind it. -/
theorem pieces_append_cons {c : Char} (hc : p c = true) (cs ds : List Char) :
    pieces p (cs ++ c :: ds) = pieces p cs ++ pieces p ds := by
  induction cs with
  | nil => simp [pieces, hc]
  | cons a rest ih =>
    obtain ⟨piece, more, hpieces⟩ := List.exists_cons_of_ne_nil (pieces_ne_nil p rest)
    rw [List.cons_append, pieces, pieces, ih, hpieces]
    split <;> rfl

/-- The pieces of a text are made of its characters. -/
theorem subset_of_mem_pieces {w : List Char} (hw : w ∈ pieces p cs) :
    w ⊆ cs := by
  induction cs generalizing w with
  | nil => simp_all [pieces]
  | cons d rest ih =>
    unfold pieces at hw
    split at hw
    · rcases List.mem_cons.1 hw with rfl | hw
      · exact List.nil_subset _
      · exact List.subset_cons_of_subset _ (ih hw)
    · split at hw
      · obtain rfl := List.mem_singleton.1 hw
        simp
      · next piece more hpieces =>
        rcases List.mem_cons.1 hw with rfl | hw
        · exact List.cons_subset_cons _ (ih (hpieces ▸ List.mem_cons_self))
        · exact List.subset_cons_of_subset _ (ih (hpieces ▸ List.mem_cons_of_mem _ hw))

end Retrace.Text
