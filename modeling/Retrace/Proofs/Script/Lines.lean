/-
The lines of a script are the lines of its text.

A script is a row of lines, and its text is cut into lines at every line break. The two agree only
if no part of a line holds a line break itself. The fixed code has none, as can be seen by looking;
that recorded text has none either is what literals and remarks are for (`Part.flat_text`). So
nothing that was recorded can begin a line of its own (`lines_text`).
-/
import Retrace.Script.Render

set_option autoImplicit false

namespace Retrace

open Script

/-! ## Line breaks -/

namespace Text

/-- The lines of a text: what stands between its line breaks. -/
def lines (s : String) : List String := (s.split '\n').toList.map String.Slice.copy

/-- A text without a line break, and without a carriage return. -/
def Flat (s : String) : Prop := ∀ c ∈ s.toList, c ≠ '\n' ∧ c ≠ '\r'

instance (s : String) : Decidable (Flat s) := List.decidableBAll _ s.toList

/-- Flat texts with a line break between any two are the lines of the whole. -/
theorem lines_intercalate {ls : List String} (hne : ls ≠ []) (h : ∀ l ∈ ls, Flat l) :
    lines ("\n".intercalate ls) = ls := by
  have hsplit := String.toList_split_intercalate (c := '\n')
    fun l hl hmem => (h l hl _ hmem).1 rfl
  rwa [if_neg hne] at hsplit

/-- The only breaks in such a text are those between its lines. -/
theorem not_mem_intercalate {ls : List String} (h : ∀ l ∈ ls, Flat l) :
    '\r' ∉ ("\n".intercalate ls).toList := by
  induction ls with
  | nil => simp
  | cons l rest ih =>
    obtain ⟨hl, hrest⟩ := List.forall_mem_cons.1 h
    have hmem : '\r' ∉ l.toList := fun hmem => (hl _ hmem).2 rfl
    by_cases hne : rest = []
    · simpa [hne] using hmem
    · rw [String.intercalate_cons_of_ne_nil hne, String.toList_append, String.toList_append,
        List.mem_append, List.mem_append]
      rintro ((hc | hc) | hc)
      · exact hmem hc
      · exact absurd hc (by decide)
      · exact ih hrest hc

namespace Flat

theorem append {s t : String} (hs : Flat s) (ht : Flat t) : Flat (s ++ t) := by
  intro c hc
  rw [String.toList_append] at hc
  exact (List.mem_append.1 hc).elim (hs c) (ht c)

theorem join {ls : List String} (h : ∀ l ∈ ls, Flat l) : Flat (String.join ls) := by
  intro c hc
  rw [String.toList_join] at hc
  obtain ⟨l, hl, hc⟩ := List.mem_flatMap.1 hc
  exact h l hl c hc

theorem repr (n : Nat) : Flat n.repr := by
  intro c hc
  rw [Nat.toList_repr] at hc
  have hdigit := Nat.isDigit_of_mem_toDigits (by decide) (by decide) hc
  exact ⟨by rintro rfl; exact absurd hdigit (by decide),
    by rintro rfl; exact absurd hdigit (by decide)⟩

theorem toString_int (n : Int) : Flat (toString n) := by
  cases n with
  | ofNat n => exact repr n
  | negSucc n => exact append (by decide) (repr (n + 1))

theorem intercalate {s : String} (hs : Flat s) {ls : List String} (h : ∀ l ∈ ls, Flat l) :
    Flat (s.intercalate ls) := by
  induction ls with
  | nil => simp [Flat]
  | cons l rest ih =>
    obtain ⟨hl, hrest⟩ := List.forall_mem_cons.1 h
    by_cases hne : rest = []
    · simpa [hne] using hl
    · rw [String.intercalate_cons_of_ne_nil hne]
      exact .append (.append hl hs) (ih hrest)

/-- The words of a text hold no line break, since that is a blank. -/
theorem collapse (s : String) : Flat (Text.collapse s) := by
  refine intercalate (by decide) fun w hw c hc => ?_
  have hblank := not_isBlank_of_mem_words hw hc
  exact ⟨by rintro rfl; exact absurd hblank (by decide),
    by rintro rfl; exact absurd hblank (by decide)⟩

end Flat

end Text

namespace Script

/-! ## Parts and lines -/

/-- The code in the part has no line break. -/
def Part.Flat : Part → Prop
  | .code s => Text.Flat s
  | .literal _ | .remark _ => True

instance : (p : Part) → Decidable p.Flat
  | .code s => inferInstanceAs (Decidable (Text.Flat s))
  | .literal _ => isTrue trivial
  | .remark _ => isTrue trivial

/-- **Recorded text stays on its line.** -/
theorem Part.flat_text {p : Part} (h : p.Flat) : Text.Flat p.text := by
  cases p with
  | code s => exact h
  | remark s => exact .collapse s
  | literal s =>
    intro c hc
    simp only [text, quote, String.toList_ofList, List.cons_append, List.mem_cons,
      List.mem_append, List.not_mem_nil, or_false] at hc
    rcases hc with rfl | hc | rfl
    · decide
    · exact ⟨(not_mem_escape hc).1, (not_mem_escape hc).2.1⟩
    · decide

/-- The code in the line has no line break. -/
def Line.Flat (l : Line) : Prop := ∀ p ∈ l.parts, p.Flat

instance (l : Line) : Decidable l.Flat := List.decidableBAll _ l.parts

theorem Line.flat_text {l : Line} (h : l.Flat) : Text.Flat l.text := by
  unfold text
  split
  · decide
  · refine .append ?_ (.join ?_)
    · intro c hc
      rw [String.toList_ofList] at hc
      rw [List.eq_of_mem_replicate hc]
      decide
    · intro t ht
      obtain ⟨p, hp, rfl⟩ := List.mem_map.1 ht
      exact Part.flat_text (h p hp)

end Script

/-! ## Scripts -/

/-- The lines of a script: those of its blocks, with two empty ones between any two blocks, and an
empty one at the end. -/
def Script.lines (s : Script) : List Line :=
  List.intercalate [blank, blank] s.blocks ++ [blank]

namespace Script

theorem text_blocks {blocks : List Block} (hne : blocks ≠ []) (h : ∀ b ∈ blocks, b ≠ []) :
    "\n\n\n".intercalate (blocks.map Block.text)
      = "\n".intercalate ((List.intercalate [blank, blank] blocks).map Line.text) := by
  induction blocks with
  | nil => exact absurd rfl hne
  | cons b rest ih =>
    obtain ⟨hb, hrest⟩ := List.forall_mem_cons.1 h
    by_cases hnil : rest = []
    · simp [hnil, Block.text]
    have hblocks : rest.map Block.text ≠ [] := by simpa using hnil
    have hlines : (List.intercalate [blank, blank] rest).map Line.text ≠ [] := by
      obtain ⟨c, more, rfl⟩ := List.exists_cons_of_ne_nil hnil
      have hc := hrest c (by simp)
      cases more <;> simp [hc]
    have hsplit : (List.intercalate [blank, blank] (b :: rest)).map Line.text
        = b.map Line.text ++ (["", ""]
          ++ (List.intercalate [blank, blank] rest).map Line.text) := by
      rw [List.intercalate_cons_of_ne_nil hnil]
      simp [show blank.text = "" from rfl]
    -- two empty lines and the breaks around them are three breaks
    have hgap : "\n\n\n" = "\n" ++ "\n".intercalate ["", ""] ++ "\n" := by decide
    rw [hsplit, String.intercalate_append_of_ne_nil (by simpa using hb) (by simp),
      String.intercalate_append_of_ne_nil (by simp) hlines, List.map_cons,
      String.intercalate_cons_of_ne_nil hblocks, ih hnil hrest, hgap]
    simp only [Block.text, String.append_assoc]

/-- The text of a script is made of its lines. -/
theorem text_eq_intercalate {s : Script} (hne : s.blocks ≠ []) (h : ∀ b ∈ s.blocks, b ≠ []) :
    s.text = "\n".intercalate (s.lines.map Line.text) := by
  have hlines : (List.intercalate [blank, blank] s.blocks).map Line.text ≠ [] := by
    obtain ⟨b, more, hblocks⟩ := List.exists_cons_of_ne_nil hne
    have hb := h b (by simp [hblocks])
    rw [hblocks]
    cases more <;> simp [hb]
  have hblank : [blank].map Line.text = [""] := rfl
  rw [text, text_blocks hne h, lines, List.map_append, hblank,
    String.intercalate_append_of_ne_nil hlines (by simp)]
  simp

/-- A line is empty, or one of a block. -/
theorem eq_blank_or_mem_of_mem_lines {s : Script} {l : Line} (hl : l ∈ s.lines) :
    l = blank ∨ ∃ b ∈ s.blocks, l ∈ b := by
  have hblocks : ∀ blocks : List Block, l ∈ List.intercalate [blank, blank] blocks →
      l = blank ∨ ∃ b ∈ blocks, l ∈ b := by
    intro blocks
    induction blocks with
    | nil => simp
    | cons b rest ih =>
      intro hl
      by_cases hnil : rest = []
      · exact .inr ⟨b, by simp, by simpa [hnil] using hl⟩
      rw [List.intercalate_cons_of_ne_nil hnil, List.append_assoc] at hl
      rcases List.mem_append.1 hl with hl | hl
      · exact .inr ⟨b, by simp, hl⟩
      rcases List.mem_append.1 hl with hl | hl
      · exact .inl (by simpa using hl)
      · exact (ih hl).imp_right fun ⟨c, hc, hl⟩ => ⟨c, List.mem_cons_of_mem _ hc, hl⟩
  rcases List.mem_append.1 hl with hl | hl
  · exact hblocks _ hl
  · exact .inl (List.mem_singleton.1 hl)

theorem flat_of_mem_lines {s : Script} (hflat : ∀ b ∈ s.blocks, ∀ l ∈ b, l.Flat) :
    ∀ t ∈ s.lines.map Line.text, Text.Flat t := by
  intro t ht
  obtain ⟨l, hl, rfl⟩ := List.mem_map.1 ht
  refine Line.flat_text ?_
  rcases eq_blank_or_mem_of_mem_lines hl with rfl | ⟨b, hb, hl⟩
  · simp [Line.Flat, blank]
  · exact hflat b hb l hl

/-- **The lines of the text are those of the script**, if no code in them has a line break. -/
theorem lines_text {s : Script} (hne : s.blocks ≠ []) (h : ∀ b ∈ s.blocks, b ≠ [])
    (hflat : ∀ b ∈ s.blocks, ∀ l ∈ b, l.Flat) :
    Text.lines s.text = s.lines.map Line.text := by
  rw [text_eq_intercalate hne h]
  exact Text.lines_intercalate (by simp [lines]) (flat_of_mem_lines hflat)

/-- There are no other line breaks in the text. -/
theorem not_mem_text {s : Script} (hne : s.blocks ≠ []) (h : ∀ b ∈ s.blocks, b ≠ [])
    (hflat : ∀ b ∈ s.blocks, ∀ l ∈ b, l.Flat) : '\r' ∉ s.text.toList := by
  rw [text_eq_intercalate hne h]
  exact Text.not_mem_intercalate (flat_of_mem_lines hflat)

end Script

end Retrace
