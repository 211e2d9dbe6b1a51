/-
Paths whose compounds have blanks in them.

An escape by number ends with a blank of its own. A scan of a path knows escapes of two characters
only, so it takes this blank for the end of the compound. No compound that it finds has a blank in
it (`unspaced_compounds`). So the texts of a path are found again, but for a blank at their end,
exactly if they have no blank before that (`compounds_path_eq_segments_iff`).
-/
import Retrace.Proofs.Path.Row

set_option autoImplicit false

namespace Retrace.Path

open Text (isBlank)

/-! ## Texts with blanks -/

/-- The text has no blanks. -/
def Unspaced (cs : List Char) : Prop := ∀ c ∈ cs, isBlank c = false

instance (cs : List Char) : Decidable (Unspaced cs) := List.decidableBAll _ cs

@[simp] theorem unspaced_nil : Unspaced [] := by simp [Unspaced]

@[simp] theorem unspaced_cons {c : Char} {cs : List Char} :
    Unspaced (c :: cs) ↔ isBlank c = false ∧ Unspaced cs := List.forall_mem_cons

@[simp] theorem unspaced_append {cs ds : List Char} :
    Unspaced (cs ++ ds) ↔ Unspaced cs ∧ Unspaced ds := List.forall_mem_append

@[simp] theorem unspaced_flatMap {β : Type} {f : β → List Char} {l : List β} :
    Unspaced (l.flatMap f) ↔ ∀ b ∈ l, Unspaced (f b) := List.forall_mem_flatMap

theorem Unspaced.dropLast {cs : List Char} (h : Unspaced cs) : Unspaced cs.dropLast :=
  fun c hc => h c (List.dropLast_subset cs hc)

/-- Plain characters are no blanks. -/
theorem unspaced_of_plain {cs : List Char} (h : ∀ c ∈ cs, Scan.IsPlain c) : Unspaced cs :=
  fun c hc => (h c hc).2.1

/-- A text that is made of blanks, and of pieces without blanks that are taken whole. -/
inductive Spaced : List Char → Prop where
  | nil : Spaced []
  | piece {p cs : List Char} : Scan.Takes p → Unspaced p → Spaced cs → Spaced (p ++ cs)
  | blank {c : Char} {cs : List Char} : isBlank c = true → Spaced cs → Spaced (c :: cs)

namespace Spaced

variable {cs ds : List Char}

/-- A piece without blanks that is taken whole is spaced. -/
theorem of_takes (h : Scan.Takes cs) (hcs : Unspaced cs) : Spaced cs := by
  simpa using piece h hcs .nil

theorem of_plain (h : ∀ c ∈ cs, Scan.IsPlain c) : Spaced cs :=
  of_takes (Scan.takes_plain h) (unspaced_of_plain h)

/-- What is spaced can be put together. -/
theorem append (h : Spaced cs) (h' : Spaced ds) : Spaced (cs ++ ds) := by
  induction h with
  | nil => exact h'
  | piece hp hunspaced _ ih =>
    rw [List.append_assoc]
    exact .piece hp hunspaced ih
  | blank hc _ ih => exact .blank hc ih

theorem flatMap {β : Type} {f : β → List Char} {l : List β} (h : ∀ b ∈ l, Spaced (f b)) :
    Spaced (l.flatMap f) := by
  induction l with
  | nil => exact .nil
  | cons b l ih =>
    obtain ⟨hb, hl⟩ := List.forall_mem_cons.1 h
    exact hb.append (ih hl)

/-- Without blanks, the text is taken whole. -/
theorem takes (h : Spaced cs) (hcs : Unspaced cs) : Scan.Takes cs := by
  induction h with
  | nil => exact fun s rest _ => by simp
  | piece hp _ _ ih => exact hp.append (ih (unspaced_append.1 hcs).2)
  | blank hc _ _ =>
    rw [(unspaced_cons.1 hcs).1] at hc
    simp at hc

/-- A blank at the end can be left out. -/
theorem dropLast (h : Spaced cs) (hlast : ∀ c ∈ cs.getLast?, isBlank c = true) :
    Spaced cs.dropLast := by
  induction h with
  | nil => exact .nil
  | @piece p cs hp hunspaced hcs ih =>
    by_cases hnil : cs = []
    · -- the piece would end with a blank
      subst hnil
      rw [List.append_nil] at hlast ⊢
      cases hend : p.getLast? with
      | none =>
        rw [List.getLast?_eq_none_iff.1 hend]
        exact .nil
      | some c =>
        have hc := hunspaced c (List.mem_of_getLast? hend)
        rw [hlast c hend] at hc
        simp at hc
    · rw [List.dropLast_append_of_ne_nil hnil]
      rw [List.getLast?_append_of_ne_nil _ hnil] at hlast
      exact .piece hp hunspaced (ih hlast)
  | @blank c cs hc _ ih =>
    cases cs with
    | nil => exact .nil
    | cons d cs =>
      rw [List.getLast?_cons_cons] at hlast
      exact .blank hc (ih hlast)

end Spaced

/-! ## What a scan finds -/

namespace Scan

/-- The scan is outside of quotes and brackets, and its compound has no blanks. -/
structure Clear (s : Scan) : Prop where
  isOpen : s.isOpen = true
  unspaced : Unspaced s.compound

variable {s : Scan}

/-- The compound that has been read so far has no blank in it. -/
theorem Clear.finished (h : s.Clear) : ∀ c ∈ s.finished, Unspaced c.text.toList := by
  unfold Scan.finished
  split
  · simp
  · simpa using h.unspaced

/-- A blank ends the compound, and the next one begins without any. -/
theorem Clear.pastBlank (h : s.Clear) : s.pastBlank.Clear := by
  refine ⟨by simpa using h.isOpen, ?_⟩
  unfold Scan.pastBlank
  split
  · exact h.unspaced
  · exact unspaced_nil

theorem Clear.pastChild (h : s.Clear) : s.pastChild.Clear := ⟨h.isOpen, unspaced_nil⟩

/-- A text that is made of blanks and of pieces without blanks leads to compounds without blanks. -/
theorem Clear.exists_compounds (h : s.Clear) {cs : List Char} (hcs : Spaced cs)
    (rest : List Char) : ∃ (found : List Compound) (t : Scan),
      s.compounds (cs ++ rest) = found ++ t.compounds rest
        ∧ t.Clear ∧ ∀ c ∈ found, Unspaced c.text.toList := by
  induction hcs generalizing s with
  | nil => exact ⟨[], s, rfl, h, by simp⟩
  | @piece p cs hp hunspaced _ ih =>
    have hpushed : ({ s with compound := s.compound ++ p } : Scan).Clear :=
      ⟨h.isOpen, unspaced_append.2 ⟨h.unspaced, hunspaced⟩⟩
    rw [List.append_assoc, hp s _ h.isOpen]
    exact ih hpushed
  | blank hc _ ih =>
    obtain ⟨found, t, heq, ht, hfound⟩ := ih h.pastBlank
    refine ⟨s.finished ++ found, t, ?_, ht, List.forall_mem_append.2 ⟨h.finished, hfound⟩⟩
    rw [List.cons_append, compounds_blank h.isOpen hc, heq, List.append_assoc]

/-- No compound of a path of such texts has a blank. -/
theorem Clear.unspaced_compounds (h : s.Clear) {ts : List String}
    (hts : ∀ t ∈ ts, Spaced t.toList) :
    ∀ c ∈ s.compounds (Locator.path ts).toList, Unspaced c.text.toList := by
  cases ts with
  | nil => exact h.finished
  | cons t ts =>
    induction ts generalizing s t with
    | nil =>
      obtain ⟨found, last, heq, hlast, hfound⟩ := h.exists_compounds (hts t (by simp)) []
      have hpath : (Locator.path [t]).toList = t.toList ++ [] := by simp [Locator.path]
      rw [hpath, heq, compounds]
      exact List.forall_mem_append.2 ⟨hfound, hlast.finished⟩
    | cons t' ts ih =>
      obtain ⟨ht, hmore⟩ := List.forall_mem_cons.1 hts
      obtain ⟨found, last, heq, hlast, hfound⟩ := h.exists_compounds ht
        (' ' :: '>' :: ' ' :: (Locator.path (t' :: ts)).toList)
      rw [toList_path_cons_cons, heq, compounds_joint hlast.isOpen]
      have hrest := ih hlast.pastChild t' hmore
      exact List.forall_mem_append.2 ⟨hfound, List.forall_mem_append.2 ⟨hlast.finished, hrest⟩⟩

end Scan

/-! ## The texts of a path -/

/-- The text without the blank at its end, if there is one. -/
def closed (t : String) : String :=
  String.ofList (if t.toList.getLast?.any isBlank then t.toList.dropLast else t.toList)

/-- A blank at the end is what is taken off. -/
theorem toList_closed_of_blank {t : String} {c : Char} (hc : t.toList.getLast? = some c)
    (hblank : isBlank c = true) : (closed t).toList = t.toList.dropLast := by
  simp [closed, hc, hblank]

/-- Where no blank is at the end, nothing is taken off. -/
theorem closed_of_not_blank {t : String} (h : ∀ c ∈ t.toList.getLast?, isBlank c = false) :
    closed t = t := by
  have hany : t.toList.getLast?.any isBlank = false := by
    cases hlast : t.toList.getLast? with
    | none => rfl
    | some c => simp [h c hlast]
  simp [closed, hany]

/-- Either the last character is a blank that is left out, or nothing is. -/
theorem closed_cases (t : String) :
    (∃ c, isBlank c = true ∧ t.toList.getLast? = some c ∧ t.toList = (closed t).toList ++ [c]
        ∧ (closed t).toList = t.toList.dropLast)
      ∨ closed t = t ∧ ∀ c ∈ t.toList.getLast?, isBlank c = false := by
  by_cases h : ∀ c ∈ t.toList.getLast?, isBlank c = false
  · exact .inr ⟨closed_of_not_blank h, h⟩
  · push Not at h
    obtain ⟨c, hlast, hc⟩ := h
    have hblank : isBlank c = true := by simpa using hc
    have hdrop := toList_closed_of_blank hlast hblank
    refine .inl ⟨c, hblank, hlast, ?_, hdrop⟩
    rw [hdrop, List.dropLast_append_getLast? c hlast]

theorem padded_closed (t : String) : Padded (closed t) t := by
  obtain ⟨c, hblank, -, hsplit, -⟩ | ⟨hsame, -⟩ := closed_cases t
  · exact ⟨[c], hsplit, by simpa using hblank⟩
  · rw [hsame]
    exact .refl t

/-- A text with more than blanks in it does not become empty. -/
theorem closed_ne_empty {t : String} {c : Char} (hc : c ∈ t.toList) (hblank : isBlank c = false) :
    closed t ≠ "" := by
  intro hempty
  obtain ⟨gap, hsplit, hgap⟩ := padded_closed t
  rw [hempty] at hsplit
  have hin : c ∈ gap := by simpa [hsplit] using hc
  rw [hgap c hin] at hblank
  simp at hblank

/-- Only the last character may have been a blank. -/
theorem unspaced_closed_iff (t : String) :
    Unspaced (closed t).toList ↔ Unspaced t.toList.dropLast := by
  obtain ⟨c, -, -, -, hdrop⟩ | ⟨hsame, hlast⟩ := closed_cases t
  · rw [hdrop]
  · rw [hsame]
    refine ⟨Unspaced.dropLast, fun h => ?_⟩
    cases hend : t.toList.getLast? with
    | none => simp [List.getLast?_eq_none_iff.1 hend]
    | some c =>
      rw [← List.dropLast_append_getLast? c hend]
      exact unspaced_append.2 ⟨h, by simpa using hlast c hend⟩

/-- Taking off the blank at the end leaves a spaced text spaced. -/
theorem Spaced.closed {t : String} (h : Spaced t.toList) : Spaced (closed t).toList := by
  obtain ⟨c, hblank, hlast, -, hdrop⟩ | ⟨hsame, -⟩ := closed_cases t
  · rw [hdrop]
    exact h.dropLast fun d hd => (Option.some.inj (hlast.symm.trans hd)) ▸ hblank
  · rwa [hsame]

/-- **The joints of a path.** Where the texts of a path are made of blanks and of pieces without
blanks, they are the compounds of the path, each without a blank at its end, exactly if they have no
other blanks. -/
theorem compounds_path_eq_segments_iff {ts : List String}
    (h : ∀ t ∈ ts, closed t ≠ "" ∧ Spaced t.toList) :
    compounds (Locator.path ts) = segments (ts.map closed)
      ↔ ∀ t ∈ ts, Unspaced t.toList.dropLast := by
  constructor
  · intro heq t ht
    have hclear : ({} : Scan).Clear := ⟨rfl, unspaced_nil⟩
    have hall := hclear.unspaced_compounds fun t ht => (h t ht).2
    have htext : closed t ∈ (compounds (Locator.path ts)).map Compound.text := by
      rw [heq, map_text_segments]
      exact List.mem_map_of_mem ht
    obtain ⟨c, hc, hct⟩ := List.mem_map.1 htext
    rw [← unspaced_closed_iff, ← hct]
    exact hall c hc
  · intro hunspaced
    have hpadded : List.Forall₂ Padded (ts.map closed) ts := by
      rw [List.forall₂_map_left_iff, List.forall₂_same]
      exact fun t _ => padded_closed t
    refine compounds_path_of_padded hpadded ?_
    intro u hu
    obtain ⟨t, ht, rfl⟩ := List.mem_map.1 hu
    obtain ⟨hne, hspaced⟩ := h t ht
    have hclosed := (unspaced_closed_iff t).2 (hunspaced t ht)
    exact ⟨hne, hspaced.closed.takes hclosed⟩

end Retrace.Path
