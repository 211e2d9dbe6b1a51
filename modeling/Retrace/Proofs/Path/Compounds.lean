/-
Paths are taken apart as they were put together.

A scan of a path goes on with a compound over everything that is escaped, quoted or in brackets. So
a text that is made of plain characters, of escapes and of positions is taken whole (`Takes`),
whatever characters a recorded name has. Where texts of this kind are put together as a path of
children, the compounds of the path are the texts again (`compounds_path`), without the blanks that
may stand behind them (`compounds_path_of_padded`); and a part of them is put together as the path
of this part (`join_eq_path`).
-/
import Mathlib.Data.List.Forall2
import Retrace.Locator

set_option autoImplicit false

namespace Retrace.Path

open Text (isBlank)

namespace Scan

/-! ## Characters -/

/-- A character that stands for itself, in a compound and within brackets. -/
def IsPlain (c : Char) : Prop :=
  c ≠ '\\' ∧ isBlank c = false ∧ c ≠ '>' ∧ c ≠ '"' ∧ c ≠ '\'' ∧ c ≠ '(' ∧ c ≠ '[' ∧ c ≠ ')'
    ∧ c ≠ ']'

instance (c : Char) : Decidable (IsPlain c) := inferInstanceAs (Decidable (_ ∧ _))

/-- A backslash takes the next character along, whatever it is. -/
theorem compounds_escape (s : Scan) (c : Char) (rest : List Char) :
    s.compounds ('\\' :: c :: rest)
      = ({ s with compound := s.compound ++ ['\\', c] } : Scan).compounds rest := by
  rw [compounds]
  simp [push]

/-- Outside of quotes and brackets, or within brackets, a character other than a backslash is taken
if it separates no compounds there. -/
theorem compounds_take {s : Scan} {c : Char} (hback : c ≠ '\\')
    (hblank : isBlank c = false) (hchild : c ≠ '>') (rest : List Char) :
    s.compounds (c :: rest) = (s.take c).compounds rest := by
  rw [compounds]
  · simp [hblank, hchild]
  · rintro d more rfl
    exact absurd rfl hback

/-- Plain characters go into the compound. -/
theorem compounds_plain {cs : List Char} (hcs : ∀ c ∈ cs, IsPlain c) {s : Scan}
    (hquote : s.quote = none) (rest : List Char) :
    s.compounds (cs ++ rest)
      = ({ s with compound := s.compound ++ cs } : Scan).compounds rest := by
  induction cs generalizing s with
  | nil => simp
  | cons c cs ih =>
    obtain ⟨⟨hback, hblank, hchild, hdouble, hsingle, hround, hsquare, hround', hsquare'⟩, hcs⟩ :=
      List.forall_mem_cons.1 hcs
    have htake : s.take c = s.push c := by
      simp [take, hquote, hdouble, hsingle, hround, hsquare, hround', hsquare']
    have hrest := ih hcs (s := s.push c) hquote
    rw [List.cons_append, compounds_take hback hblank hchild, htake, hrest]
    simp [push]

/-! ## Texts that are taken whole -/

/-- A scan outside of quotes and brackets takes the text into its compound, whatever follows. -/
def Takes (cs : List Char) : Prop :=
  ∀ (s : Scan) (rest : List Char), s.isOpen = true →
    s.compounds (cs ++ rest) = ({ s with compound := s.compound ++ cs } : Scan).compounds rest

/-- What is taken as it stands can be put together. -/
theorem Takes.append {cs ds : List Char} (h : Takes cs) (h' : Takes ds) : Takes (cs ++ ds) := by
  intro s rest hopen
  rw [List.append_assoc, h s _ hopen, h' { s with compound := s.compound ++ cs } rest hopen]
  simp

/-- A scan is open outside of quotes and brackets. -/
theorem isOpen_iff {s : Scan} : s.isOpen = true ↔ s.quote = none ∧ s.depth = 0 := by
  simp [isOpen]

theorem takes_plain {cs : List Char} (hcs : ∀ c ∈ cs, IsPlain c) : Takes cs :=
  fun _ rest hopen => compounds_plain hcs (isOpen_iff.1 hopen).1 rest

theorem takes_escape (c : Char) : Takes ['\\', c] :=
  fun s rest _ => compounds_escape s c rest

/-- What stands in round brackets belongs to the compound. -/
theorem takes_brackets {cs : List Char} (hcs : ∀ c ∈ cs, IsPlain c) :
    Takes ('(' :: cs ++ [')']) := by
  intro s rest hopen
  obtain ⟨hquote, hdepth⟩ := isOpen_iff.1 hopen
  have hin : s.take '(' = { s.push '(' with depth := s.depth + 1 } := by simp [take, hquote]
  have hout : ∀ t : Scan, t.quote = none → t.take ')' = { t.push ')' with depth := t.depth - 1 } :=
    fun t ht => by simp [take, ht]
  rw [List.append_assoc, List.cons_append, compounds_take (by decide) (by decide) (by decide), hin,
    compounds_plain hcs (by exact hquote), List.singleton_append,
    compounds_take (by decide) (by decide) (by decide), hout _ (by exact hquote)]
  simp [push]

/-! ## Between compounds -/

/-- In the open, a blank ends the compound. -/
theorem compounds_blank {s : Scan} (hopen : s.isOpen = true) {c : Char} (hc : isBlank c = true)
    (rest : List Char) : s.compounds (c :: rest) = s.finished ++ s.pastBlank.compounds rest := by
  rw [compounds]
  · rw [if_pos (by simp [hopen, hc])]
  · rintro d more rfl
    exact absurd hc (by decide)

@[simp] theorem finished_pastBlank (s : Scan) : s.pastBlank.finished = [] := by
  unfold pastBlank finished
  split <;> rfl

@[simp] theorem pastBlank_pastBlank (s : Scan) : s.pastBlank.pastBlank = s.pastBlank := by
  unfold pastBlank
  split <;> rfl

@[simp] theorem isOpen_pastBlank (s : Scan) : s.pastBlank.isOpen = s.isOpen := by
  unfold pastBlank
  split <;> rfl

/-- The sign for a child, with the blanks around it, ends a compound. -/
theorem compounds_joint {s : Scan} (hopen : s.isOpen = true) (rest : List Char) :
    s.compounds (' ' :: '>' :: ' ' :: rest) = s.finished ++ s.pastChild.compounds rest := by
  have hblank : isBlank ' ' = true := by decide
  have hsign : isBlank '>' = false := by decide
  have hchild : ∀ more, s.pastBlank.compounds ('>' :: more) = s.pastChild.compounds more := by
    intro more
    have hsame : s.pastBlank.pastChild = s.pastChild := by
      unfold pastBlank
      split <;> rfl
    rw [compounds]
    · simp [hopen, hsign, hsame]
    · simp
  have hopenchild : s.pastChild.isOpen = true := hopen
  rw [compounds_blank hopen hblank, hchild, compounds_blank hopenchild hblank]
  rfl

/-- Before a blank, or at the end, more blanks change nothing. -/
theorem compounds_blanks {gap : List Char} (hgap : ∀ c ∈ gap, isBlank c = true) {s : Scan}
    (hopen : s.isOpen = true) {rest : List Char} (hrest : ∀ c ∈ rest.head?, isBlank c = true) :
    s.compounds (gap ++ rest) = s.compounds rest := by
  induction gap with
  | nil => rfl
  | cons c gap ih =>
    obtain ⟨hc, hgap⟩ := List.forall_mem_cons.1 hgap
    have hmore : ∀ d ∈ (gap ++ rest).head?, isBlank d = true := by
      cases gap with
      | nil => exact hrest
      | cons d gap => simpa using hgap d (by simp)
    rw [← ih hgap, List.cons_append, compounds_blank hopen hc]
    cases hnext : gap ++ rest with
    | nil => simp [compounds]
    | cons d more =>
      rw [hnext] at hmore
      have hd := hmore d rfl
      rw [compounds_blank hopen hd, compounds_blank (by simpa using hopen) hd]
      simp

end Scan

/-! ## Paths of children -/

/-- The compounds of a path of children. -/
def segments : List String → List Compound
  | [] => []
  | t :: ts => ⟨none, t⟩ :: ts.map fun t => ⟨some .child, t⟩

theorem toList_path_cons_cons (t t' : String) (ts : List String) :
    (Locator.path (t :: t' :: ts)).toList
      = t.toList ++ ' ' :: '>' :: ' ' :: (Locator.path (t' :: ts)).toList := by
  have hchild : Combinator.child.text.toList = [' ', '>', ' '] := by decide
  rw [Locator.path, String.intercalate_cons_of_ne_nil (List.cons_ne_nil _ _),
    String.toList_append, String.toList_append, hchild, ← Locator.path]
  simp

/-- The text `t` is `u`, possibly with blanks behind it. -/
def Padded (u t : String) : Prop :=
  ∃ gap, t.toList = u.toList ++ gap ∧ ∀ c ∈ gap, isBlank c = true

theorem Padded.refl (t : String) : Padded t t := ⟨[], by simp, by simp⟩

/-- Before a blank, or at the end, a compound is taken without the blanks behind it. -/
theorem Padded.compounds {u t : String} (h : Padded u t) (hu : Scan.Takes u.toList)
    (k : Option Combinator) (rest : List Char) (hrest : ∀ c ∈ rest.head?, isBlank c = true) :
    Scan.compounds { combinator := k } (t.toList ++ rest)
      = Scan.compounds { combinator := k, compound := u.toList } rest := by
  obtain ⟨gap, hsplit, hgap⟩ := h
  rw [hsplit, List.append_assoc, hu _ _ rfl]
  exact Scan.compounds_blanks hgap rfl hrest

/-- The induction is on the steps, with the combinator that the one before has left. -/
theorem compounds_intercalate {us ts : List String} (hpadded : List.Forall₂ Padded us ts)
    (h : ∀ u ∈ us, u ≠ "" ∧ Scan.Takes u.toList) {u t : String} (ht : Padded u t)
    (hu : u ≠ "" ∧ Scan.Takes u.toList) (k : Option Combinator) :
    Scan.compounds { combinator := k } (Locator.path (t :: ts)).toList
      = ⟨k, u⟩ :: us.map fun u => ⟨some .child, u⟩ := by
  have hne : ∀ {t : String}, t ≠ "" → t.toList ≠ [] := fun h h' => h (String.toList_eq_nil_iff.1 h')
  induction hpadded generalizing u t k with
  | nil =>
    have hread := ht.compounds hu.2 k [] (by simp)
    rw [List.append_nil] at hread
    simp [Locator.path, hread, Scan.compounds, Scan.finished, hne hu.1]
  | @cons u' t' us ts ht' _ ih =>
    obtain ⟨hu', hus⟩ := List.forall_mem_cons.1 h
    have hblank : isBlank ' ' = true := by decide
    have hread := ht.compounds hu.2 k
      (' ' :: '>' :: ' ' :: (Locator.path (t' :: ts)).toList) (by simp [hblank])
    rw [toList_path_cons_cons, hread, Scan.compounds_joint rfl]
    simp [Scan.finished, Scan.pastChild, hne hu.1, ih hus ht' hu']

/-- **A path of children** is taken apart into its compounds, without the blanks behind them. -/
theorem compounds_path_of_padded {us ts : List String} (hpadded : List.Forall₂ Padded us ts)
    (h : ∀ u ∈ us, u ≠ "" ∧ Scan.Takes u.toList) : compounds (Locator.path ts) = segments us := by
  cases hpadded with
  | nil => rfl
  | cons ht hpadded =>
    obtain ⟨hu, hus⟩ := List.forall_mem_cons.1 h
    exact compounds_intercalate hpadded hus ht hu none

/-- **The compounds of a path** are its steps, each behind the sign for a child but the first. -/
theorem compounds_path {ts : List String} (h : ∀ t ∈ ts, t ≠ "" ∧ Scan.Takes t.toList) :
    compounds (Locator.path ts) = segments ts :=
  compounds_path_of_padded (List.forall₂_same.2 fun t _ => .refl t) h

/-- Compounds that are children of one another are put together as their path. -/
theorem join_eq_path {cs : List Compound} (h : ∀ c ∈ cs.tail, c.combinator = some .child) :
    join cs = Locator.path (cs.map Compound.text) := by
  cases cs with
  | nil => rfl
  | cons first rest =>
    rw [List.tail_cons] at h
    induction rest generalizing first with
    | nil => simp [join, Locator.path]
    | cons c more ih =>
      obtain ⟨hc, hmore⟩ := List.forall_mem_cons.1 h
      have hrest := ih c hmore
      have hpath : Locator.path ((first :: c :: more).map Compound.text)
          = first.text ++ Combinator.child.text
            ++ Locator.path ((c :: more).map Compound.text) := by
        rw [List.map_cons, List.map_cons, Locator.path,
          String.intercalate_cons_of_ne_nil (List.cons_ne_nil _ _), ← Locator.path]
      rw [hpath, ← hrest]
      simp [join, Compound.continued, hc, String.append_assoc]

end Retrace.Path
