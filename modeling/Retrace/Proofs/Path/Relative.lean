/-
Paths that continue the path of a container.

What a path adds to that of a container is read off its text. Where the path was put together from
the container's path, a combinator and a further path, the further path is got back, and so is
the combinator. The other way round, a path adds something only if its text goes on with nothing or
with a character of a combinator.
-/
import Mathlib.Data.List.Basic
import Retrace.Path.Basic

set_option autoImplicit false

namespace Retrace.Path

variable {container : String}

theorem relativeTo?_self (hne : container ≠ "") : relativeTo? container container = some "" := by
  have hprefix : container.toList.isPrefixOf? container.toList = some [] :=
    List.isPrefixOf?_eq_some_iff_append_eq.2 (List.append_nil _)
  rw [relativeTo?, if_neg hne, hprefix]

/-- Neither end of a combinator belongs to the path behind it. -/
theorem dropWhile_isJoint_text (joint : Combinator) {cs : List Char}
    (hcs : ∃ c ∈ cs.head?, isJoint c = false) :
    (joint.text.toList ++ cs).dropWhile isJoint = cs := by
  obtain ⟨c, hhead, hc⟩ := hcs
  obtain ⟨rest, rfl⟩ := List.head?_eq_some_iff.1 hhead
  have hblank : isJoint ' ' = true := by decide
  have hsign : isJoint '>' = true := by decide
  have hchild : Combinator.child.text.toList = [' ', '>', ' '] := by decide
  have hdescendant : Combinator.descendant.text.toList = [' '] := by decide
  cases joint with
  | child => simp [hchild, hblank, hsign, hc]
  | descendant => simp [hdescendant, hblank, hc]

/-- A combinator begins with a blank. -/
theorem exists_text_toList (joint : Combinator) : ∃ more, joint.text.toList = ' ' :: more := by
  cases joint with
  | child => exact ⟨['>', ' '], by decide⟩
  | descendant => exact ⟨[], by decide⟩

/-- **Containment is read off.** A path behind a combinator is what the whole adds. -/
theorem relativeTo?_append (hne : container ≠ "") (joint : Combinator) {path : String}
    (hpath : ∃ c ∈ path.toList.head?, isJoint c = false) :
    relativeTo? container (container ++ joint.text ++ path) = some path := by
  have hprefix : container.toList.isPrefixOf? (container ++ joint.text ++ path).toList
      = some (joint.text.toList ++ path.toList) := by
    rw [List.isPrefixOf?_eq_some_iff_append_eq, String.toList_append, String.toList_append,
      List.append_assoc]
  obtain ⟨more, hmore⟩ := exists_text_toList joint
  have hdrop := dropWhile_isJoint_text joint hpath
  have hblank : isJoint ' ' = true := by decide
  rw [relativeTo?, if_neg hne, hprefix]
  rw [hmore, List.cons_append] at hdrop ⊢
  simp only [hblank, if_true, hdrop, String.ofList_toList]

theorem continuesWithChild_append (joint : Combinator) {path : String}
    (hpath : ∃ c ∈ path.toList.head?, Text.isBlank c = false ∧ c ≠ '>') :
    continuesWithChild container (container ++ joint.text ++ path) = true ↔ joint = .child := by
  obtain ⟨c, hhead, hc, hsign⟩ := hpath
  obtain ⟨rest, hrest⟩ := List.head?_eq_some_iff.1 hhead
  have hdrop : (container ++ joint.text ++ path).toList.drop container.length
      = joint.text.toList ++ c :: rest := by
    rw [String.toList_append, String.toList_append, List.append_assoc, ← String.length_toList,
      List.drop_left, hrest]
  have hblank : Text.isBlank ' ' = true := by decide
  have hchild : Combinator.child.text.toList = [' ', '>', ' '] := by decide
  have hdescendant : Combinator.descendant.text.toList = [' '] := by decide
  have hchildSign : Text.isBlank '>' = false := by decide
  rw [continuesWithChild, hdrop]
  cases joint with
  | child => simp [hchild, hblank, hchildSign]
  | descendant => simp [hdescendant, hblank, hc, hsign]

/-- A path adds something only if it goes on with nothing or with a combinator. -/
theorem exists_append_of_relativeTo? {path rest : String}
    (h : relativeTo? container path = some rest) :
    ∃ tail, path.toList = container.toList ++ tail ∧ ∀ c ∈ tail.head?, isJoint c = true := by
  unfold relativeTo? at h
  split at h
  · simp at h
  · split at h
    · simp at h
    · next hprefix =>
      exact ⟨[], (List.isPrefixOf?_eq_some_iff_append_eq.1 hprefix).symm, by simp⟩
    · next c tail hprefix =>
      split at h
      · next hc =>
        refine ⟨c :: tail, (List.isPrefixOf?_eq_some_iff_append_eq.1 hprefix).symm, ?_⟩
        rintro d ⟨⟩
        exact hc
      · simp at h

end Retrace.Path
