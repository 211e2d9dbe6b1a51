/-
Locators that say something.

The locator of an element with a tag is not empty, since it spells at least the tag. Where the walk
outwards ends does not matter: the last step is that of the element itself, and it is an identifier
behind its mark or a description with the tag in front.
-/
import Mathlib.Data.String.Basic
import Retrace.Locator
import Retrace.Proofs.Except

set_option autoImplicit false

namespace Retrace.Locator

/-- Lower case has a character for each character at least. -/
theorem lower_ne_empty {s : String} (h : s ≠ "") : Text.lower s ≠ "" := by
  intro hlower
  have hempty : Text.lowerFrom [] s.toList = [] := by
    simpa [Text.lower] using congrArg String.toList hlower
  cases hs : s.toList with
  | nil => exact h (String.toList_eq_nil_iff.1 hs)
  | cons c rest =>
    rw [hs, Text.lowerFrom] at hempty
    obtain ⟨hsmall, -⟩ := List.append_eq_nil_iff.1 hempty
    split at hsmall
    · split at hsmall <;> simp at hsmall
    · split at hsmall <;> simp at hsmall

theorem append_ne_empty {s t : String} (h : s ≠ "" ∨ t ≠ "") : s ++ t ≠ "" := by
  simpa [or_iff_not_imp_left] using h

/-- A path is not empty if its last step is not. -/
theorem path_append_ne_empty (outer : List String) {description : String}
    (h : description ≠ "") : path (outer ++ [description]) ≠ "" := by
  by_cases houter : outer = []
  · subst houter
    exact h
  · rw [path, String.intercalate_append_of_ne_nil houter (List.cons_ne_nil _ _)]
    exact append_ne_empty (.inr h)

variable [Selector.Engine] {page : Page} {i : Nat}

theorem describe_ne_empty (htag : page.tag i ≠ "") {root : Option Nat} {description : String}
    (h : describe page root i = .ok description) : description ≠ "" := by
  have hplain : byTagAndClasses page i ≠ "" := append_ne_empty (.inl (lower_ne_empty htag))
  unfold describe at h
  obtain ⟨found, -, h⟩ := exists_of_bind_ok h
  split at h
  · obtain rfl := Except.ok.inj h
    exact append_ne_empty (.inl hplain)
  · obtain rfl := Except.ok.inj h
    exact hplain

/-- An id that is used stands behind its mark. -/
theorem uniqueId?_ne_empty {root : Option Nat} {useIds : Bool} {id : String}
    (h : uniqueId? page root useIds i = .ok (some id)) : id ≠ "" := by
  unfold uniqueId? at h
  dsimp only at h
  split at h
  · obtain ⟨found, -, h⟩ := exists_of_bind_ok h
    have heq := Except.ok.inj h
    split at heq
    · obtain rfl := Option.some.inj heq
      exact append_ne_empty (.inl (by decide))
    · simp at heq
  · simp [pure, Except.pure] at h

/-- The steps to an element with a tag end with one that says something. -/
theorem exists_last_of_stepsAlong (htag : page.tag i ≠ "") {useIds : Bool} {around : List Nat}
    {steps : List String} (h : stepsAlong page none useIds (i :: around) = .ok steps) :
    ∃ outer description, steps = outer ++ [description] ∧ description ≠ "" := by
  rw [stepsAlong, if_neg (by simp)] at h
  obtain ⟨id?, hid, h⟩ := exists_of_bind_ok h
  split at h
  · next id =>
    obtain rfl := Except.ok.inj h
    exact ⟨[], id, rfl, uniqueId?_ne_empty hid⟩
  · obtain ⟨description, hdescribe, h⟩ := exists_of_bind_ok h
    have hne := describe_ne_empty htag hdescribe
    obtain ⟨found, -, h⟩ := exists_of_bind_ok h
    split at h
    · obtain rfl := Except.ok.inj h
      exact ⟨[], description, rfl, hne⟩
    · obtain ⟨outer, -, h⟩ := exists_of_bind_ok h
      obtain rfl := Except.ok.inj h
      exact ⟨outer, description, rfl, hne⟩

/-- The locator of an element with a tag is not empty. -/
theorem synthesize_ne_empty (htag : page.tag i ≠ "") {locator : String}
    (h : synthesize page (some i) none = .ok locator) : locator ≠ "" := by
  obtain ⟨around, haround⟩ : ∃ around, page.ancestors i = i :: around := by
    rw [Page.ancestors_eq]
    split <;> exact ⟨_, rfl⟩
  unfold synthesize steps at h
  dsimp only at h
  rw [haround] at h
  cases hsteps : stepsAlong page none true (i :: around) with
  | error e => simp [hsteps, Functor.map, Except.map] at h
  | ok steps =>
    obtain ⟨outer, description, rfl, hne⟩ := exists_last_of_stepsAlong htag hsteps
    obtain rfl : path (outer ++ [description]) = locator := by
      simpa [hsteps, Functor.map, Except.map] using h
    exact path_append_ne_empty outer hne

end Retrace.Locator
