/-
The nesting of elements, and how siblings are told apart.

The elements around an element form a chain, which is that of its parent with the element in
front. So whatever lies around something around an element lies around the element itself, and
two elements with a common chain are compared by climbing it together. Among the children of one
parent, those of one tag are told apart by their position.
-/
import Mathlib.Data.List.Basic
import Retrace.Page.Basic

set_option autoImplicit false

namespace Retrace.Page

variable {page : Page}

/-! ## Chains -/

theorem ancestors_of_parent?_eq_none {i : Nat} (h : page.parent? i = none) :
    page.ancestors i = [i] := by
  rw [ancestors_eq, h]

/-- Around an element is its parent, with all that is around that. -/
theorem ancestors_of_parent?_eq_some {i p : Nat} (h : page.parent? i = some p) :
    page.ancestors i = i :: page.ancestors p := by
  rw [ancestors_eq, h]

theorem self_mem_ancestors (page : Page) (i : Nat) : i ∈ page.ancestors i := by
  rw [ancestors_eq]
  exact List.mem_cons_self ..

/-- What is around the parent is around the element. -/
theorem mem_ancestors_of_parent? {i p a : Nat} (h : page.parent? i = some p)
    (ha : a ∈ page.ancestors p) : a ∈ page.ancestors i := by
  rw [ancestors_of_parent?_eq_some h]
  exact List.mem_cons_of_mem _ ha

/-- What is around something around an element is around the element. The induction goes up the
chain of the element. -/
theorem mem_ancestors_trans {i a b : Nat} (ha : a ∈ page.ancestors i)
    (hb : b ∈ page.ancestors a) : b ∈ page.ancestors i := by
  induction i using Nat.strongRecOn with
  | ind i ih =>
    cases hp : page.parent? i with
    | none =>
      rw [ancestors_of_parent?_eq_none hp, List.mem_singleton] at ha
      exact ha ▸ hb
    | some p =>
      rw [ancestors_of_parent?_eq_some hp] at ha
      rcases List.mem_cons.1 ha with rfl | ha
      · exact hb
      · exact mem_ancestors_of_parent? hp (ih p (parent?_lt hp) ha)

theorem mem_ancestors_of_mem_enclosing {i a : Nat} (h : a ∈ page.enclosing i) :
    a ∈ page.ancestors i :=
  List.mem_of_mem_tail h

/-- An element lies in a container if the container is the element or around it. -/
theorem isWithin_iff {i container : Nat} :
    page.isWithin i container = true ↔ container ∈ page.ancestors i := by
  simp [isWithin]

/-- Parents are pushed before their children, so all that is around an element is on the page. -/
theorem lt_size_of_mem_ancestors {i a : Nat} (hi : i < page.size) (ha : a ∈ page.ancestors i) :
    a < page.size :=
  Nat.lt_of_le_of_lt (le_of_mem_ancestors ha) hi

theorem lt_size_of_mem_below {root : Option Nat} {i : Nat} (h : i ∈ page.below root) :
    i < page.size := by
  cases root with
  | none => exact List.mem_range.1 h
  | some root => exact List.mem_range.1 (List.mem_filter.1 h).1

theorem mem_below_none {i : Nat} : i ∈ page.below none ↔ i < page.size := List.mem_range

/-- Below a root is what has the root around it, without the root itself. -/
theorem mem_below_some {root i : Nat} :
    i ∈ page.below (some root) ↔ i < page.size ∧ i ≠ root ∧ root ∈ page.ancestors i := by
  simp [below, places, isWithin]

/-! ## Tags and siblings -/

/-- Tags are kept in lower case. -/
theorem lowerAscii_tag (page : Page) (i : Nat) : Text.lowerAscii (page.tag i) = page.tag i := by
  unfold tag
  cases h : page.elements[i]? with
  | none => rfl
  | some e =>
    obtain ⟨hi, rfl⟩ := Array.getElem?_eq_some_iff.1 h
    exact page.tag_lower i hi

/-- The siblings of an element's tag are the children of its parent with that tag, itself
included. -/
theorem mem_sameTagSiblings {i j : Nat} : j ∈ page.sameTagSiblings i
    ↔ j < page.size ∧ page.parent? j = page.parent? i ∧ page.tag j = page.tag i := by
  simp [sameTagSiblings, places]

/-- Siblings of one tag have the same siblings of that tag. -/
theorem sameTagSiblings_congr {i j : Nat} (hparent : page.parent? j = page.parent? i)
    (htag : page.tag j = page.tag i) : page.sameTagSiblings j = page.sameTagSiblings i := by
  unfold sameTagSiblings
  rw [hparent, htag]

/-- Siblings of one tag are told apart by their position. -/
theorem eq_of_positionOfType_eq {i j : Nat} (hj : j < page.size)
    (hparent : page.parent? j = page.parent? i) (htag : page.tag j = page.tag i)
    (hpos : page.positionOfType j = page.positionOfType i) : j = i := by
  have hmem : j ∈ page.sameTagSiblings i := mem_sameTagSiblings.2 ⟨hj, hparent, htag⟩
  unfold positionOfType at hpos
  rw [sameTagSiblings_congr hparent htag] at hpos
  exact (List.idxOf_inj hmem).1 (by omega)

/-- An element without another sibling of its tag is the only one of its parent and tag. -/
theorem eq_of_length_sameTagSiblings_le_one {i j : Nat} (hi : i < page.size) (hj : j < page.size)
    (hparent : page.parent? j = page.parent? i) (htag : page.tag j = page.tag i)
    (hlength : (page.sameTagSiblings i).length ≤ 1) : j = i := by
  have hmemi : i ∈ page.sameTagSiblings i := mem_sameTagSiblings.2 ⟨hi, rfl, rfl⟩
  have hmemj : j ∈ page.sameTagSiblings i := mem_sameTagSiblings.2 ⟨hj, hparent, htag⟩
  obtain ⟨a, ha⟩ := List.length_eq_one_iff.1
    (Nat.le_antisymm hlength (List.length_pos_of_mem hmemi))
  rw [ha, List.mem_singleton] at hmemi hmemj
  rw [hmemi, hmemj]

end Retrace.Page
