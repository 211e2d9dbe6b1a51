/-
The path of descriptions that leads to an element.

A locator is built by walking outwards: a description that is found exactly once ends the walk, and
any other one goes behind the path of the parent. `Trail` is the outcome of such a walk, with the
facts that the walk has established on its way and that are gone from the finished text. All
statements about locators follow from it: that the path matches its element (`Trail.holds`), where
it begins (`Trail.exists_first`), and when it matches nothing else.

The compounds of a trail make one selector, of which the text of the locator is the written form.
-/
import Mathlib.Data.List.Induction
import Retrace.Proofs.Locator.Description

set_option autoImplicit false

namespace Retrace.Locator

open Selector

variable {page : Page} {root : Option Nat}

/-! ## Selectors of paths -/

/-- A compound behind the path to the parent, or alone if there is no such path. -/
def behind (outer : Option Selector) (conditions : List Condition) : Selector :=
  match outer with
  | none => .one conditions
  | some outer => .within outer .child conditions

/-- The selector of a path of compounds, outermost first. -/
def chain (compounds : List (List Condition)) : Option Selector :=
  compounds.foldl (fun outer conditions => some (behind outer conditions)) none

@[simp] theorem chain_nil : chain [] = none := rfl

@[simp] theorem chain_append (outer : List (List Condition)) (conditions : List Condition) :
    chain (outer ++ [conditions]) = some (behind (chain outer) conditions) := by
  simp [chain]

theorem chain_eq_none_iff {compounds : List (List Condition)} :
    chain compounds = none ↔ compounds = [] := by
  rcases compounds.eq_nil_or_concat' with rfl | ⟨outer, conditions, rfl⟩ <;> simp

/-- The texts of single compounds. -/
def texts (compounds : List (List Condition)) : List String :=
  compounds.map fun conditions => (Selector.one conditions).text

/-- The text of a path is the written form of its selector. The induction goes along the path,
which grows at its inner end. -/
theorem path_texts (compounds : List (List Condition)) :
    path (texts compounds) = ((chain compounds).map Selector.text).getD "" := by
  induction compounds using List.reverseRecOn with
  | nil => rfl
  | append_singleton outer conditions ih =>
    rw [chain_append, texts, List.map_append, ← texts, List.map_singleton]
    cases hchain : chain outer with
    | none =>
      obtain rfl := chain_eq_none_iff.1 hchain
      rfl
    | some s =>
      have hne : texts outer ≠ [] := by
        intro hnil
        have houter : outer = [] := by simpa [texts] using hnil
        simp [houter] at hchain
      rw [hchain] at ih
      rw [path] at ih ⊢
      rw [String.intercalate_append_of_ne_nil hne (List.cons_ne_nil _ _), ih]
      simp only [Option.map_some, Option.getD_some, behind]
      rw [← String.toList_inj]
      simp [text, spell, List.append_assoc]

/-- A compound behind a path matches where the compound holds and the path leads to the parent. -/
theorem holds_behind {outer : Option Selector} {conditions : List Condition} {scope i : Nat} :
    (behind outer conditions).holds page scope i = true
      ↔ (Selector.one conditions).holds page scope i = true
        ∧ ∀ s, outer = some s → ∃ p, page.parent? i = some p ∧ s.holds page scope p = true := by
  cases outer with
  | none => simp [behind]
  | some s => simp [behind, Selector.holds, Option.any_eq_true]

/-! ## Trails -/

/-- What a walk outwards from an element comes to, or from outside of all elements. The compounds
are those of the path, outermost first. -/
inductive Trail (page : Page) (root : Option Nat) : Option Nat → List (List Condition) → Prop where
  /-- There is nothing outside of the page. -/
  | top : Trail page root none []
  /-- The root has no description of its own. -/
  | root {i : Nat} : root = some i → Trail page root (some i) []
  /-- A description that is found once ends the walk. -/
  | found {i : Nat} {conditions : List Condition} :
    WritableCompound conditions → (Selector.one conditions).select page root = [i] →
    Trail page root (some i) [conditions]
  /-- Any other description goes behind the path of the parent. -/
  | child {i : Nat} {outer : List (List Condition)} {conditions : List Condition} :
    i ∈ page.below root → WritableCompound conditions → Describes page i conditions →
    ((Selector.one conditions).select page root).length ≠ 1 → TellsApart page i conditions →
    Trail page root (page.parent? i) outer →
    Trail page root (some i) (outer ++ [conditions])

/-- Below a root, what is found once is found alone. -/
theorem select_eq_singleton {s : Selector} {i : Nat} (hi : i ∈ page.below root)
    (hholds : s.holds page (scopeOf root) i = true)
    (hcount : (s.select page root).length = 1) : s.select page root = [i] := by
  have hmem : i ∈ s.select page root := mem_select.2 ⟨hi, hholds⟩
  obtain ⟨a, ha⟩ := List.length_eq_one_iff.1 hcount
  rw [ha, List.mem_singleton] at hmem
  rw [ha, hmem]

/-- An element without a root among those around it has no root itself, and lies below it. -/
theorem mem_below {i : Nat} (hi : i < page.size) (hroot : ∀ r, root = some r → r ∈ page.ancestors i)
    (hne : root ≠ some i) : i ∈ page.below root := by
  cases root with
  | none => exact Page.mem_below_none.2 hi
  | some r =>
    refine Page.mem_below_some.2 ⟨hi, ?_, hroot r rfl⟩
    rintro rfl
    exact hne rfl

/-- The description by id is used only if it finds its element alone. -/
theorem uniqueId?_spec (hp : page.Nameable) {i : Nat} (hi : i ∈ page.below root) (useIds : Bool) :
    uniqueId? page root useIds i = .ok none
      ∨ ∃ conditions, uniqueId? page root useIds i = .ok (some (Selector.one conditions).text)
        ∧ WritableCompound conditions ∧ (Selector.one conditions).select page root = [i] := by
  unfold uniqueId?
  by_cases hid : (useIds && decide (page.attr i "id" ≠ "")) = true
  · have hne : page.attr i "id" ≠ "" := by simpa using (Bool.and_eq_true_iff.1 hid).2
    have hw : WritableCompound [.id (page.attr i "id")] := by
      refine ⟨List.cons_ne_nil _ _, ?_, by simp⟩
      intro c hc
      obtain rfl := List.mem_singleton.1 hc
      exact ⟨hne, hp.ids i (Page.lt_size_of_mem_below hi)⟩
    have hcount := count_text hw page root
    have hholds : (Selector.one [.id (page.attr i "id")]).holds page (scopeOf root) i = true := by
      simp [Selector.holds, Condition.holds]
    simp only [hid, if_true, byId_eq, hcount, bind, Except.bind, pure, Except.pure]
    by_cases hone : ((Selector.one [.id (page.attr i "id")]).select page root).length = 1
    · exact .inr ⟨_, by rw [if_pos hone], hw, select_eq_singleton hi hholds hone⟩
    · exact .inl (by rw [if_neg hone])
  · exact .inl (by simp only [hid]; rfl)

/-- **Walking outwards.** The walk succeeds and comes to a trail. The induction goes up the chain of
the element. -/
theorem exists_trail (hp : page.Nameable) (useIds : Bool) {i : Nat} (hi : i < page.size)
    (hroot : ∀ r, root = some r → r ∈ page.ancestors i) :
    ∃ compounds, stepsAlong page root useIds (page.ancestors i) = .ok (texts compounds)
      ∧ Trail page root (some i) compounds := by
  induction i using Nat.strongRecOn with
  | ind i ih =>
    obtain ⟨around, hchain⟩ : ∃ around, page.ancestors i = i :: around := ⟨_, page.ancestors_eq i⟩
    rw [hchain, stepsAlong]
    by_cases hself : root = some i
    · exact ⟨[], by simp [hself, texts], .root hself⟩
    have hbelow := mem_below hi hroot hself
    rw [if_neg hself]
    -- an id that is found once ends the walk
    rcases uniqueId?_spec hp hbelow useIds with hid | ⟨conditions, hid, hw, hselect⟩
    swap
    · exact ⟨[conditions], by simp [hid, texts, bind, Except.bind, pure, Except.pure],
        .found hw hselect⟩
    obtain ⟨conditions, hdescribes, hdescribe, hapart⟩ := describe_spec (hp.at hi) hi root
    have hw := hdescribes.writable (hp.at hi)
    have hcount := count_text hw page root
    -- so does any other description that is
    by_cases hone : ((Selector.one conditions).select page root).length = 1
    · have hselect := select_eq_singleton hbelow (hdescribes.holds _) hone
      refine ⟨[conditions], ?_, .found hw hselect⟩
      simp [hid, hdescribe, hcount, hone, texts, bind, Except.bind, pure, Except.pure]
    -- the description is ambiguous, so the path goes on with that of the parent
    have hrest : ∃ outer, stepsAlong page root useIds around = .ok (texts outer)
        ∧ Trail page root (page.parent? i) outer := by
      cases hparent : page.parent? i with
      | none =>
        rw [Page.ancestors_of_parent?_eq_none hparent] at hchain
        obtain rfl := (List.cons.inj hchain).2
        exact ⟨[], rfl, .top⟩
      | some p =>
        rw [Page.ancestors_of_parent?_eq_some hparent] at hchain
        obtain rfl := (List.cons.inj hchain).2
        refine ih p (Page.parent?_lt hparent) (Nat.lt_trans (Page.parent?_lt hparent) hi) ?_
        intro r hr
        have hmem := hroot r hr
        rw [Page.ancestors_of_parent?_eq_some hparent] at hmem
        rcases List.mem_cons.1 hmem with rfl | hmem
        · exact absurd hr hself
        · exact hmem
    obtain ⟨outer, houter, htrail⟩ := hrest
    refine ⟨outer ++ [conditions], ?_, .child hbelow hw hdescribes hone (hapart hone) htrail⟩
    simp [hid, hdescribe, hcount, hone, houter, texts, bind, Except.bind, pure, Except.pure]

/-! ## What a trail says -/

theorem Trail.ne_nil {i : Nat} {compounds : List (List Condition)}
    (h : Trail page root (some i) compounds) (hself : root ≠ some i) : compounds ≠ [] := by
  cases h with
  | root hroot => exact absurd hroot hself
  | found _ _ => exact List.cons_ne_nil _ _
  | child _ _ _ _ _ _ => simp

theorem Trail.writable {element : Option Nat} {compounds : List (List Condition)}
    (h : Trail page root element compounds) {s : Selector} (hs : chain compounds = some s) :
    s.Writable := by
  induction h generalizing s with
  | top => simp at hs
  | root _ => simp at hs
  | found hw _ =>
    obtain rfl := Option.some.inj hs
    exact hw
  | child _ hw _ _ _ _ ih =>
    rw [chain_append] at hs
    obtain rfl := Option.some.inj hs
    cases houter : chain _ with
    | none => exact hw
    | some outer => exact ⟨ih houter, hw⟩

theorem Trail.writable_of_mem {element : Option Nat} {compounds : List (List Condition)}
    (h : Trail page root element compounds) :
    ∀ conditions ∈ compounds, WritableCompound conditions := by
  induction h with
  | top => simp
  | root _ => simp
  | found hw _ =>
    intro conditions hc
    obtain rfl := List.mem_singleton.1 hc
    exact hw
  | child _ hw _ _ _ _ ih =>
    intro conditions hc
    rcases List.mem_append.1 hc with hc | hc
    · exact ih conditions hc
    · obtain rfl := List.mem_singleton.1 hc
      exact hw

/-- The text of a path begins with a compound. -/
theorem Trail.head_path {element : Option Nat} {compounds : List (List Condition)}
    (h : Trail page root element compounds) (hne : compounds ≠ []) :
    ∃ c ∈ (path (texts compounds)).toList.head?, BeginsCompound c := by
  obtain ⟨s, hs⟩ := Option.ne_none_iff_exists'.1 (mt chain_eq_none_iff.1 hne)
  obtain ⟨c, rest, hspell, hc⟩ := head_spell (h.writable hs)
  refine ⟨c, ?_, hc⟩
  simp [path_texts, hs, text, hspell]

/-- **A path matches its element.** -/
theorem Trail.holds {element : Option Nat} {compounds : List (List Condition)}
    (h : Trail page root element compounds) {s : Selector} (hs : chain compounds = some s) :
    ∃ i, element = some i ∧ s.holds page (scopeOf root) i = true := by
  induction h generalizing s with
  | top => simp at hs
  | root _ => simp at hs
  | @found i conditions _ hselect =>
    obtain rfl := Option.some.inj hs
    have hmem : i ∈ (Selector.one conditions).select page root := by simp [hselect]
    exact ⟨i, rfl, (mem_select.1 hmem).2⟩
  | @child i outer conditions _ _ hdescribes _ _ _ ih =>
    rw [chain_append] at hs
    obtain rfl := Option.some.inj hs
    exact ⟨i, rfl, holds_behind.2 ⟨hdescribes.holds _, fun t ht => ih ht⟩⟩

/-- **Where a path begins.** Its first compound holds of an element below the root, which is as
many steps around the element as there are further compounds. -/
theorem Trail.exists_first {element : Option Nat} {compounds : List (List Condition)}
    (h : Trail page root element compounds) {first : List Condition}
    {more : List (List Condition)} (hsplit : compounds = first :: more) :
    ∃ i a, element = some i ∧ (page.ancestors i)[more.length]? = some a ∧ a ∈ page.below root
      ∧ (Selector.one first).holds page (scopeOf root) a = true := by
  have hself : ∀ i, (page.ancestors i)[0]? = some i := by
    intro i
    rw [page.ancestors_eq]
    rfl
  induction h generalizing more with
  | top => simp at hsplit
  | root _ => simp at hsplit
  | @found i conditions _ hselect =>
    obtain ⟨rfl, rfl⟩ := List.cons.inj hsplit
    have hmem : i ∈ (Selector.one conditions).select page root := by simp [hselect]
    exact ⟨i, i, rfl, hself i, mem_select.1 hmem⟩
  | @child i outer conditions hbelow _ hdescribes _ _ _ ih =>
    cases outer with
    | nil =>
      obtain ⟨rfl, rfl⟩ := List.cons.inj hsplit
      exact ⟨i, i, rfl, hself i, hbelow, hdescribes.holds _⟩
    | cons outermost between =>
      rw [List.cons_append] at hsplit
      obtain ⟨rfl, rfl⟩ := List.cons.inj hsplit
      -- one compound less leads from the parent to the same element
      obtain ⟨p, a, hparent, ha, hfirst⟩ := ih rfl
      refine ⟨i, a, rfl, ?_, hfirst⟩
      rw [Page.ancestors_of_parent?_eq_some hparent, List.length_append]
      exact ha

end Retrace.Locator
