/-
What the description of one element says.

The texts that a locator is put together from are written selectors of one compound: an id, or the
tag with all classes, to which a position may be added. So they are read back
(`Selector.read_text`), and how often one is found can be said of the conditions and no longer of
the text.

So all that matters about the selector engine is what it finds for such a text, and that the empty
text is none (`LawfulEngine`).

A description holds of its element. It holds of elements of the same tag only, and unless it is
found exactly once, it tells the element from its siblings (`describe_spec`).
-/
import Retrace.Locator
import Retrace.Proofs.Except
import Retrace.Proofs.Selector.Spelling

set_option autoImplicit false

namespace Retrace

open Selector

/-- An engine that takes the empty text for no selector and finds what a written compound asks
for. -/
class Selector.LawfulEngine [Engine] : Prop where
  find_empty : ∀ (page : Page) (root : Option Nat) (found : List Nat),
    Engine.find page root "" ≠ .ok found
  find_text : ∀ {conditions : List Condition}, (one conditions).Writable →
    ∀ (page : Page) (root : Option Nat),
      Engine.find page root (one conditions).text = .ok ((one conditions).select page root)

/-- A page whose tags, classes and ids can all be written in selectors. -/
structure Page.Nameable (page : Page) : Prop where
  tags : ∀ i < page.size, IsTagName (page.tag i)
  classes : ∀ i < page.size, ∀ c ∈ page.classes i, Spellable c
  ids : ∀ i < page.size, Spellable (page.attr i "id")

/-- An element whose tag and classes can be written in selectors. -/
structure Page.NameableAt (page : Page) (i : Nat) : Prop where
  tag : IsTagName (page.tag i)
  classes : ∀ c ∈ page.classes i, Spellable c

theorem Page.Nameable.at {page : Page} (hp : page.Nameable) {i : Nat} (hi : i < page.size) :
    page.NameableAt i :=
  ⟨hp.tags i hi, hp.classes i hi⟩

instance (page : Page) : Decidable page.Nameable :=
  decidable_of_iff ((∀ i < page.size, IsTagName (page.tag i))
      ∧ (∀ i < page.size, ∀ c ∈ page.classes i, Spellable c)
      ∧ ∀ i < page.size, Spellable (page.attr i "id"))
    ⟨fun ⟨h₁, h₂, h₃⟩ => ⟨h₁, h₂, h₃⟩, fun h => ⟨h.tags, h.classes, h.ids⟩⟩

namespace Locator

variable {page : Page} {root : Option Nat} {i : Nat}

/-! ## Texts as written selectors -/

/-- The engine of the model finds what any written selector asks for. -/
theorem find_text {s : Selector} (h : s.Writable) (page : Page) (root : Option Nat) :
    find page root s.text = .ok (s.select page root) := by
  show (fun t : Selector => t.select page root) <$> Selector.read s.text = _
  rw [read_text h]
  rfl

instance : LawfulEngine where
  find_empty page root found hfind := by
    have hempty : Selector.read "" = .error ⟨"", 0, .noCompound⟩ := by decide +kernel
    obtain ⟨s, hread, -⟩ := map_eq_ok_iff.1
      (show (fun s : Selector => s.select page root) <$> Selector.read "" = .ok found from hfind)
    simp [hempty] at hread
  find_text h page root := find_text h page root

/-- How often a written compound is found is a matter of its conditions. -/
theorem count_text [Engine] [LawfulEngine] {conditions : List Condition}
    (h : (Selector.one conditions).Writable) (page : Page) (root : Option Nat) :
    count page root (Selector.one conditions).text
      = .ok ((Selector.one conditions).select page root).length := by
  rw [count, find, LawfulEngine.find_text h]
  rfl

/-- Full lower case is the same as lower case for ASCII, where there is nothing but ASCII. -/
theorem lower_eq_lowerAscii {s : String} (h : ∀ c ∈ s.toList, c.toNat < 0x80) :
    Text.lower s = Text.lowerAscii s := by
  have hfrom : ∀ cs before : List Char, (∀ c ∈ cs, c.toNat < 0x80) →
      Text.lowerFrom before cs = cs.map Char.toLower := by
    intro cs
    induction cs with
    | nil => intro before _; rfl
    | cons c rest ih =>
      intro before hall
      obtain ⟨hc, hrest⟩ := List.forall_mem_cons.1 hall
      rw [Text.lowerFrom_cons_of_lt hc, ih _ hrest, List.map_cons]
  rw [Text.lower, Text.lowerAscii, hfrom _ _ h]

/-- Tags that can be written are ASCII. -/
theorem toNat_lt_of_mem_tag {name : String} (h : IsTagName name) :
    ∀ c ∈ name.toList, c.toNat < 0x80 := by
  intro c hc
  rcases h.2 c hc with hc | rfl | rfl
  · simp only [Char.isAlphanum, Bool.or_eq_true, isAlpha_iff_toNat, isDigit_iff_toNat] at hc
    omega
  · decide
  · decide

/-- The conditions that tag and classes of an element make. -/
def plainConditions (page : Page) (i : Nat) : List Condition :=
  .tag (page.tag i) :: (page.classes i).map .hasClass

/-- The description by tag and classes is the written form of these. -/
theorem byTagAndClasses_eq (htag : IsTagName (page.tag i)) :
    byTagAndClasses page i = (Selector.one (plainConditions page i)).text := by
  rw [← String.toList_inj, byTagAndClasses, lower_eq_lowerAscii (toNat_lt_of_mem_tag htag),
    page.lowerAscii_tag, text, String.toList_ofList]
  simp [spell, spellCompound, plainConditions, Condition.spell, List.flatMap_map, escape]

theorem byId_eq (id : String) : byId id = (Selector.one [.id id]).text := by
  rw [← String.toList_inj, byId, text]
  simp [spell, spellCompound, Condition.spell, escape]

/-- A position is written behind the conditions. -/
theorem withPosition_eq (conditions : List Condition) (n : Nat) :
    withPosition (Selector.one conditions).text n
      = (Selector.one (conditions ++ [.position n])).text := by
  have hposition : (s!":nth-of-type({n})").toList = (Condition.position n).spell := by
    show (":nth-of-type(" ++ n.repr ++ ")").toList = _
    have hclose : ")".toList = [')'] := by decide
    rw [String.toList_append, String.toList_append, Nat.toList_repr, hclose, List.append_assoc]
    rfl
  rw [← String.toList_inj, withPosition, String.toList_append, hposition, text, text]
  simp only [spell, spellCompound, String.toList_ofList, List.flatMap_append, List.flatMap_cons,
    List.flatMap_nil, List.append_nil]

/-! ## What a description says -/

/-- The conditions are those of the tag and the classes of the element, and possibly of its
position. -/
def Describes (page : Page) (i : Nat) (conditions : List Condition) : Prop :=
  conditions = plainConditions page i
    ∨ conditions = plainConditions page i ++ [.position (page.positionOfType i)]

/-- The conditions hold of no other child of the element's parent. -/
def TellsApart (page : Page) (i : Nat) (conditions : List Condition) : Prop :=
  ∀ scope, ∀ j < page.size, page.parent? j = page.parent? i →
    (Selector.one conditions).holds page scope j = true → j = i

theorem ne_empty_of_mem_words {s w : String} (h : w ∈ Text.words s) : w ≠ "" := by
  simp only [Text.words, List.mem_map, List.mem_filter, Bool.not_eq_true',
    List.isEmpty_eq_false_iff] at h
  obtain ⟨cs, ⟨-, hne⟩, rfl⟩ := h
  intro hempty
  exact hne (by simpa using congrArg String.toList hempty)

theorem writable_plainConditions (hp : page.NameableAt i) :
    ∀ c ∈ plainConditions page i, c.Writable := by
  intro c hc
  rcases List.mem_cons.1 hc with rfl | hc
  · exact ⟨hp.tag, page.lowerAscii_tag i⟩
  · obtain ⟨name, hname, rfl⟩ := List.mem_map.1 hc
    exact ⟨ne_empty_of_mem_words hname, hp.classes name hname⟩

/-- A description can be written if the names of its element can. -/
theorem Describes.writable {conditions : List Condition} (h : Describes page i conditions)
    (hp : page.NameableAt i) : WritableCompound conditions := by
  have hplain := writable_plainConditions hp
  have hclasses : ∀ c ∈ (page.classes i).map Condition.hasClass, c.isTag = false := by
    intro c hc
    obtain ⟨name, -, rfl⟩ := List.mem_map.1 hc
    rfl
  rcases h with rfl | rfl
  · exact ⟨List.cons_ne_nil _ _, hplain, hclasses⟩
  · refine ⟨List.cons_ne_nil _ _, ?_, ?_⟩
    · intro c hc
      rcases List.mem_append.1 hc with hc | hc
      · exact hplain c hc
      · obtain rfl := List.mem_singleton.1 hc
        trivial
    · intro c hc
      rcases List.mem_append.1 hc with hc | hc
      · exact hclasses c hc
      · obtain rfl := List.mem_singleton.1 hc
        rfl

theorem holds_plainConditions (page : Page) (scope i : Nat) :
    (Selector.one (plainConditions page i)).holds page scope i = true := by
  simp [Selector.holds, plainConditions, Condition.holds]

/-- A description holds of its own element. -/
theorem Describes.holds {conditions : List Condition} (h : Describes page i conditions)
    (scope : Nat) : (Selector.one conditions).holds page scope i = true := by
  have hplain := holds_plainConditions page scope i
  rcases h with rfl | rfl
  · exact hplain
  · simp only [Selector.holds, List.all_append, Bool.and_eq_true] at hplain ⊢
    exact ⟨hplain, by simp [Condition.holds]⟩

/-- A description holds of elements of the same tag only. -/
theorem Describes.tag_eq {conditions : List Condition} (h : Describes page i conditions)
    {scope j : Nat} (hj : (Selector.one conditions).holds page scope j = true) :
    page.tag j = page.tag i := by
  have htag : Condition.tag (page.tag i) ∈ conditions := by
    rcases h with rfl | rfl <;> simp [plainConditions]
  have := List.all_eq_true.1 hj _ htag
  simpa [Condition.holds] using this

/-- Siblings of one tag have different positions. -/
theorem tellsApart_position (page : Page) (i : Nat) :
    TellsApart page i (plainConditions page i ++ [.position (page.positionOfType i)]) := by
  intro scope j hj hparent hholds
  have htag := Describes.tag_eq (.inr rfl) hholds
  have hpos := List.all_eq_true.1 hholds (.position (page.positionOfType i)) (by simp)
  exact Page.eq_of_positionOfType_eq hj hparent htag (by simpa [Condition.holds] using hpos)

/-- An element without other siblings of its tag is told apart by its tag. -/
theorem tellsApart_plain (hi : i < page.size) (h : (page.sameTagSiblings i).length ≤ 1) :
    TellsApart page i (plainConditions page i) := by
  intro scope j hj hparent hholds
  have htag := Describes.tag_eq (.inl rfl) hholds
  exact Page.eq_of_length_sameTagSiblings_le_one hi hj hparent htag h

/-- The conditions of a description. A position comes behind tag and classes if these are ambiguous,
but only where it can tell anything apart. -/
def description (page : Page) (root : Option Nat) (i : Nat) : List Condition :=
  if ((Selector.one (plainConditions page i)).select page root).length ≠ 1
      ∧ 1 < (page.sameTagSiblings i).length then
    plainConditions page i ++ [.position (page.positionOfType i)]
  else plainConditions page i

/-- The conditions of a description are those of its element. -/
theorem describes_description (page : Page) (root : Option Nat) (i : Nat) :
    Describes page i (description page root i) := by
  unfold description
  split
  · exact .inr rfl
  · exact .inl rfl

/-- A description is the written form of its conditions. -/
theorem describe_eq [Engine] [LawfulEngine] (hp : page.NameableAt i) (root : Option Nat) :
    describe page root i = .ok (Selector.one (description page root i)).text := by
  have hplain : Describes page i (plainConditions page i) := .inl rfl
  have hcount := count_text (hplain.writable hp) page root
  rw [describe, byTagAndClasses_eq hp.tag, hcount, description]
  by_cases hposition : ((Selector.one (plainConditions page i)).select page root).length ≠ 1
      ∧ 1 < (page.sameTagSiblings i).length
  · rw [if_pos hposition, ← withPosition_eq]
    simp [bind, Except.bind, hposition, pure, Except.pure]
  · rw [if_neg hposition]
    simp [bind, Except.bind, hposition, pure, Except.pure]

/-- **One description.** It is a written form of the conditions of its element, and unless it is
found exactly once below the root, it tells the element from its siblings. -/
theorem describe_spec (hp : page.NameableAt i) (hi : i < page.size) (root : Option Nat) :
    ∃ conditions, Describes page i conditions
      ∧ describe page root i = .ok (Selector.one conditions).text
      ∧ (((Selector.one conditions).select page root).length ≠ 1
        → TellsApart page i conditions) := by
  refine ⟨_, describes_description page root i, describe_eq hp root, ?_⟩
  unfold description
  split
  · exact fun _ => tellsApart_position page i
  · next hposition => exact fun hne => tellsApart_plain hi (by omega)

end Locator

end Retrace
