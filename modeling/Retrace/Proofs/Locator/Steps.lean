/-
The elements that the steps of a locator name.

Below a container the walk outwards takes no ids, so each of its steps is the description of one
element, and the descriptions of the elements that it has come by are the steps
(`stepsAlong_eq_texts`). The walk goes from parent to parent (`isChain_named`) and stays below the
container (`mem_below_of_mem_named`).

Of the text of a step it matters whether it survives being taken apart again. It does where class
names have no control characters in them and begin with no digit (`IsPlainClass`): then every
character is written as it is or behind a backslash, while an escape by number would end with a
blank (`escaped_escapeName`).
-/
import Mathlib.Data.List.Chain
import Retrace.Proofs.Locator.Container
import Retrace.Proofs.Locator.Soundness
import Retrace.Proofs.Path.Row

set_option autoImplicit false

namespace Retrace

open Selector
open Retrace.Path (Escaped)

/-! ## Names without numbers in their escapes -/

/-- Is the character one of the controls? -/
def IsControl (c : Char) : Prop := c.toNat < 0x20 ∨ (0x7f ≤ c.toNat ∧ c.toNat ≤ 0x9f)

instance (c : Char) : Decidable (IsControl c) := inferInstanceAs (Decidable (_ ∨ _))

/-- Does the name begin with a digit, or with a hyphen and a digit? -/
def beginsWithDigit : List Char → Bool
  | '-' :: c :: _ => c.isDigit
  | c :: _ => c.isDigit
  | [] => false

/-- A class without control characters that does not begin with a digit. -/
def IsPlainClass (name : String) : Prop :=
  (∀ c ∈ name.toList, ¬ IsControl c) ∧ beginsWithDigit name.toList = false

instance (name : String) : Decidable (IsPlainClass name) :=
  @instDecidableAnd _ _ (List.decidableBAll _ name.toList) _

/-- An element the tag of which is made of letters, digits and hyphens, a letter first, and the
classes of which are plain. -/
structure Page.PlainAt (page : Page) (i : Nat) : Prop where
  head : Retrace.LetterFirst (page.tag i)
  tag : ∀ c ∈ (page.tag i).toList, c.isAlphanum = true ∨ c = '-'
  classes : ∀ c ∈ page.classes i, IsPlainClass c

theorem IsPlainClass.spellable {name : String} (h : IsPlainClass name) : Spellable name := by
  intro c hc
  have hcontrol := h.1 c hc
  unfold IsControl at hcontrol
  refine ⟨?_, by omega⟩
  rintro rfl
  exact hcontrol (.inl (by decide))

theorem Page.PlainAt.nameableAt {page : Page} {i : Nat} (h : page.PlainAt i) :
    page.NameableAt i where
  tag := ⟨h.head, fun c hc => (h.tag c hc).imp_right .inl⟩
  classes := fun c hc => (h.classes c hc).spellable

/-- What needs no escape means nothing to the scan. -/
theorem isPlain_of_needsNoEscape {c : Char} (hblank : Text.isBlank c = false)
    (h : needsNoEscape c = true) : Path.Scan.IsPlain c := by
  refine ⟨?_, hblank, ?_, ?_, ?_, ?_, ?_, ?_, ?_⟩ <;>
    · rintro rfl
      exact absurd h (by decide)

theorem isPlain_of_isAlphanum {c : Char} (h : c.isAlphanum = true) : Path.Scan.IsPlain c := by
  have hname : needsNoEscape c = true := by simp [needsNoEscape, h]
  simp only [Char.isAlphanum, Bool.or_eq_true, isAlpha_iff_toNat, isDigit_iff_toNat] at h
  exact isPlain_of_needsNoEscape (isBlank_eq_false_of_toNat (by omega) (by omega)) hname

/-- Is the character written by its number? -/
def IsNumbered (atStart : Bool) (c : Char) : Prop :=
  IsControl c ∨ (atStart = true ∧ c.isDigit = true)

@[simp] theorem isNumbered_false {c : Char} : IsNumbered false c ↔ IsControl c := by
  simp [IsNumbered]

@[simp] theorem isNumbered_true {c : Char} :
    IsNumbered true c ↔ IsControl c ∨ c.isDigit = true := by
  simp [IsNumbered]

/-- Any other character is written as it is or behind a backslash. -/
theorem escapeChar_of_not_isNumbered {c : Char} {atStart : Bool} (h : ¬ IsNumbered atStart c) :
    (escapeChar atStart c = [c] ∧ needsNoEscape c = true) ∨ escapeChar atStart c = ['\\', c] := by
  have hcontrol : ¬ IsControl c := fun hcontrol => h (.inl hcontrol)
  have hstart : ¬ (atStart && c.isDigit) = true := by
    intro hdigit
    exact h (.inr (by simpa using hdigit))
  have hzero : c ≠ '\x00' := by
    rintro rfl
    exact hcontrol (by decide)
  have hnumber : ¬ (c.toNat < 0x20 || c = '\x7f') = true := by
    intro hnumber
    simp only [Bool.or_eq_true, decide_eq_true_eq] at hnumber
    rcases hnumber with hlow | rfl
    · exact hcontrol (.inl hlow)
    · exact hcontrol (by decide)
  rw [escapeChar, if_neg hzero, if_neg hnumber, if_neg hstart]
  split
  · next hplain => exact .inl ⟨rfl, hplain⟩
  · exact .inr rfl

theorem escaped_escapeChar {c : Char} {atStart : Bool} (h : ¬ IsNumbered atStart c)
    (hblank : Text.isBlank c = false) : Escaped (escapeChar atStart c) := by
  rcases escapeChar_of_not_isNumbered h with ⟨heq, hplain⟩ | heq
  · rw [heq]
    exact .plain (isPlain_of_needsNoEscape hblank hplain) .nil
  · rw [heq]
    exact .escape .nil

/-- A plain class is written without blanks. -/
theorem escaped_escapeName {name : String} (h : IsPlainClass name)
    (hblank : ∀ c ∈ name.toList, Text.isBlank c = false) : Escaped (escapeName name.toList) := by
  obtain ⟨hcontrol, hdigit⟩ := h
  have hmore : ∀ cs : List Char, (∀ c ∈ cs, c ∈ name.toList) →
      Escaped (cs.flatMap (escapeChar false)) := fun cs hcs =>
    Escaped.flatMap fun c hc =>
      escaped_escapeChar (by simpa using hcontrol c (hcs c hc)) (hblank c (hcs c hc))
  have hfirst : ∀ c ∈ name.toList, c.isDigit = false → Escaped (escapeChar true c) :=
    fun c hc hdigit => escaped_escapeChar (by simp [hcontrol c hc, hdigit]) (hblank c hc)
  generalize name.toList = cs at hdigit hmore hfirst
  unfold escapeName
  split
  · exact .nil
  · exact .escape .nil
  · next c rest =>
    have hc := hfirst c (by simp) hdigit
    have hrest := hmore rest fun d hd => by simp [hd]
    exact .plain (by decide) (hc.append hrest)
  · next c rest hlone hhyphen =>
    have hc : c.isDigit = false := by
      rw [beginsWithDigit] at hdigit
      · exact hdigit
      · rintro d more rfl rfl
        exact hhyphen d more rfl rfl
    exact (hfirst c (by simp) hc).append (hmore rest fun d hd => by simp [hd])

namespace Locator

variable {page : Page} {i : Nat}

/-! ## The text of a step -/

/-- Tag and classes are written as the tag and the escaped classes, each behind its point. -/
theorem spellCompound_plainConditions (page : Page) (i : Nat) :
    spellCompound (plainConditions page i)
      = (page.tag i).toList ++ (page.classes i).flatMap fun c => '.' :: escapeName c.toList := by
  simp [spellCompound, plainConditions, Condition.spell, List.flatMap_map]

theorem isPlain_of_mem_tag (h : page.NameableAt i) :
    ∀ c ∈ (page.tag i).toList, Path.Scan.IsPlain c := by
  intro c hc
  rcases h.tag.2 c hc with halnum | rfl | rfl
  · exact isPlain_of_isAlphanum halnum
  · decide
  · decide

theorem escaped_plainConditions (h : page.PlainAt i) :
    Escaped (spellCompound (plainConditions page i)) := by
  rw [spellCompound_plainConditions]
  have htag := Escaped.of_plain (isPlain_of_mem_tag h.nameableAt)
  refine htag.append (Escaped.flatMap fun c hc => ?_)
  refine .plain (by decide) (escaped_escapeName (h.classes c hc) fun d hd => ?_)
  exact Text.not_isBlank_of_mem_words hc hd

/-- A position is taken whole by a scan, with its brackets. -/
theorem takes_spell_position (n : Nat) : Path.Scan.Takes (Condition.position n).spell := by
  have hopening : positionOpening = ":nth-of-type".toList ++ ['('] := by decide
  have hall : ":nth-of-type".toList.all (fun c => decide (Path.Scan.IsPlain c)) = true := by decide
  have hplain : ∀ c ∈ ":nth-of-type".toList, Path.Scan.IsPlain c := fun c hc =>
    of_decide_eq_true (List.all_eq_true.1 hall c hc)
  have hdigits : ∀ c ∈ Nat.toDigits 10 n, Path.Scan.IsPlain c := by
    intro c hc
    have hdigit := Nat.isDigit_of_mem_toDigits (by decide) (by decide) hc
    exact isPlain_of_isAlphanum (by simp [Char.isAlphanum, hdigit])
  have htakes := (Path.Scan.takes_plain hplain).append (Path.Scan.takes_brackets hdigits)
  simpa [Condition.spell, hopening] using htakes

/-- The text of a description is that of tag and classes, and possibly a position. -/
theorem Describes.exists_spell {conditions : List Condition} (h : Describes page i conditions) :
    ∃ tail, spellCompound conditions = spellCompound (plainConditions page i) ++ tail
      ∧ (tail = [] ∨ tail = (Condition.position (page.positionOfType i)).spell) := by
  rcases h with rfl | rfl
  · exact ⟨[], by simp, .inl rfl⟩
  · exact ⟨_, by simp [spellCompound], .inr rfl⟩

section Text

variable {conditions : List Condition}

/-- The text of a description is a compound of its own in every path. -/
theorem Describes.takes_text (h : Describes page i conditions) (hp : page.PlainAt i) :
    (Selector.one conditions).text ≠ ""
      ∧ Path.Scan.Takes (Selector.one conditions).text.toList := by
  have hplain := (escaped_plainConditions hp).takes
  refine ⟨text_ne_empty (h.writable hp.nameableAt), ?_⟩
  rw [text, String.toList_ofList, spell]
  obtain ⟨tail, hspell, rfl | rfl⟩ := h.exists_spell
  · simpa [hspell] using hplain
  · rw [hspell]
    exact hplain.append (takes_spell_position _)

/-- Without its position a description is that by tag and classes. -/
theorem Describes.dropPositions_text (h : Describes page i conditions) (hp : page.PlainAt i) :
    String.ofList (Path.dropPositions (Selector.one conditions).text.toList)
      = (Selector.one (plainConditions page i)).text := by
  have hplain := escaped_plainConditions hp
  have hdrop : Path.dropPositions (spellCompound conditions)
      = spellCompound (plainConditions page i) := by
    obtain ⟨tail, hspell, rfl | rfl⟩ := h.exists_spell
    · rw [hspell, List.append_nil, Path.dropPositions_of_escaped hplain]
    · rw [hspell, Path.dropPositions_append_spell hplain]
  rw [text, String.toList_ofList, spell, hdrop]
  rfl

/-- There is a position in the text of a description unless it is that by tag and classes. -/
theorem Describes.hasPosition_text_iff (h : Describes page i conditions) (hp : page.PlainAt i) :
    Path.hasPosition (Selector.one conditions).text.toList = true
      ↔ conditions ≠ plainConditions page i := by
  have hplain := escaped_plainConditions hp
  rcases h with rfl | rfl
  · rw [text, String.toList_ofList, spell, Path.hasPosition_of_escaped hplain]
    simp
  · have htext : (Selector.one (plainConditions page i
        ++ [.position (page.positionOfType i)])).text.toList
          = spellCompound (plainConditions page i)
            ++ (Condition.position (page.positionOfType i)).spell := by
      simp [text, spell, spellCompound]
    rw [htext, Path.hasPosition_append_spell hplain]
    simp

/-- A description is that of a table row if its element is one. -/
theorem Describes.isTableRow_iff (h : Describes page i conditions) (hp : page.PlainAt i) :
    Path.Compound.isTableRow ⟨none, (Selector.one conditions).text⟩ = true
      ↔ page.tag i = "tr" := by
  obtain ⟨tail, hspell, htail⟩ := h.exists_spell
  have hlower : (page.tag i).toList.map Char.toLower = (page.tag i).toList := by
    have hlist := congrArg String.toList (page.lowerAscii_tag i)
    simpa [Text.lowerAscii] using hlist
  have hrow : "tr".toList = ['t', 'r'] := by decide
  have htag : Path.leadingTag (spellCompound conditions) = (page.tag i).toList := by
    rw [hspell, spellCompound_plainConditions, List.append_assoc]
    refine Path.leadingTag_append hp.head hp.tag fun c hc => ?_
    cases hclasses : page.classes i with
    | cons name more =>
      obtain rfl : '.' = c := by simpa [hclasses] using hc
      exact .inl rfl
    | nil =>
      rcases htail with rfl | rfl
      · simp [hclasses] at hc
      · obtain rfl : ':' = c := by simpa [hclasses, Path.head?_spell_position] using hc
        exact .inr rfl
  rw [Path.Compound.isTableRow, text, String.toList_ofList, spell, htag, hlower, beq_iff_eq, ← hrow,
    String.toList_inj]

end Text

/-! ## The walk outwards -/

/-- The elements that the walk outwards describes: it ends with the first one that is found once, or
below the root. -/
def named (page : Page) (root : Option Nat) : List Nat → List Nat
  | [] => []
  | i :: around =>
    if root = some i then []
    else if ((Selector.one (description page root i)).select page root).length = 1 then [i]
    else i :: named page root around

/-- Without ids, the steps are the descriptions of the elements that the walk names. The induction
is on the elements around; each is described, counted, and gone past if it is ambiguous. -/
theorem stepsAlong_eq_texts {root : Option Nat} {around : List Nat}
    (h : ∀ i ∈ named page root around, page.NameableAt i) :
    stepsAlong page root false around
      = .ok (texts ((named page root around).reverse.map (description page root))) := by
  induction around with
  | nil => rfl
  | cons i around ih =>
    rw [named] at h ⊢
    rw [stepsAlong]
    by_cases hroot : root = some i
    · simp [hroot, texts]
    rw [if_neg hroot] at h ⊢
    have hid : uniqueId? page root false i = .ok none := rfl
    have hcount := fun hp : page.NameableAt i =>
      count_text ((describes_description page root i).writable hp) page root
    by_cases hone : ((Selector.one (description page root i)).select page root).length = 1
    · rw [if_pos hone] at h
      have hp := h i (by simp)
      simp [hroot, hid, describe_eq hp, hcount hp, hone, texts, bind, Except.bind, pure,
        Except.pure]
    · rw [if_neg hone] at h
      have hp := h i (by simp)
      have hrest := ih fun a ha => h a (List.mem_cons_of_mem _ ha)
      simp [hroot, hid, describe_eq hp, hcount hp, hone, hrest, texts, bind, Except.bind, pure,
        Except.pure]

theorem writable_descriptions {elements : List Nat} (root : Option Nat)
    (h : ∀ a ∈ elements, page.NameableAt a) :
    ∀ conditions ∈ elements.map (description page root), WritableCompound conditions :=
  List.forall_mem_map.2 fun a ha => (describes_description page root a).writable (h a ha)

/-- The elements that are named are the innermost ones. -/
theorem isPrefix_named (page : Page) (root : Option Nat) (around : List Nat) :
    named page root around <+: around := by
  induction around with
  | nil => exact List.prefix_rfl
  | cons i around ih =>
    rw [named]
    split
    · exact List.nil_prefix
    · split
      · exact List.cons_prefix_cons.2 ⟨rfl, List.nil_prefix⟩
      · exact List.cons_prefix_cons.2 ⟨rfl, ih⟩

/-- The first element that is named is the one from which the walk starts. -/
theorem exists_named_eq_cons {i : Nat} {root : Option Nat} (h : root ≠ some i) :
    ∃ around, named page root (page.ancestors i) = i :: around := by
  rw [page.ancestors_eq, named, if_neg h]
  split
  · exact ⟨[], rfl⟩
  · exact ⟨_, rfl⟩

/-- Each element is followed by its parent, outwards. -/
theorem isChain_ancestors (page : Page) (i : Nat) :
    (page.ancestors i).IsChain fun a p => page.parent? a = some p := by
  induction i using Nat.strongRecOn with
  | ind i ih =>
    cases hparent : page.parent? i with
    | none =>
      rw [Page.ancestors_of_parent?_eq_none hparent]
      exact .singleton i
    | some p =>
      have hp := ih p (Page.parent?_lt hparent)
      rw [Page.ancestors_of_parent?_eq_some hparent]
      rw [page.ancestors_eq p] at hp ⊢
      exact .cons_cons hparent hp

/-- The elements that are named are on the chain of the element, each the parent of the one before
it. -/
theorem isChain_named (page : Page) (root : Option Nat) (i : Nat) :
    (named page root (page.ancestors i)).IsChain fun a p => page.parent? a = some p := by
  obtain ⟨rest, hrest⟩ := isPrefix_named page root (page.ancestors i)
  have hchain := isChain_ancestors page i
  rw [← hrest] at hchain
  exact hchain.left_of_append

/-- The elements that are named lie below the root. -/
theorem mem_below_of_mem_named {container i : Nat} (hi : i < page.size)
    (h : container ∈ page.ancestors i) :
    ∀ a ∈ named page (some container) (page.ancestors i), a ∈ page.below (some container) := by
  induction i using Nat.strongRecOn with
  | ind i ih =>
    by_cases hself : i = container
    · rw [page.ancestors_eq, named, if_pos (by rw [hself])]
      simp
    have hbelow : i ∈ page.below (some container) := Page.mem_below_some.2 ⟨hi, hself, h⟩
    obtain ⟨p, hparent⟩ : ∃ p, page.parent? i = some p := by
      refine Option.ne_none_iff_exists'.1 fun hnone => ?_
      rw [Page.ancestors_of_parent?_eq_none hnone, List.mem_singleton] at h
      exact hself h.symm
    rw [Page.ancestors_of_parent?_eq_some hparent] at h ⊢
    have hp := (List.mem_cons.1 h).resolve_left (Ne.symm hself)
    have hlt := Page.parent?_lt hparent
    rw [named, if_neg (by simpa using Ne.symm hself)]
    split
    · simpa using hbelow
    · exact List.forall_mem_cons.2 ⟨hbelow, ih p hlt (Nat.lt_trans hlt hi) hp⟩

end Locator

end Retrace
