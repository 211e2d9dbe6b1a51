/-
Where a locator is cut.

A locator inside of a container is the path of its steps, and the path is cut again where no escape
and no bracket goes on. It is cut at the joints of the steps, and also behind each escape by number,
as the blank that ends such an escape is taken for a combinator. At the end of a step that makes no
difference. So the steps are found again exactly if no class in them has a character that is written
by its number, but for one at the very end of a step (`compounds_synthesize_iff`). There are pages
where a class begins with a digit and goes on behind it, and the locator is cut in this class
(`not_joints_digitFirst`).
-/
import Retrace.Proofs.Locator.Row
import Retrace.Proofs.Path.Spaced

set_option autoImplicit false

namespace Retrace

open Selector
open Retrace.Path (Spaced Unspaced unspaced_cons closed segments)

/-! ## Characters that are written by their numbers -/

namespace Selector

section Characters

variable {c : Char} {atStart : Bool}

/-- A control, or a digit in front, is escaped by its number. -/
theorem escapeChar_of_isNumbered (hc : IsSpellable c) (h : IsNumbered atStart c) :
    escapeChar atStart c = numberEscape c ∧ c.toNat < 128 := by
  obtain ⟨hzero, hhigh⟩ := hc
  rw [escapeChar, if_neg hzero]
  rcases h with hcontrol | ⟨hstart, hdigit⟩
  · have hrange : c.toNat < 0x20 ∨ c.toNat = 0x7f := by
      unfold IsControl at hcontrol
      omega
    rcases hrange with hlow | hdelete
    · exact ⟨by simp [hlow], by omega⟩
    · have hc : c = '\x7f' := Char.toNat_inj.1 hdelete
      exact ⟨by simp [hc], by omega⟩
  · have hlt := isDigit_iff_toNat.1 hdigit
    refine ⟨?_, by omega⟩
    split
    · rfl
    · rw [if_pos (by simp [hstart, hdigit])]

theorem escapeChar_ne_nil (atStart : Bool) (c : Char) : escapeChar atStart c ≠ [] := by
  unfold escapeChar numberEscape
  split_ifs <;> simp

/-- A number is written without blanks, and a blank ends it. -/
theorem exists_numberEscape_eq (hlt : c.toNat < 128) :
    ∃ p, numberEscape c = p ++ [' '] ∧ Path.Scan.Takes p ∧ Unspaced p := by
  obtain ⟨-, hhex, hne, -⟩ := shortHex_spec c.toNat hlt
  have hplain : ∀ d ∈ shortHex c.toNat, Path.Scan.IsPlain d := fun d hd =>
    isPlain_of_isAlphanum (isAlphanum_of_isHexDigit (List.all_eq_true.1 hhex d hd))
  obtain ⟨d, ds, hdigits⟩ := List.exists_cons_of_ne_nil hne
  have hback : Text.isBlank '\\' = false := by decide
  have hunspaced := unspaced_cons.2 ⟨hback, Path.unspaced_of_plain hplain⟩
  refine ⟨'\\' :: shortHex c.toNat, rfl, ?_, hunspaced⟩
  -- the backslash is taken with the first digit
  rw [hdigits] at hplain ⊢
  have hmore := Path.Scan.takes_plain (List.forall_mem_cons.1 hplain).2
  exact (Path.Scan.takes_escape d).append hmore

variable (hc : IsSpellable c) (hblank : Text.isBlank c = false)
include hc hblank

/-- A character is written with a blank exactly if it is written by its number. -/
theorem unspaced_escapeChar_iff : Unspaced (escapeChar atStart c) ↔ ¬ IsNumbered atStart c := by
  have hback : Text.isBlank '\\' = false := by decide
  constructor
  · intro h hnumbered
    rw [(escapeChar_of_isNumbered hc hnumbered).1] at h
    have hspace := h ' ' (by simp [numberEscape])
    exact absurd hspace (by decide)
  · intro h
    rcases escapeChar_of_not_isNumbered h with ⟨heq, -⟩ | heq
    · simp [heq, hblank]
    · simp [heq, hblank, hback]

/-- The only blank of an escape is at its end. -/
theorem unspaced_dropLast_escapeChar : Unspaced (escapeChar atStart c).dropLast := by
  by_cases h : IsNumbered atStart c
  · obtain ⟨heq, hlt⟩ := escapeChar_of_isNumbered hc h
    obtain ⟨p, hp, -, hunspaced⟩ := exists_numberEscape_eq hlt
    rwa [heq, hp, List.dropLast_concat]
  · exact ((unspaced_escapeChar_iff hc hblank).2 h).dropLast

/-- An escaped character is made of pieces that the scan takes whole. -/
theorem spaced_escapeChar : Spaced (escapeChar atStart c) := by
  by_cases h : IsNumbered atStart c
  · obtain ⟨heq, hlt⟩ := escapeChar_of_isNumbered hc h
    obtain ⟨p, hp, htakes, hunspaced⟩ := exists_numberEscape_eq hlt
    rw [heq, hp]
    exact .piece htakes hunspaced (.blank (by decide) .nil)
  · exact .of_takes (escaped_escapeChar h hblank).takes ((unspaced_escapeChar_iff hc hblank).2 h)

end Characters

/-! ## Names -/

section Names

variable {name : List Char} (hname : ∀ c ∈ name, IsSpellable c ∧ Text.isBlank c = false)
include hname

/-- An escaped name is made of pieces that the scan takes whole. -/
theorem spaced_escapeName : Spaced (escapeName name) := by
  have hchar : ∀ atStart, ∀ c ∈ name, Spaced (escapeChar atStart c) := fun _ c hc =>
    spaced_escapeChar (hname c hc).1 (hname c hc).2
  unfold escapeName
  split
  · exact .nil
  · have hunspaced : Unspaced ['\\', '-'] := by decide
    exact .of_takes (Path.Scan.takes_escape '-') hunspaced
  · next c rest =>
    have hhyphen : Path.Scan.IsPlain '-' := by decide
    have hfront : Spaced ['-'] := .of_plain (by simpa using hhyphen)
    have hrest := Spaced.flatMap fun d (hd : d ∈ rest) => hchar false d (by simp [hd])
    exact hfront.append ((hchar true c (by simp)).append hrest)
  · next c rest _ _ =>
    have hrest := Spaced.flatMap fun d (hd : d ∈ rest) => hchar false d (by simp [hd])
    exact (hchar true c (by simp)).append hrest

/-- The plain names are those that are written without blanks. -/
theorem unspaced_escapeName_iff : Unspaced (escapeName name)
    ↔ (∀ c ∈ name, ¬ IsControl c) ∧ beginsWithDigit name = false := by
  have hchar : ∀ atStart, ∀ c ∈ name,
      (Unspaced (escapeChar atStart c) ↔ ¬ IsNumbered atStart c) := fun _ c hc =>
    unspaced_escapeChar_iff (hname c hc).1 (hname c hc).2
  have hmore : ∀ rest : List Char, (∀ c ∈ rest, c ∈ name) →
      (Unspaced (rest.flatMap (escapeChar false)) ↔ ∀ c ∈ rest, ¬ IsControl c) := by
    intro rest hrest
    rw [Path.unspaced_flatMap]
    refine forall₂_congr fun c hc => ?_
    rw [hchar false c (hrest c hc), isNumbered_false]
  have hhyphen : ¬ IsControl '-' := by decide
  have hblank : Text.isBlank '-' = false := by decide
  unfold escapeName
  split
  · simp [beginsWithDigit]
  · have hback : Text.isBlank '\\' = false := by decide
    have hdigit : '-'.isDigit = false := by decide
    simp [hback, hblank, hhyphen, beginsWithDigit, hdigit]
  · next c rest =>
    have hrest := hmore rest fun d hd => by simp [hd]
    rw [List.cons_append, unspaced_cons, Path.unspaced_append, hchar true c (by simp), hrest,
      isNumbered_true, List.forall_mem_cons, List.forall_mem_cons, beginsWithDigit,
      ← Bool.not_eq_true c.isDigit]
    tauto
  · next c rest _ hother =>
    have hrest := hmore rest fun d hd => by simp [hd]
    have hbegins : beginsWithDigit (c :: rest) = c.isDigit := by
      rw [beginsWithDigit]
      rintro d more rfl rfl
      exact hother d more rfl rfl
    rw [Path.unspaced_append, hchar true c (by simp), hrest, isNumbered_true, List.forall_mem_cons,
      hbegins, ← Bool.not_eq_true c.isDigit]
    tauto

omit hname in
theorem escapeName_cons {c : Char} (hc : c ≠ '-') (rest : List Char) :
    escapeName (c :: rest) = escapeChar true c ++ rest.flatMap (escapeChar false) := by
  rw [escapeName]
  · rintro rfl
    exact absurd rfl hc
  · rintro d more rfl
    exact absurd rfl hc

omit hname in
theorem escapeName_ne_nil (hne : name ≠ []) : escapeName name ≠ [] := by
  unfold escapeName
  split
  · exact absurd rfl hne
  · simp
  · simp
  · exact List.append_ne_nil_of_left_ne_nil (escapeChar_ne_nil true _) _

omit hname in
/-- Behind its start a name goes on character by character. -/
theorem escapeName_append_singleton (hne : name ≠ []) (hhyphen : name ≠ ['-']) (c : Char) :
    escapeName (name ++ [c]) = escapeName name ++ escapeChar false c := by
  obtain ⟨d, rest, rfl⟩ := List.exists_cons_of_ne_nil hne
  by_cases hd : d = '-'
  · subst hd
    obtain ⟨e, more, rfl⟩ := List.exists_cons_of_ne_nil (show rest ≠ [] by simpa using hhyphen)
    simp [escapeName]
  · rw [List.cons_append, escapeName_cons hd, escapeName_cons hd]
    simp

/-- But for its last character, a name is written without blanks exactly if it is plain without
that character. -/
theorem unspaced_dropLast_escapeName_iff (hne : name ≠ []) :
    Unspaced (escapeName name).dropLast
      ↔ (∀ c ∈ name.dropLast, ¬ IsControl c) ∧ beginsWithDigit name.dropLast = false := by
  obtain ⟨front, c, rfl⟩ := (List.eq_nil_or_concat' name).resolve_left hne
  have hfront := fun d hd => hname d (List.mem_append_left [c] hd)
  obtain ⟨hc, hblank⟩ := hname c (by simp)
  have hlast : ∀ atStart, Unspaced (escapeChar atStart c).dropLast := fun _ =>
    unspaced_dropLast_escapeChar hc hblank
  have hwritten : ∀ atStart, escapeChar atStart c ≠ [] := fun _ => escapeChar_ne_nil _ c
  have hhyphen : ¬ IsControl '-' := by decide
  rw [List.dropLast_concat]
  by_cases hnone : front = []
  · subst hnone
    refine iff_of_true ?_ (by simp [beginsWithDigit])
    by_cases hlone : c = '-'
    · have hback : Text.isBlank '\\' = false := by decide
      simp [hlone, escapeName, hback]
    · simpa [escapeName_cons hlone] using hlast true
  by_cases hlone : front = ['-']
  · subst hlone
    refine iff_of_true ?_ (by simp [beginsWithDigit, hhyphen])
    have hname : escapeName (['-'] ++ [c]) = ['-'] ++ escapeChar true c := by simp [escapeName]
    rw [hname, List.dropLast_append_of_ne_nil (hwritten true)]
    have hfront : Unspaced ['-'] := by decide
    exact Path.unspaced_append.2 ⟨hfront, hlast true⟩
  · rw [escapeName_append_singleton hnone hlone, List.dropLast_append_of_ne_nil (hwritten false),
      Path.unspaced_append, unspaced_escapeName_iff hfront]
    exact and_iff_left (hlast false)

end Names

end Selector

namespace Locator

variable {page : Page} {root : Option Nat} {i : Nat}

/-! ## Steps -/

/-- No class of the element has a character that is written by its number, but for the last
character of its description. -/
structure NumbersLast (page : Page) (root : Option Nat) (i : Nat) : Prop where
  before : ∀ c ∈ (page.classes i).dropLast, IsPlainClass c
  /-- A position comes behind the last class. -/
  last : ∀ c ∈ (page.classes i).getLast?,
    IsPlainClass (if isPositioned page root i then c else String.ofList c.toList.dropLast)

instance (page : Page) (root : Option Nat) (i : Nat) : Decidable (NumbersLast page root i) :=
  decidable_of_iff ((∀ c ∈ (page.classes i).dropLast, IsPlainClass c)
      ∧ ∀ c ∈ (page.classes i).getLast?,
        IsPlainClass (if isPositioned page root i then c else String.ofList c.toList.dropLast))
    ⟨fun ⟨hbefore, hlast⟩ => ⟨hbefore, hlast⟩, fun h => ⟨h.before, h.last⟩⟩

/-- In front of a position, no class may have a numbered escape. -/
theorem numbersLast_of_isPositioned (h : isPositioned page root i = true) :
    NumbersLast page root i ↔ ∀ c ∈ page.classes i, IsPlainClass c := by
  constructor
  · intro hnumbers c hc
    rcases (page.classes i).eq_nil_or_concat' with hnone | ⟨front, name, hsplit⟩
    · simp [hnone] at hc
    · have hbefore := hnumbers.before
      have hlast := hnumbers.last name (by simp [hsplit])
      rw [if_pos h] at hlast
      rw [hsplit, List.dropLast_concat] at hbefore
      rw [hsplit, List.mem_append, List.mem_singleton] at hc
      rcases hc with hc | rfl
      · exact hbefore c hc
      · exact hlast
  · intro hall
    refine ⟨fun c hc => hall c (List.dropLast_subset _ hc), fun c hc => ?_⟩
    rw [if_pos h]
    exact hall c (List.mem_of_getLast? hc)

/-- Without a position, the last class may end in a numbered escape. -/
theorem numbersLast_of_not_isPositioned (h : ¬ isPositioned page root i = true)
    {front : List String} {name : String} (hsplit : page.classes i = front ++ [name]) :
    NumbersLast page root i ↔ (∀ c ∈ front, IsPlainClass c)
      ∧ IsPlainClass (String.ofList name.toList.dropLast) := by
  constructor
  · intro hnumbers
    have hbefore := hnumbers.before
    have hlast := hnumbers.last name (by simp [hsplit])
    rw [hsplit, List.dropLast_concat] at hbefore
    rw [if_neg h] at hlast
    exact ⟨hbefore, hlast⟩
  · rintro ⟨hbefore, hlast⟩
    refine ⟨by rwa [hsplit, List.dropLast_concat], fun c hc => ?_⟩
    obtain rfl : name = c := by simpa [hsplit] using hc
    rwa [if_neg h]

/-- The text of a class in a description. -/
def classText (name : String) : List Char := '.' :: escapeName name.toList

/-- A description is the tag, the classes behind their points, and the position if there is one. -/
theorem toList_text_description (page : Page) (root : Option Nat) (i : Nat) :
    (Selector.one (description page root i)).text.toList
      = (page.tag i).toList ++ (page.classes i).flatMap classText
        ++ if isPositioned page root i then (Condition.position (page.positionOfType i)).spell
          else [] := by
  have hplain : spellCompound (plainConditions page i)
      = (page.tag i).toList ++ (page.classes i).flatMap classText :=
    spellCompound_plainConditions page i
  rw [text, String.toList_ofList, spell, isPositioned, ← hplain]
  rcases describes_description page root i with heq | heq
  · simp [heq]
  · simp [heq, spellCompound]

theorem unspaced_spell_position (n : Nat) : Unspaced (Condition.position n).spell := by
  have hopening : positionOpening.all (! Text.isBlank ·) = true := by decide
  have hclose : Text.isBlank ')' = false := by decide
  have hdigits : Unspaced (Nat.toDigits 10 n) := by
    refine Path.unspaced_of_plain fun c hc => isPlain_of_isAlphanum ?_
    have hdigit := Nat.isDigit_of_mem_toDigits (by decide) (by decide) hc
    simp [Char.isAlphanum, hdigit]
  have hspell : (Condition.position n).spell = positionOpening ++ (Nat.toDigits 10 n ++ [')']) :=
    rfl
  rw [hspell]
  refine Path.unspaced_append.2 ⟨fun c hc => ?_, Path.unspaced_append.2 ⟨hdigits, by simp [hclose]⟩⟩
  simpa using List.all_eq_true.1 hopening c hc

section Step

variable (hp : page.NameableAt i)
include hp

theorem spellable_of_mem_classes {name : String} (hname : name ∈ page.classes i) :
    name.toList ≠ [] ∧ ∀ c ∈ name.toList, IsSpellable c ∧ Text.isBlank c = false :=
  ⟨fun hnil => ne_empty_of_mem_words hname (String.toList_eq_nil_iff.1 hnil), fun c hc =>
    ⟨hp.classes name hname c hc, Text.not_isBlank_of_mem_words hname hc⟩⟩

theorem spaced_text_description : Spaced (Selector.one (description page root i)).text.toList := by
  have htag : Spaced (page.tag i).toList := .of_plain (isPlain_of_mem_tag hp)
  have hsign : Path.Scan.IsPlain '.' := by decide
  have hdot : Spaced ['.'] := .of_plain (by simpa using hsign)
  have hclasses : Spaced ((page.classes i).flatMap classText) := Spaced.flatMap fun c hc =>
    hdot.append (spaced_escapeName (spellable_of_mem_classes hp hc).2)
  rw [toList_text_description]
  refine (htag.append hclasses).append ?_
  split
  · exact .of_takes (takes_spell_position _) (unspaced_spell_position _)
  · exact .nil

/-- A step begins with a tag, so it is more than a blank. -/
theorem closed_text_description_ne_empty :
    closed (Selector.one (description page root i)).text ≠ "" := by
  have hplain := isPlain_of_mem_tag hp
  obtain ⟨c, hc, -⟩ := (Option.any_eq_true ..).1 hp.tag.1
  have hmem : c ∈ (page.tag i).toList := List.mem_of_head? hc
  refine Path.closed_ne_empty (c := c) ?_ (hplain c hmem).2.1
  rw [toList_text_description]
  simp [hmem]

/-- Only a numbered escape brings a blank into a class. -/
theorem unspaced_classText_iff {name : String} (hname : name ∈ page.classes i) :
    Unspaced (classText name) ↔ IsPlainClass name := by
  have hdot : Text.isBlank '.' = false := by decide
  rw [classText, unspaced_cons, unspaced_escapeName_iff (spellable_of_mem_classes hp hname).2]
  exact and_iff_right hdot

theorem unspaced_dropLast_classText_iff {name : String} (hname : name ∈ page.classes i) :
    Unspaced (classText name).dropLast
      ↔ IsPlainClass (String.ofList name.toList.dropLast) := by
  obtain ⟨hne, hchars⟩ := spellable_of_mem_classes hp hname
  have hdot : Text.isBlank '.' = false := by decide
  have hwritten := escapeName_ne_nil hne
  rw [classText, List.dropLast_cons_of_ne_nil hwritten, unspaced_cons,
    unspaced_dropLast_escapeName_iff hchars hne, IsPlainClass, String.toList_ofList]
  exact and_iff_right hdot

/-- The text of a step has no blanks before its end exactly if numbers come last in it. -/
theorem unspaced_dropLast_text_description_iff :
    Unspaced (Selector.one (description page root i)).text.toList.dropLast
      ↔ NumbersLast page root i := by
  have htag := Path.unspaced_of_plain (isPlain_of_mem_tag hp)
  have hall : ∀ names : List String, names ⊆ page.classes i →
      (Unspaced (names.flatMap classText) ↔ ∀ c ∈ names, IsPlainClass c) := by
    intro names hnames
    rw [Path.unspaced_flatMap]
    exact forall₂_congr fun c hc => unspaced_classText_iff hp (hnames hc)
  rw [toList_text_description]
  by_cases hposition : isPositioned page root i = true
  · -- the position comes last, and there is no blank in it
    have hne : (Condition.position (page.positionOfType i)).spell ≠ [] := by
      intro hnil
      have hhead := Path.head?_spell_position (page.positionOfType i)
      simp [hnil] at hhead
    have hlast := (unspaced_spell_position (page.positionOfType i)).dropLast
    rw [if_pos hposition, List.dropLast_append_of_ne_nil hne, Path.unspaced_append,
      Path.unspaced_append, hall _ (List.Subset.refl _), numbersLast_of_isPositioned hposition]
    tauto
  · rw [if_neg hposition, List.append_nil]
    rcases (page.classes i).eq_nil_or_concat' with hnone | ⟨front, name, hsplit⟩
    · have hnumbers : NumbersLast page root i := ⟨by simp [hnone], by simp [hnone]⟩
      rw [hnone, List.flatMap_nil, List.append_nil]
      exact iff_of_true htag.dropLast hnumbers
    · have hfront : front ⊆ page.classes i := by simp [hsplit]
      have hname : name ∈ page.classes i := by simp [hsplit]
      have hne : (front ++ [name]).flatMap classText ≠ [] := by simp [classText]
      have hclasses : ((front ++ [name]).flatMap classText).dropLast
          = front.flatMap classText ++ (classText name).dropLast := by
        rw [List.flatMap_append, List.flatMap_singleton, List.dropLast_append_of_ne_nil]
        simp [classText]
      rw [hsplit, List.dropLast_append_of_ne_nil hne, hclasses, Path.unspaced_append,
        Path.unspaced_append, hall front hfront, unspaced_dropLast_classText_iff hp hname,
        numbersLast_of_not_isPositioned hposition hsplit]
      tauto

end Step

/-! ## The joints of a locator -/

/-- **A locator is cut at its joints** exactly if numbers come last in its steps. On a page that was
received, the tags of which are made of letters, digits and hyphens, every element below a container
has a locator there, the path of its steps. The compounds of the path are the steps, each without
the blank that may end it, exactly if no class of the elements that the steps name has a character
that is written by its number, but for one at the very end of a step. -/
theorem compounds_synthesize_iff {page : Page} (hpage : page.Received)
    (htags : ∀ j < page.size, ∀ c ∈ (page.tag j).toList, c.isAlphanum = true ∨ c = '-')
    (hclasses : ∀ j < page.size, ∀ c ∈ page.classes j, Spellable c) {container i : Nat}
    (hi : i < page.size) (hin : container ∈ page.enclosing i) :
    ∃ ss, steps page (some i) (some container) false = .ok ss ∧ ss ≠ []
      ∧ synthesize page (some i) (some container) false = .ok (path ss)
      ∧ (Path.compounds (path ss) = segments (ss.map closed)
        ↔ ∀ a ∈ named page (some container) (page.ancestors i),
          NumbersLast page (some container) a) := by
  have hbelow := mem_below_of_mem_named hi (Page.mem_ancestors_of_mem_enclosing hin)
  have hnameable : ∀ a ∈ named page (some container) (page.ancestors i), page.NameableAt a := by
    intro a ha
    have hsize := Page.lt_size_of_mem_below (hbelow a ha)
    exact ⟨⟨hpage.letterFirst.tag hsize, fun c hc => (htags a hsize c hc).imp_right .inl⟩,
      hclasses a hsize⟩
  have hself : container ≠ i :=
    (Page.mem_below_some.1 (mem_below_of_mem_enclosing hi hin)).2.1.symm
  obtain ⟨around, hhead⟩ := @exists_named_eq_cons page i (some container) (by simpa using hself)
  have hsteps := stepsAlong_eq_texts hnameable
  refine ⟨_, hsteps, by simp [texts, hhead], by rw [synthesize, steps, hsteps]; rfl, ?_⟩
  have hmem : ∀ P : String → Prop, (∀ t ∈ texts ((named page (some container)
      (page.ancestors i)).reverse.map (description page (some container))), P t)
        ↔ ∀ a ∈ named page (some container) (page.ancestors i),
          P (Selector.one (description page (some container) a)).text := by
    intro P
    simp [texts]
  rw [Path.compounds_path_eq_segments_iff, hmem]
  · exact forall₂_congr fun a ha => unspaced_dropLast_text_description_iff (hnameable a ha)
  · rw [hmem]
    intro a ha
    exact ⟨closed_text_description_ne_empty (hnameable a ha),
      spaced_text_description (hnameable a ha)⟩

/-- A list of which one item has a number for a class, and words in bold in both. -/
def numberedItem : Page :=
  Page.ofMarkup "<ul><li class=\"x 1\"><b></b></li><li><b></b></li></ul>"

/-- The words in the item with the number have a locator, and it is cut behind the number. -/
theorem compounds_synthesize_iff_numberedItem :
    ∃ ss, synthesize numberedItem (some 2) (some 0) false = .ok (path ss)
      ∧ Path.compounds (path ss) = segments (ss.map closed) := by
  have hreceived : numberedItem.Received := .ofMarkup _
  have hnamed : named numberedItem (some 0) (numberedItem.ancestors 2) = [2, 1] := by
    decide +kernel
  have htags : numberedItem.places.all (fun j =>
      (numberedItem.tag j).toList.all fun c => c.isAlphanum || c = '-') = true := by decide +kernel
  have hclasses : ∀ j < numberedItem.size, ∀ c ∈ numberedItem.classes j, Spellable c := by
    decide +kernel
  obtain ⟨ss, -, -, hpath, hiff⟩ := @compounds_synthesize_iff numberedItem hreceived
    (by simpa [Page.places] using htags) hclasses 0 2 (by decide +kernel) (by decide +kernel)
  have hnumbers : ∀ a ∈ [2, 1], NumbersLast numberedItem (some 0) a := by decide +kernel
  rw [hnamed] at hiff
  exact ⟨ss, hpath, hiff.2 hnumbers⟩

/-- A list with an item the class of which begins with a digit. -/
def digitFirst : Page := Page.ofMarkup "<ul><li class=1a></li></ul>"

/-- The locator of the item is one step, but it is cut behind the digit. -/
theorem not_joints_digitFirst :
    steps digitFirst (some 1) (some 0) false = .ok ["li.\\31 a"]
      ∧ Path.compounds (path ["li.\\31 a"]) ≠ segments (["li.\\31 a"].map closed) := by
  decide +kernel

/-- The rest of the class is taken for the tag of a descendant. -/
example : Path.compounds "li.\\31 a" = [⟨none, "li.\\31"⟩, ⟨some .descendant, "a"⟩] := by
  decide +kernel

end Locator

end Retrace
