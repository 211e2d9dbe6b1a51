/-
Selectors are read back as they were written.

The written form of a selector puts its compounds in a row, with a combinator between any two
(`Selector.spell`). Locators are written forms of selectors whose tags are plain words and whose
names can be spelled (`Selector.Writable`).

Reading goes from left to right and builds the selector up as it goes, so the statement to prove
is about a written selector with more text behind it: reading comes to the point where it holds
the selector and has the rest of the text before it (`readSelector_spell`). With no text behind it,
the selector is read back. With a combinator behind it, what comes out in the end narrows the
selector down: whatever it finds is, or lies inside of, something that the selector finds
(`exists_holds_of_readRest`).
-/
import Mathlib.Data.List.TakeWhile
import Retrace.Proofs.Decimal.Digits
import Retrace.Proofs.Except
import Retrace.Proofs.Page.Nesting
import Retrace.Proofs.Selector.Name

set_option autoImplicit false

namespace Retrace

open Selector

/-! ## Written forms -/

/-- A tag that selectors can name: letters, digits, hyphens and underscores, a letter first. -/
def IsTagName (name : String) : Prop :=
  name.toList.head?.any Char.isAlpha = true
    ∧ ∀ c ∈ name.toList, c.isAlphanum = true ∨ c = '-' ∨ c = '_'

instance (name : String) : Decidable (IsTagName name) :=
  @instDecidableAnd _ _ _ (List.decidableBAll _ name.toList)

namespace Condition

/-- A condition as it is written, if it is one of those that locators are made of. -/
def spell : Condition → List Char
  | .tag name => name.toList
  | .id value => '#' :: escapeName value.toList
  | .hasClass name => '.' :: escapeName name.toList
  | .position n => positionOpening ++ (Nat.toDigits 10 n ++ [')'])
  | _ => []

/-- Is the condition one that locators are made of, with names that can be spelled? -/
def Writable : Condition → Prop
  | .tag name => IsTagName name ∧ Text.lowerAscii name = name
  | .id value => value ≠ "" ∧ Spellable value
  | .hasClass name => name ≠ "" ∧ Spellable name
  | .position _ => True
  | _ => False

def isTag : Condition → Bool
  | .tag _ => true
  | _ => false

theorem exists_eq_tag {c : Condition} (h : c.isTag = true) : ∃ name, c = .tag name := by
  cases c with
  | tag name => exact ⟨name, rfl⟩
  | _ => simp [isTag] at h

end Condition

namespace Selector

/-- The conditions of a compound as they are written. -/
def spellCompound (conditions : List Condition) : List Char := conditions.flatMap Condition.spell

/-- Are these the conditions of a compound that can be written? Only the first one may be a
tag. -/
structure WritableCompound (conditions : List Condition) : Prop where
  ne_nil : conditions ≠ []
  writable : ∀ c ∈ conditions, c.Writable
  tag_first : ∀ c ∈ conditions.tail, c.isTag = false

/-- A selector as it is written. -/
def spell : Selector → List Char
  | .one conditions => spellCompound conditions
  | .within outer joint conditions =>
    outer.spell ++ (joint.text.toList ++ spellCompound conditions)

def Writable : Selector → Prop
  | .one conditions => WritableCompound conditions
  | .within outer _ conditions => outer.Writable ∧ WritableCompound conditions

/-- A text that does not go on with a compound in front of it. -/
def EndsCompound (rest : List Char) : Prop := ∀ c ∈ rest.head?, isSpace c = true ∨ c = '>'

variable {nested : ListReader}

/-! ## Single conditions -/

theorem EndsCompound.endsName {rest : List Char} (h : EndsCompound rest) : EndsName rest := by
  intro c hc
  rcases h c hc with hspace | rfl
  · simp only [isSpace, Bool.or_eq_true, decide_eq_true_eq] at hspace
    rcases hspace with (((rfl | rfl) | rfl) | rfl) | rfl <;> decide
  · decide

/-- A tag is a name, and each of its characters spells itself. -/
theorem readName?_tag {name : String} (h : IsTagName name) {rest : List Char}
    (hrest : EndsName rest) : readName? (name.toList ++ rest) = some (name, rest) := by
  obtain ⟨hhead, hall⟩ := h
  have hpieces : List.Forall₂ SpellsChar (name.toList.map fun c => [c]) name.toList := by
    rw [List.forall₂_map_left_iff, List.forall₂_same]
    intro c hc
    refine spellsChar_self ?_
    rcases hall c hc with h | rfl | rfl
    · simp only [Char.isAlphanum, Bool.or_eq_true] at h
      rcases h with h | h <;> simp [isNameChar, isNameStart, h]
    · decide
    · decide
  have hread : readNameChars (name.toList ++ rest).length (name.toList ++ rest)
      = (name.toList, rest) := by
    have hpiecewise := readNameChars_pieces hpieces hrest
      (show name.toList.length ≤ (name.toList ++ rest).length by simp)
    rwa [← List.flatMap_def, List.flatMap_singleton'] at hpiecewise
  have hstart : startsName (name.toList ++ rest) = true := by
    cases hname : name.toList with
    | nil => simp [hname] at hhead
    | cons c more =>
      have hc : c.isAlpha = true := by simpa [hname] using hhead
      have hhyphen : c ≠ '-' := by rintro rfl; exact absurd hc (by decide)
      rw [List.cons_append, startsName]
      · simp [isNameStart, hc]
      · rintro tail rfl
        exact absurd rfl hhyphen
      · rintro d tail rfl
        exact absurd rfl hhyphen
  simp only [readName?, hstart, hread, if_true, String.ofList_toList]

/-- Without a bar behind the first name there is no language. -/
theorem readPrefixed?_of_head? {read : List Char → Option (String × List Char)} {cs : List Char}
    (h : ((readWild? cs).elim cs Prod.snd).head? ≠ some '|') :
    readPrefixed? read cs = (read cs).map fun (name, left) => (none, name, left) := by
  unfold readPrefixed?
  dsimp only
  split
  · next rest hbar => exact absurd (by rw [hbar]; rfl) h
  · rfl

/-- A tag is read as a tag, since no bar follows it. -/
theorem readTag?_tag {name : String} (h : IsTagName name) (hlower : Text.lowerAscii name = name)
    {rest : List Char} (hrest : EndsName rest) :
    readTag? (name.toList ++ rest) = some (.tag name, rest) := by
  have hread := readName?_tag h hrest
  obtain ⟨c, hc, halpha⟩ := (Option.any_eq_true ..).1 h.1
  obtain ⟨more, hmore⟩ := List.head?_eq_some_iff.1 hc
  have hwild : readWild? (name.toList ++ rest) = some (name, rest) := by
    rw [← hread, hmore, List.cons_append, readWild?]
    intro _ heq
    obtain ⟨rfl, -⟩ := List.cons.inj heq
    exact absurd halpha (by decide)
  have hstar : name ≠ "*" := by
    rintro rfl
    exact absurd h.1 (by decide)
  have hbar : ((readWild? (name.toList ++ rest)).elim (name.toList ++ rest) Prod.snd).head?
      ≠ some '|' := by
    rw [hwild]
    exact fun hhead => (hrest '|' hhead).2.2 rfl
  rw [readTag?, readPrefixed?_of_head? hbar, hwild]
  simp [hstar, hlower]

theorem head?_positionOpening : positionOpening.head? = some ':' := by decide

/-- A position is read up to its bracket. -/
theorem readPosition?_spell (n : Nat) (rest : List Char) :
    readPosition? ((Condition.position n).spell ++ rest) = some (n, rest) := by
  have hdigits : ∀ c ∈ Nat.toDigits 10 n, c.isDigit = true :=
    fun c hc => Nat.isDigit_of_mem_toDigits (by decide) (by decide) hc
  have hclose : Char.isDigit ')' = false := by decide
  have htake : (Nat.toDigits 10 n ++ ')' :: rest).takeWhile Char.isDigit = Nat.toDigits 10 n := by
    rw [List.takeWhile_append_of_pos hdigits]
    simp [hclose]
  have hdrop : (Nat.toDigits 10 n ++ ')' :: rest).dropWhile Char.isDigit = ')' :: rest := by
    rw [List.dropWhile_append_of_pos hdigits]
    simp [hclose]
  have hopen : positionOpening.isPrefixOf? ((Condition.position n).spell ++ rest)
      = some (Nat.toDigits 10 n ++ ')' :: rest) := by
    rw [List.isPrefixOf?_eq_some_iff_append_eq]
    simp [Condition.spell]
  rw [readPosition?, hopen, Option.bind_some, htake, hdrop]
  cases hd : Nat.toDigits 10 n with
  | nil => exact absurd hd Nat.toDigits_ne_nil
  | cons d ds =>
    have hvalue := Decimal.plainValue_toDigits n
    rw [hd] at hvalue
    simp [hvalue]

theorem readName?_escapeName_toList {name : String} (hne : name ≠ "") (h : Spellable name)
    {rest : List Char} (hrest : EndsName rest) :
    readName? (escapeName name.toList ++ rest) = some (name, rest) := by
  have hlist : name.toList ≠ [] := fun h => hne (String.toList_eq_nil_iff.1 h)
  rw [readName?_escapeName hlist h hrest, String.ofList_toList]

/-- **One condition.** What is written behind the tag is read back. -/
theorem readCondition_spell {c : Condition} (hc : c.Writable) (htag : c.isTag = false)
    {rest : List Char} (hrest : EndsName rest) :
    readCondition nested (c.spell ++ rest) = .ok (some (c, rest)) := by
  cases c with
  | tag name => simp [Condition.isTag] at htag
  | id value =>
    simp [Condition.spell, readCondition, readName?_escapeName_toList hc.1 hc.2 hrest]
  | hasClass name =>
    simp [Condition.spell, readCondition, readName?_escapeName_toList hc.1 hc.2 hrest]
  | position n =>
    obtain ⟨opening, hopening⟩ := List.head?_eq_some_iff.1 head?_positionOpening
    have hread := readPosition?_spell n rest
    simp only [Condition.spell, hopening, List.cons_append] at hread ⊢
    simp only [readCondition, hread]
  | _ => exact hc.elim

/-! ## Compounds -/

/-- Behind the tag, every written condition begins with a sign of its own. -/
theorem exists_sign_spell {c : Condition} (hc : c.Writable) (htag : c.isTag = false) :
    ∃ sign text, c.spell = sign :: text ∧ (sign = '#' ∨ sign = '.' ∨ sign = ':') := by
  cases c with
  | tag name => simp [Condition.isTag] at htag
  | id value => exact ⟨'#', _, rfl, by simp⟩
  | hasClass name => exact ⟨'.', _, rfl, by simp⟩
  | position n =>
    obtain ⟨opening, hopening⟩ := List.head?_eq_some_iff.1 head?_positionOpening
    exact ⟨':', _, by rw [Condition.spell, hopening, List.cons_append], by simp⟩
  | _ => exact hc.elim

/-- A condition begins with a sign, so no name runs on into it. -/
theorem endsName_spellCompound {conditions : List Condition} (hw : ∀ c ∈ conditions, c.Writable)
    (htag : ∀ c ∈ conditions, c.isTag = false) {rest : List Char} (hrest : EndsName rest) :
    EndsName (spellCompound conditions ++ rest) := by
  cases conditions with
  | nil => exact hrest
  | cons c more =>
    obtain ⟨sign, text, hspell, hsign⟩ := exists_sign_spell (hw c (by simp)) (htag c (by simp))
    intro d hd
    obtain rfl : sign = d := by simpa [spellCompound, hspell] using hd
    rcases hsign with rfl | rfl | rfl <;> decide

/-- Nothing is read where a compound ends. -/
theorem readConditions_endsCompound {rest : List Char} (h : EndsCompound rest) (fuel : Nat) :
    readConditions nested fuel rest = .ok ([], rest) := by
  cases fuel with
  | zero => rfl
  | succ fuel =>
    cases rest with
    | nil => rfl
    | cons c rest =>
      have hc : readCondition nested (c :: rest) = .ok none := by
        rcases h c rfl with hspace | rfl
        · simp only [isSpace, Bool.or_eq_true, decide_eq_true_eq] at hspace
          rcases hspace with (((rfl | rfl) | rfl) | rfl) | rfl <;>
            simp [readCondition, endsHere, isSpace]
        · simp [readCondition, endsHere]
      simp [readConditions, hc]
      rfl

/-- The conditions behind the tag are read back, up to where the compound ends. The induction is on
the conditions; each costs one step of fuel. -/
theorem readConditions_spell {conditions : List Condition} (hw : ∀ c ∈ conditions, c.Writable)
    (htag : ∀ c ∈ conditions, c.isTag = false) {rest : List Char} (hrest : EndsCompound rest)
    {fuel : Nat} (hfuel : conditions.length ≤ fuel) :
    readConditions nested fuel (spellCompound conditions ++ rest) = .ok (conditions, rest) := by
  induction conditions generalizing fuel with
  | nil => exact readConditions_endsCompound hrest fuel
  | cons c more ih =>
    obtain ⟨fuel, rfl⟩ : ∃ k, fuel = k + 1 := ⟨fuel - 1, by simp at hfuel; omega⟩
    simp only [List.length_cons, Nat.add_le_add_iff_right] at hfuel
    obtain ⟨hwc, hw'⟩ := List.forall_mem_cons.1 hw
    obtain ⟨htagc, htag'⟩ := List.forall_mem_cons.1 htag
    -- what follows is the next condition or the end of the compound, and either ends a name
    have hc := @readCondition_spell nested _ hwc htagc _
      (endsName_spellCompound hw' htag' hrest.endsName)
    have hsplit : spellCompound (c :: more) ++ rest
        = c.spell ++ (spellCompound more ++ rest) := by
      simp [spellCompound]
    rw [hsplit, readConditions, hc]
    simp only [ih hw' htag' hfuel, bind, Except.bind, pure, Except.pure]

theorem length_le_length_spellCompound {conditions : List Condition}
    (hw : ∀ c ∈ conditions, c.Writable) (htag : ∀ c ∈ conditions, c.isTag = false) :
    conditions.length ≤ (spellCompound conditions).length := by
  induction conditions with
  | nil => simp
  | cons c more ih =>
    obtain ⟨hwc, hw'⟩ := List.forall_mem_cons.1 hw
    obtain ⟨htagc, htag'⟩ := List.forall_mem_cons.1 htag
    have hmore := ih hw' htag'
    obtain ⟨sign, text, hspell, -⟩ := exists_sign_spell hwc htagc
    simp only [spellCompound, List.flatMap_cons, hspell, List.length_append,
      List.length_cons] at hmore ⊢
    omega

/-- Text that begins with a sign of its own holds no tag at its front. -/
theorem readTag?_spellCompound {conditions : List Condition} (hw : ∀ c ∈ conditions, c.Writable)
    (htag : ∀ c ∈ conditions, c.isTag = false) (hne : conditions ≠ []) (rest : List Char) :
    readTag? (spellCompound conditions ++ rest) = none := by
  obtain ⟨c, more, rfl⟩ := List.exists_cons_of_ne_nil hne
  obtain ⟨sign, text, hspell, hsign⟩ := exists_sign_spell (hw c (by simp)) (htag c (by simp))
  have heq : spellCompound (c :: more) ++ rest
      = sign :: (text ++ (spellCompound more ++ rest)) := by
    simp [spellCompound, hspell]
  have hwild : readWild? (sign :: (text ++ (spellCompound more ++ rest))) = none := by
    rcases hsign with rfl | rfl | rfl <;> simp [readWild?, readName?, startsName, isNameStart]
  have hbar : ((readWild? (sign :: (text ++ (spellCompound more ++ rest)))).elim
      (sign :: (text ++ (spellCompound more ++ rest))) Prod.snd).head? ≠ some '|' := by
    rw [hwild]
    rcases hsign with rfl | rfl | rfl <;> simp
  rw [heq, readTag?, readPrefixed?_of_head? hbar, hwild]
  rfl

/-- A written compound is read back, up to where it ends. -/
theorem readCompound_spell {conditions : List Condition} (h : WritableCompound conditions)
    {rest : List Char} (hrest : EndsCompound rest) :
    readCompound nested (spellCompound conditions ++ rest) = .ok (conditions, rest) := by
  obtain ⟨hne, hw, htail⟩ := h
  have hread : ∀ more, (∀ c ∈ more, c.Writable) → (∀ c ∈ more, c.isTag = false) →
      readConditions nested (spellCompound more ++ rest).length (spellCompound more ++ rest)
        = .ok (more, rest) := by
    intro more hw' htag'
    refine readConditions_spell hw' htag' hrest ?_
    have hlength := length_le_length_spellCompound hw' htag'
    rw [List.length_append]
    omega
  obtain ⟨c, more, rfl⟩ := List.exists_cons_of_ne_nil hne
  obtain ⟨hwc, hw'⟩ := List.forall_mem_cons.1 hw
  rw [List.tail_cons] at htail
  by_cases hc : c.isTag = true
  · obtain ⟨name, rfl⟩ := Condition.exists_eq_tag hc
    obtain ⟨htagname, hlower⟩ := hwc
    have hends := endsName_spellCompound hw' htail hrest.endsName
    have hsplit : spellCompound (.tag name :: more) ++ rest
        = name.toList ++ (spellCompound more ++ rest) := by
      simp [spellCompound, Condition.spell]
    rw [hsplit, readCompound, readTag?_tag htagname hlower hends]
    simp only [hread more hw' htail, bind, Except.bind, List.singleton_append]
    rfl
  · -- without a tag in front the first condition is read like the others
    have htag : ∀ d ∈ c :: more, d.isTag = false :=
      List.forall_mem_cons.2 ⟨by simpa using hc, htail⟩
    rw [readCompound, readTag?_spellCompound hw htag hne]
    simp only [hread (c :: more) hw htag, bind, Except.bind, List.nil_append]
    rfl

/-! ## Whole selectors -/

/-- Of the characters of ASCII, all blanks come before the others. -/
theorem isBlank_eq_false_of_toNat {c : Char} (hlow : 0x20 < c.toNat) (hhigh : c.toNat < 0x80) :
    Text.isBlank c = false := by
  by_contra hblank
  simp only [Text.isBlank, Text.inRanges, Text.blankRanges, Bool.not_eq_false, List.any_cons,
    List.any_nil, Bool.or_false, Bool.or_eq_true, Bool.and_eq_true, decide_eq_true_eq] at hblank
  omega

/-- Can a written compound begin with the character? -/
def BeginsCompound (c : Char) : Prop := c.isAlpha = true ∨ c = '#' ∨ c = '.' ∨ c = ':'

namespace BeginsCompound

variable {c : Char}

theorem isSpace_eq_false (h : BeginsCompound c) : isSpace c = false := by
  by_contra hspace
  simp only [isSpace, Bool.not_eq_false, Bool.or_eq_true, decide_eq_true_eq] at hspace
  unfold BeginsCompound at h
  rcases hspace with (((rfl | rfl) | rfl) | rfl) | rfl <;> exact absurd h (by decide)

theorem isBlank_eq_false (h : BeginsCompound c) : Text.isBlank c = false := by
  have hrange : 0x20 < c.toNat ∧ c.toNat < 0x80 := by
    rcases h with h | rfl | rfl | rfl
    · rw [isAlpha_iff_toNat] at h
      omega
    all_goals decide
  exact isBlank_eq_false_of_toNat hrange.1 hrange.2

theorem ne_child (h : BeginsCompound c) : c ≠ '>' := by
  rintro rfl
  unfold BeginsCompound at h
  exact absurd h (by decide)

theorem endsHere_eq_false (h : BeginsCompound c) : endsHere c = false := by
  rw [endsHere, h.isSpace_eq_false, Bool.false_or, Bool.eq_false_iff]
  intro hmem
  unfold BeginsCompound at h
  simp only [List.contains_cons, List.contains_nil, Bool.or_false, Bool.or_eq_true,
    beq_iff_eq] at hmem
  rcases hmem with rfl | rfl | rfl | rfl | rfl <;> exact absurd h (by decide)

/-- A compound does not begin with a combinator. -/
theorem isJoint_eq_false (h : BeginsCompound c) : Path.isJoint c = false := by
  by_contra hjoint
  simp only [Path.isJoint, Bool.not_eq_false, Bool.or_eq_true, decide_eq_true_eq] at hjoint
  rcases hjoint with rfl | rfl
  · exact absurd h.isSpace_eq_false (by decide)
  · exact h.ne_child rfl

end BeginsCompound

theorem head_spellCompound {conditions : List Condition} (h : WritableCompound conditions) :
    ∃ c text, spellCompound conditions = c :: text ∧ BeginsCompound c := by
  obtain ⟨c, more, rfl⟩ := List.exists_cons_of_ne_nil h.ne_nil
  have hw := h.writable c (by simp)
  by_cases hc : c.isTag = true
  · obtain ⟨name, rfl⟩ := Condition.exists_eq_tag hc
    obtain ⟨⟨hhead, -⟩, -⟩ := hw
    obtain ⟨d, hd, halpha⟩ := (Option.any_eq_true ..).1 hhead
    obtain ⟨left, hleft⟩ := List.head?_eq_some_iff.1 hd
    refine ⟨d, left ++ spellCompound more, ?_, .inl halpha⟩
    simp [spellCompound, Condition.spell, hleft]
  · obtain ⟨sign, text, hspell, hsign⟩ := exists_sign_spell hw (by simpa using hc)
    exact ⟨sign, text ++ spellCompound more, by simp [spellCompound, hspell], .inr hsign⟩

/-- A written selector begins with its outermost compound. -/
theorem head_spell {s : Selector} (h : s.Writable) :
    ∃ c text, s.spell = c :: text ∧ BeginsCompound c := by
  induction s with
  | one conditions => exact head_spellCompound h
  | within outer joint conditions ih =>
    obtain ⟨c, text, hspell, hc⟩ := ih h.1
    exact ⟨c, text ++ (joint.text.toList ++ spellCompound conditions), by simp [spell, hspell], hc⟩

/-- A combinator and what stands in front of a compound behind it. -/
theorem dropWhile_isSpace_text (joint : Path.Combinator) {c : Char} (hc : BeginsCompound c)
    (text : List Char) :
    (joint.text.toList ++ c :: text).dropWhile isSpace
      = match joint with
        | .child => '>' :: ' ' :: c :: text
        | .descendant => c :: text := by
  have hspace := hc.isSpace_eq_false
  have hblank : isSpace ' ' = true := by decide
  have hsign : isSpace '>' = false := by decide
  cases joint with
  | child =>
    have htext : Path.Combinator.child.text.toList = [' ', '>', ' '] := by decide
    simp [htext, hblank, hsign]
  | descendant =>
    have htext : Path.Combinator.descendant.text.toList = [' '] := by decide
    simp [htext, hblank, hspace]

theorem readJoint?_text (joint : Path.Combinator) {c : Char} (hc : BeginsCompound c)
    (text : List Char) :
    readJoint? (joint.text.toList ++ c :: text) = some (.ofCombinator joint, c :: text) := by
  have hspace := hc.isSpace_eq_false
  have hends := hc.endsHere_eq_false
  have hblank : isSpace ' ' = true := by decide
  rw [readJoint?, dropWhile_isSpace_text joint hc]
  cases joint with
  | child => simp [hblank, hspace, Link.ofCombinator]
  | descendant =>
    simp only [endsHere, hspace, Bool.false_or, List.contains_cons, List.contains_nil,
      Bool.or_false, Bool.or_eq_false_iff, beq_eq_false_iff_ne, ne_eq] at hends
    have htext : Path.Combinator.descendant.text.toList = [' '] := by decide
    simp [htext, hends, Link.ofCombinator]

/-- Behind a combinator the alternative goes on. -/
theorem endsAlternative_text (joint : Path.Combinator) {c : Char} (hc : BeginsCompound c)
    (text : List Char) : endsAlternative (joint.text.toList ++ c :: text) = false := by
  have hends := hc.endsHere_eq_false
  rw [endsAlternative, dropWhile_isSpace_text joint hc]
  cases joint with
  | child => simp
  | descendant =>
    simp only [endsHere, hc.isSpace_eq_false, Bool.false_or, List.contains_cons,
      List.contains_nil, Bool.or_false, Bool.or_eq_false_iff, beq_eq_false_iff_ne, ne_eq] at hends
    simp [hends]

/-- Both combinators begin with a blank, and that ends the compound in front of them. -/
theorem endsCompound_text (joint : Path.Combinator) (rest : List Char) :
    EndsCompound (joint.text.toList ++ rest) := by
  intro d hd
  have hblank : joint.text.toList.head? = some ' ' := by cases joint <;> decide
  obtain rfl : ' ' = d := by simpa [hblank] using hd
  exact .inl (by decide)

/-- One more compound is read behind a selector, up to where it ends. -/
theorem readRest_spellCompound (s : Selector) (joint : Path.Combinator)
    {conditions : List Condition} (h : WritableCompound conditions) {rest : List Char}
    (hrest : EndsCompound rest) (fuel : Nat) :
    readRest nested s (fuel + 1) (joint.text.toList ++ (spellCompound conditions ++ rest))
      = readRest nested (.within s joint conditions) fuel rest := by
  obtain ⟨c, text, hspell, hc⟩ := head_spellCompound h
  have hgoesOn : endsAlternative (joint.text.toList ++ (spellCompound conditions ++ rest))
      = false := by
    rw [hspell, List.cons_append]
    exact endsAlternative_text joint hc _
  have hjoint : readJoint? (joint.text.toList ++ (spellCompound conditions ++ rest))
      = some (.ofCombinator joint, spellCompound conditions ++ rest) := by
    rw [hspell, List.cons_append]
    exact readJoint?_text joint hc _
  rw [readRest, hgoesOn, hjoint]
  simp [readCompound_spell h hrest, bind, Except.bind]

/-- What follows a written selector is come to with the selector in hand, and with fuel for the
rest. The induction is on the selector, which reading builds up from its outermost compound. -/
theorem readSelector_spell {s : Selector} (h : s.Writable) {rest : List Char}
    (hrest : EndsCompound rest) :
    ∃ fuel, rest.length < fuel
      ∧ readSelector nested (s.spell ++ rest) = readRest nested s fuel rest := by
  induction s generalizing rest with
  | one conditions =>
    refine ⟨rest.length + 1, by omega, ?_⟩
    rw [spell, readSelector, readCompound_spell h hrest]
    rfl
  | within outer joint conditions ih =>
    obtain ⟨houter, hconditions⟩ := h
    obtain ⟨c, text, hspell, -⟩ := head_spellCompound hconditions
    obtain ⟨fuel, hfuel, hread⟩ :=
      ih houter (endsCompound_text joint (spellCompound conditions ++ rest))
    obtain ⟨fuel, rfl⟩ : ∃ k, fuel = k + 1 := ⟨fuel - 1, by omega⟩
    have hlength : rest.length < fuel := by
      simp only [List.length_append, hspell, List.length_cons] at hfuel
      omega
    refine ⟨fuel, hlength, ?_⟩
    rw [spell, List.append_assoc, List.append_assoc, hread,
      readRest_spellCompound outer joint hconditions hrest]

/-- There are no blanks in front of a written selector. -/
theorem dropWhile_isSpace_spell {s : Selector} (h : s.Writable) (rest : List Char) :
    (s.spell ++ rest).dropWhile isSpace = s.spell ++ rest := by
  obtain ⟨c, text, hspell, hc⟩ := head_spell h
  simp [hspell, hc.isSpace_eq_false]

/-- The text of a written selector. -/
def text (s : Selector) : String := String.ofList s.spell

/-- **Selectors read back.** The text of a written selector is read as that selector. -/
theorem read_text {s : Selector} (h : s.Writable) : read s.text = .ok s := by
  have hnil : EndsCompound [] := by simp [EndsCompound]
  obtain ⟨fuel, hfuel, hread⟩ := @readSelector_spell (readList s.spell.length) s h [] hnil
  obtain ⟨fuel, rfl⟩ : ∃ k, fuel = k + 1 := ⟨fuel - 1, by simp at hfuel; omega⟩
  have hdrop := dropWhile_isSpace_spell h []
  rw [List.append_nil] at hread hdrop
  have hchars : readChars s.spell = .ok s := by
    rw [readChars, hdrop, hread, readRest]
    rfl
  rw [read, text, String.toList_ofList, hchars]

/-! ## Going on with a selector -/

/-- Reading on from a selector that no locator is made of comes to none that locators are made of.
The induction is on the fuel. -/
theorem writable_of_readRest {fuel : Nat} {s t : Selector} {rest left : List Char}
    (hread : readRest nested s fuel rest = .ok (t, left)) (ht : t.Writable) : s.Writable := by
  induction fuel generalizing s rest with
  | zero => simp [readRest] at hread
  | succ fuel ih =>
    rw [readRest] at hread
    split at hread
    · obtain ⟨rfl, -⟩ := Prod.mk.inj (Except.ok.inj hread)
      exact ht
    · split at hread
      · simp at hread
      · next link behind _ =>
        obtain ⟨⟨conditions, behind⟩, -, hread⟩ := exists_of_bind_ok hread
        have hlink := ih hread
        cases link with
        | child => exact hlink.1
        | descendant => exact hlink.1
        | next => exact (hlink.writable (.linked .next s.condition) (by simp)).elim
        | later => exact (hlink.writable (.linked .later s.condition) (by simp)).elim

/-- However a selector goes on, if it becomes one that locators are made of, an element that the
whole matches is, or lies inside of, one that the selector matches. The induction is on the fuel;
each further compound steps outwards once. -/
theorem exists_holds_of_readRest {page : Page} {scope fuel i : Nat} {s t : Selector}
    {rest left : List Char} (hread : readRest nested s fuel rest = .ok (t, left))
    (ht : t.Writable) (hi : t.holds page scope i = true) :
    ∃ a ∈ page.ancestors i, s.holds page scope a = true := by
  induction fuel generalizing s rest with
  | zero => simp [readRest] at hread
  | succ fuel ih =>
    rw [readRest] at hread
    split at hread
    · obtain ⟨rfl, -⟩ := Prod.mk.inj (Except.ok.inj hread)
      exact ⟨i, page.self_mem_ancestors i, hi⟩
    · split at hread
      · simp at hread
      · next link behind _ =>
        obtain ⟨⟨conditions, behind⟩, -, hread⟩ := exists_of_bind_ok hread
        have hlink := writable_of_readRest hread ht
        obtain ⟨a, ha, hholds⟩ := ih hread
        -- one compound more than `s` was matched at `a`, so `s` was around `a`
        cases link with
        | child =>
          simp only [Selector.link, holds, Bool.and_eq_true] at hholds
          obtain ⟨p, hp, hs⟩ := (Option.any_eq_true ..).1 hholds.2
          have hmem := Page.mem_ancestors_of_parent? hp (page.self_mem_ancestors p)
          exact ⟨p, Page.mem_ancestors_trans ha hmem, hs⟩
        | descendant =>
          simp only [Selector.link, holds, Bool.and_eq_true] at hholds
          obtain ⟨p, hp, hs⟩ := List.any_eq_true.1 hholds.2
          have hmem := Page.mem_ancestors_of_mem_enclosing hp
          exact ⟨p, Page.mem_ancestors_trans ha hmem, hs⟩
        | next => exact (hlink.writable (.linked .next s.condition) (by simp)).elim
        | later => exact (hlink.writable (.linked .later s.condition) (by simp)).elim

/-- A text that goes on with a written selector, and is one, narrows it down. -/
theorem exists_holds_of_read_append {page : Page} {scope i : Nat} {s t : Selector}
    (hs : s.Writable) (ht : t.Writable) {rest : List Char} (hrest : EndsCompound rest)
    (hread : read (String.ofList (s.spell ++ rest)) = .ok t) (hi : t.holds page scope i = true) :
    ∃ a ∈ page.ancestors i, s.holds page scope a = true := by
  unfold read at hread
  rw [String.toList_ofList] at hread
  split at hread
  · next u hu =>
    obtain rfl := Except.ok.inj hread
    obtain ⟨fuel, -, heq⟩ :=
      @readSelector_spell (readList (s.spell ++ rest).length) s hs rest hrest
    rw [readChars, dropWhile_isSpace_spell hs, heq] at hu
    obtain ⟨⟨first, left⟩, hfirst, hu⟩ := exists_of_bind_ok hu
    split at hu
    · next heq =>
      obtain ⟨rfl, rfl⟩ := Prod.mk.inj heq
      obtain rfl := Except.ok.inj hu
      exact exists_holds_of_readRest hfirst ht hi
    · -- a list of alternatives is no selector that locators are made of
      obtain ⟨⟨more, behind⟩, -, hu⟩ := exists_of_bind_ok hu
      split at hu
      · obtain rfl := Except.ok.inj hu
        exact (ht.writable (.either _ _) (List.mem_singleton_self _)).elim
      · simp [throw, throwThe, MonadExceptOf.throw] at hu
    · simp [throw, throwThe, MonadExceptOf.throw] at hu
  · simp at hread

end Selector

end Retrace
