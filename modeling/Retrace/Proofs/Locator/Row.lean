/-
The row that a locator names, and the rows like it.

Inside of a container a locator leads over a row to an element. Split at its row, it is the selector
of all rows and the path that is left within a row. The two halves say of the page what the whole
has said of the element: one of the elements on the way is the row, the selector finds it and every
sibling that is of its tag and has its classes, and the path within leads from the row to the
element (`splitRow_synthesize`).

The selector of the rows looks from the container, as its scope. Reading it comes to the path of the
rows behind the scope (`read_atScope`), and this holds where each element on the path is the parent
of the next one and the first one is where the combinator says (`holds_after_chain`).
-/
import Retrace.Proofs.Locator.Steps

set_option autoImplicit false

namespace Retrace

open Selector

/-- Does the combinator lead from the one element to the other? -/
def Page.Leads (page : Page) (a : Nat) : Path.Combinator → Nat → Prop
  | .child, i => page.parent? i = some a
  | .descendant, i => a ∈ page.enclosing i

/-- Siblings have the same elements around them. -/
theorem Page.Leads.congr {page : Page} {a i j : Nat} {joint : Path.Combinator}
    (h : page.Leads a joint i) (hparent : page.parent? j = page.parent? i) :
    page.Leads a joint j := by
  cases joint with
  | child => exact hparent.trans h
  | descendant =>
    have henclosing : page.enclosing j = page.enclosing i := by
      rw [Page.enclosing, Page.enclosing, page.ancestors_eq, page.ancestors_eq i, hparent]
      rfl
    rw [Leads, henclosing]
    exact h

namespace Selector

variable {page : Page} {scope i : Nat} {nested : ListReader}

/-! ## Behind the scope -/

/-- The selector of the scope itself. -/
def atScope : Selector := .one [.state .scope]

theorem readCompound_scope {rest : List Char} (hrest : EndsCompound rest) :
    readCompound nested (":scope".toList ++ rest) = .ok ([.state .scope], rest) := by
  have hchars : ":scope".toList = ':' :: "scope".toList := by decide
  have hscope : "scope".toList = 's' :: "cope".toList := by decide
  have hname : readName? ("scope".toList ++ rest) = some ("scope", rest) :=
    readName?_tag (by decide) hrest.endsName
  have hposition : readPosition? (':' :: ("scope".toList ++ rest)) = none := by
    have hopening : positionOpening = ':' :: 'n' :: "th-of-type(".toList := by decide
    simp [readPosition?, hopening, hscope, List.isPrefixOf?]
  have hhyphens : ['-', '-'].isPrefixOf ("scope".toList ++ rest) = false := by
    simp [hscope, List.isPrefixOf]
  have hlower : Text.lowerAscii "scope" = "scope" := by decide
  have hclass : PseudoClass.ofName? "scope" = some .scope := by decide
  rw [hchars]
  -- from here on only what is known of the name matters, not its characters
  generalize "scope".toList = name at hname hposition hhyphens
  have hread : readPseudoClass nested (':' :: (name ++ rest)) = .ok (.state .scope, rest) := by
    simp only [readPseudoClass, List.drop_succ_cons, List.drop_zero, hname, hlower, hhyphens,
      Bool.false_eq_true, if_false]
    split
    · -- no bracket follows
      rcases hrest '(' (by simp) with h | h
      · exact absurd h (by decide)
      · exact absurd h (by decide)
    · rw [hclass]
  have htag : readTag? (':' :: (name ++ rest)) = none := by
    simp [readTag?, readPrefixed?, readWild?, readName?, startsName, isNameStart]
  rw [List.cons_append, readCompound, htag]
  simp [readConditions, readCondition, hposition, hread, readConditions_endsCompound hrest, bind,
    Except.bind, pure, Except.pure]

/-- A written selector is read on behind another one. The induction is on the written one, which
reading builds up from its outermost compound. -/
theorem readRest_spell (s : Selector) (joint : Path.Combinator) {t : Selector} (ht : t.Writable)
    {rest : List Char} (hrest : EndsCompound rest) {fuel : Nat}
    (hfuel : (t.spell ++ rest).length < fuel) :
    ∃ left, rest.length < left ∧ readRest nested s fuel (joint.text.toList ++ (t.spell ++ rest))
      = readRest nested (after s joint t) left rest := by
  induction t generalizing rest with
  | one conditions =>
    obtain ⟨left, rfl⟩ : ∃ k, fuel = k + 1 := ⟨fuel - 1, by omega⟩
    obtain ⟨c, text, hspell, -⟩ := head_spellCompound ht
    refine ⟨left, ?_, readRest_spellCompound s joint ht hrest left⟩
    simp only [spell, hspell, List.length_append, List.length_cons] at hfuel
    omega
  | within outer inner conditions ih =>
    obtain ⟨houter, hconditions⟩ := ht
    obtain ⟨c, text, hspell, -⟩ := head_spellCompound hconditions
    rw [spell, List.append_assoc, List.append_assoc] at hfuel ⊢
    obtain ⟨left, hleft, hread⟩ :=
      ih houter (endsCompound_text inner (spellCompound conditions ++ rest)) hfuel
    obtain ⟨left, rfl⟩ : ∃ k, left = k + 1 := ⟨left - 1, by omega⟩
    refine ⟨left, ?_, by rw [hread, readRest_spellCompound _ inner hconditions hrest]; rfl⟩
    simp only [hspell, List.length_append, List.length_cons] at hleft
    omega

theorem readSelector_atScope (joint : Path.Combinator) {t : Selector} (ht : t.Writable) :
    readSelector nested (":scope".toList ++ (joint.text.toList ++ (t.spell ++ [])))
      = .ok (after atScope joint t, []) := by
  have hends : EndsCompound (joint.text.toList ++ (t.spell ++ [])) := endsCompound_text joint _
  obtain ⟨left, hleft, hread⟩ := @readRest_spell nested atScope joint t ht []
    (by simp [EndsCompound]) ((joint.text.toList ++ (t.spell ++ [])).length + 1)
    (by simp only [List.length_append]; omega)
  obtain ⟨left, rfl⟩ : ∃ k, left = k + 1 := ⟨left - 1, by simp at hleft; omega⟩
  rw [readSelector, readCompound_scope hends]
  exact hread

/-- What is written behind the scope is read as the selector behind the scope. -/
theorem read_atScope (joint : Path.Combinator) {t : Selector} (ht : t.Writable) :
    read (":scope" ++ joint.text ++ t.text) = .ok (after atScope joint t) := by
  have htext : (":scope" ++ joint.text ++ t.text).toList
      = ":scope".toList ++ (joint.text.toList ++ (t.spell ++ [])) := by
    simp [text]
  have hdrop : (":scope".toList ++ (joint.text.toList ++ (t.spell ++ []))).dropWhile isSpace
      = ":scope".toList ++ (joint.text.toList ++ (t.spell ++ [])) := by
    have hchars : ":scope".toList = ':' :: "scope".toList := by decide
    have hcolon : isSpace ':' = false := by decide
    simp [hchars, hcolon]
  have hchars : readChars (":scope" ++ joint.text ++ t.text).toList
      = .ok (after atScope joint t) := by
    rw [htext, readChars, hdrop, readSelector_atScope joint ht]
    rfl
  rw [read, hchars]

/-- A path behind the scope holds where the last compound does, if the rest of the path holds of the
parent. The first compound must be where the combinator leads to. -/
theorem holds_after_behind {joint : Path.Combinator} {outer : Option Selector}
    {conditions : List Condition} :
    (after atScope joint (Locator.behind outer conditions)).holds page scope i = true
      ↔ (Selector.one conditions).holds page scope i = true ∧ match outer with
        | none => page.Leads scope joint i
        | some t => ∃ p, page.parent? i = some p
          ∧ (after atScope joint t).holds page scope p = true := by
  have hscope : ∀ a, atScope.holds page scope a = true ↔ a = scope := by
    simp [atScope, holds, Condition.holds, PseudoClass.holds]
  cases outer with
  | none =>
    cases joint with
    | child => simp [Locator.behind, after, holds, Page.Leads, Option.any_eq_true, hscope]
    | descendant => simp [Locator.behind, after, holds, Page.Leads, List.any_eq_true, hscope]
  | some t => simp [Locator.behind, after, holds, Option.any_eq_true]

end Selector

namespace Locator

variable {page : Page} {scope : Nat} {describes : Nat → List Condition}

/-! ## Along the elements of a path -/

/-- A path of descriptions holds of the last one of the elements that it describes, each the parent
of the next one. -/
theorem holds_chain (hdescribes : ∀ a, (Selector.one (describes a)).holds page scope a = true)
    {outer : List Nat} {i : Nat}
    (hchain : (outer ++ [i]).IsChain fun p a => page.parent? a = some p) {t : Selector}
    (ht : chain ((outer ++ [i]).map describes) = some t) : t.holds page scope i = true := by
  induction outer using List.reverseRecOn generalizing i t with
  | nil =>
    obtain rfl : Selector.one (describes i) = t := Option.some.inj ht
    exact hdescribes i
  | append_singleton outer p ih =>
    have hparent : page.parent? i = some p := by
      rw [List.append_assoc] at hchain
      exact (List.isChain_cons_cons.1 hchain.right_of_append).1
    rw [List.map_append, List.map_singleton, chain_append] at ht
    obtain rfl := Option.some.inj ht
    exact holds_behind.2 ⟨hdescribes i, fun s hs => ⟨p, hparent, ih hchain.left_of_append hs⟩⟩

/-- A path of descriptions behind the scope, with conditions in place of the last description, holds
of the siblings of the last element for which the conditions hold. The induction is on the elements
of the path, from the inner end. -/
theorem holds_after_chain
    (hdescribes : ∀ a, (Selector.one (describes a)).holds page scope a = true)
    {joint : Path.Combinator} {outer : List Nat} {row : Nat}
    (hchain : (outer ++ [row]).IsChain fun p a => page.parent? a = some p)
    (htop : ∀ top ∈ (outer ++ [row]).head?, page.Leads scope joint top)
    {conditions : List Condition} {r : Nat} (hparent : page.parent? r = page.parent? row)
    (hr : (Selector.one conditions).holds page scope r = true) {t : Selector}
    (ht : chain (outer.map describes ++ [conditions]) = some t) :
    (after atScope joint t).holds page scope r = true := by
  induction outer using List.reverseRecOn generalizing row conditions r t with
  | nil =>
    obtain rfl : behind none conditions = t := Option.some.inj ht
    exact holds_after_behind.2 ⟨hr, (htop row rfl).congr hparent⟩
  | append_singleton outer p ih =>
    have hrow : page.parent? row = some p := by
      rw [List.append_assoc] at hchain
      exact (List.isChain_cons_cons.1 hchain.right_of_append).1
    rw [chain_append, List.map_append, List.map_singleton, chain_append] at ht
    obtain rfl := Option.some.inj ht
    have hp := ih hchain.left_of_append (by simpa using htop) rfl (hdescribes p)
      (chain_append (outer.map describes) (describes p))
    exact holds_after_behind.2 ⟨hr, p, hparent.trans hrow, hp⟩

/-- Tag and classes of an element are those of every other element of its tag that has its
classes. -/
theorem holds_plainConditions_of_subset {row r : Nat} (htag : page.tag r = page.tag row)
    (hclasses : page.classes row ⊆ page.classes r) :
    (Selector.one (plainConditions page row)).holds page scope r = true := by
  simp only [Selector.holds, plainConditions, List.all_cons, List.all_map, Bool.and_eq_true,
    List.all_eq_true]
  exact ⟨by simp [Condition.holds, htag], fun c hc => by simpa [Condition.holds] using hclasses hc⟩

/-! ## The halves of a split locator -/

/-- Does the path lead from the row to the element? It is empty where these are the same. -/
def LeadsFrom (page : Page) (row i : Nat) (within : String) : Prop :=
  (within = "" ∧ row = i) ∨ ∃ found, find page (some row) within = .ok found ∧ i ∈ found

/-- Is the element described by its position, and not by tag and classes alone? -/
def isPositioned (page : Page) (root : Option Nat) (i : Nat) : Bool :=
  decide (description page root i ≠ plainConditions page i)

/-- What the two halves of the locator of an element say. The elements are those that the locator
names, innermost first, and the combinator leads from the container to the outermost of them. -/
inductive RowSplit (page : Page) (container i : Nat) (elements : List Nat)
    (joint : Path.Combinator) (path : String) : Option String × String → Prop where
  /-- No row: the path is a single compound, and there is no position in it. -/
  | single : elements = [i] → path = (Selector.one (plainConditions page i)).text →
    RowSplit page container i elements joint path (none, path)
  /-- A table: the innermost `tr` is the row. -/
  | table {row : Nat} {within : String} : elements.find? (page.tag · == "tr") = some row →
    LeadsFrom page row i within →
    RowSplit page container i elements joint path (some Path.tableRows, within)
  /-- Any other list: the row is the outermost element with a position, or the outermost one at all.
  The selector finds the row and its siblings of the same kind. -/
  | siblings {row : Nat} {rows within : String} {found : List Nat} :
    (elements.reverse.find? (isPositioned page (some container))).or elements.getLast? = some row →
    find page (some container) (":scope" ++ joint.text ++ rows) = .ok found →
    (∀ r < page.size, page.parent? r = page.parent? row → page.tag r = page.tag row →
      page.classes row ⊆ page.classes r → r ∈ found) →
    LeadsFrom page row i within →
    RowSplit page container i elements joint path (some (":scope" ++ joint.text ++ rows), within)

section Split

variable {container i : Nat} {root : Option Nat}

/-- The steps inside of the row lead from it to the element. -/
theorem leadsFrom_row (hi : i < page.size) (hroot : root ≠ some i) {outer inner : List Nat}
    {row : Nat} (hplain : ∀ a ∈ inner, page.PlainAt a)
    (hnamed : outer ++ row :: inner = (named page root (page.ancestors i)).reverse) :
    LeadsFrom page row i (path (texts (inner.map (description page root)))) := by
  have hchain : (outer ++ row :: inner).IsChain fun p a => page.parent? a = some p := by
    rw [hnamed, List.isChain_reverse]
    exact isChain_named page root i
  have hlast : (outer ++ row :: inner).getLast? = some i := by
    obtain ⟨around, hhead⟩ := @exists_named_eq_cons page i root hroot
    simp [hnamed, hhead]
  rcases inner.eq_nil_or_concat' with rfl | ⟨inner, j, rfl⟩
  · exact .inl ⟨rfl, by simpa using hlast⟩
  obtain rfl : j = i := by
    rw [← List.cons_append, ← List.append_assoc, List.getLast?_concat] at hlast
    exact Option.some.inj hlast
  obtain ⟨t, ht⟩ : ∃ t, chain ((inner ++ [j]).map (description page root)) = some t := by
    simp
  have hholds := holds_chain (fun a => (describes_description page root a).holds row)
    (by simpa using hchain.right_of_append.tail) ht
  have hw : t.Writable :=
    writable_chain (writable_descriptions root fun a ha => (hplain a ha).nameableAt) ht
  -- the row is one of the elements around, and not the element itself
  have hrow : row ∈ page.enclosing j := by
    obtain ⟨rest, hrest⟩ := isPrefix_named page root (page.ancestors j)
    rw [← List.reverse_inj, List.reverse_reverse] at hnamed
    rw [Page.enclosing, ← hrest, ← hnamed]
    simp
  have hfound : j ∈ t.select page (some row) :=
    mem_select.2 ⟨mem_below_of_mem_enclosing hi hrow, hholds⟩
  refine .inr ⟨t.select page (some row), ?_, hfound⟩
  rw [path_texts, ht]
  exact find_text hw page (some row)

/-- The path down to the row, without the position of the row, finds the row behind the scope, and
all its siblings of the same kind. -/
theorem find_rows {outer inner : List Nat} {row : Nat} {joint : Path.Combinator}
    (hplain : ∀ a ∈ outer ++ row :: inner, page.PlainAt a)
    (hchain : (outer ++ row :: inner).IsChain fun p a => page.parent? a = some p)
    (htop : ∀ top ∈ (outer ++ row :: inner).head?, page.Leads container joint top)
    (hrow : container ∈ page.enclosing row) :
    ∃ found, find page (some container) (":scope" ++ joint.text
        ++ path (texts (outer.map (description page root) ++ [plainConditions page row])))
          = .ok found
      ∧ ∀ r < page.size, page.parent? r = page.parent? row → page.tag r = page.tag row →
        page.classes row ⊆ page.classes r → r ∈ found := by
  have hpath : (outer ++ [row]).IsChain fun p a => page.parent? a = some p := by
    rw [List.append_cons] at hchain
    exact hchain.left_of_append
  obtain ⟨t, ht⟩ : ∃ t, chain (outer.map (description page root) ++ [plainConditions page row])
      = some t := by simp
  have hw : t.Writable := by
    refine writable_chain (fun conditions hc => ?_) ht
    rcases List.mem_append.1 hc with hc | hc
    · exact writable_descriptions root (fun a ha => (hplain a (by simp [ha])).nameableAt) _ hc
    · obtain rfl := List.mem_singleton.1 hc
      exact Describes.writable (.inl rfl) (hplain row (by simp)).nameableAt
  refine ⟨(after atScope joint t).select page (some container), ?_, ?_⟩
  · rw [path_texts, ht, Option.map_some, Option.getD_some]
    show (fun s : Selector => s.select page (some container)) <$>
      Selector.read (":scope" ++ joint.text ++ t.text) = _
    rw [read_atScope joint hw]
    rfl
  · intro r hr hparent htag hclasses
    have hleads : page.Leads container .descendant row := hrow
    have hbelow : page.Leads container .descendant r := hleads.congr hparent
    refine mem_select.2 ⟨mem_below_of_mem_enclosing hr hbelow, ?_⟩
    exact holds_after_chain (fun a => (describes_description page root a).holds container) hpath
      (by cases outer <;> simpa using htop) hparent
      (holds_plainConditions_of_subset htag hclasses) ht

/-- Where the texts of steps are split, the elements are split with them. -/
theorem exists_of_texts_eq {elements : List Nat} {describes : Nat → List Condition}
    {outer inner : List String} {row : String}
    (h : texts (elements.map describes) = outer ++ row :: inner) :
    ∃ outside a inside, elements = outside ++ a :: inside
      ∧ outer = texts (outside.map describes) ∧ row = (Selector.one (describes a)).text
      ∧ inner = texts (inside.map describes) := by
  rw [texts, List.map_map] at h
  obtain ⟨outside, rest, rfl, rfl, hrest⟩ := List.map_eq_append_iff.1 h
  obtain ⟨a, inside, rfl, rfl, rfl⟩ := List.map_eq_cons_iff.1 hrest
  exact ⟨outside, a, inside, rfl, by simp [texts], rfl, by simp [texts]⟩

/-- Counted from the inner end, the last one of a kind is the first one. -/
theorem find?_of_reverse_eq {elements outside inside : List Nat} {a : Nat} {p : Nat → Bool}
    (h : elements.reverse = outside ++ a :: inside) (ha : p a = true)
    (hinside : ∀ b ∈ inside, p b = false) : elements.find? p = some a := by
  rw [List.find?_eq_some_iff_append]
  refine ⟨ha, inside.reverse, outside.reverse, ?_, by simpa using hinside⟩
  rw [← List.reverse_inj, h]
  simp

/-- Counted from the outer end, the first one of a kind is found, or else the first one at all. -/
theorem find?_or_getLast?_of_reverse_eq {elements outside inside : List Nat} {a : Nat}
    {p : Nat → Bool} (h : elements.reverse = outside ++ a :: inside)
    (houtside : ∀ b ∈ outside, p b = false)
    (ha : p a = true ∨ outside = [] ∧ ∀ b ∈ elements, p b = false) :
    (elements.reverse.find? p).or elements.getLast? = some a := by
  rcases ha with ha | ⟨rfl, hall⟩
  · have hfind : elements.reverse.find? p = some a := by
      rw [List.find?_eq_some_iff_append]
      exact ⟨ha, outside, inside, h, by simpa using houtside⟩
    rw [hfind, Option.some_or]
  · have hnone : elements.reverse.find? p = none := by
      rw [List.find?_eq_none]
      simpa using hall
    rw [hnone, Option.none_or, ← List.head?_reverse, h]
    rfl

variable {elements : List Nat} {joint : Path.Combinator} {whole : String}

/-- Behind a `tr` that is the last one on the way, a locator is split at it. -/
theorem rowSplit_table (hi : i < page.size) (hself : container ≠ i)
    (hnamed : named page (some container) (page.ancestors i) = elements)
    (hplain : ∀ a ∈ elements, page.PlainAt a) {outer inner : List String} {row : String}
    (hsplit : texts (elements.reverse.map (description page (some container)))
      = outer ++ row :: inner)
    (hrow : Path.Compound.isTableRow ⟨none, row⟩ = true)
    (hinner : ∀ t ∈ inner, Path.Compound.isTableRow ⟨none, t⟩ = false) :
    RowSplit page container i elements joint whole (some Path.tableRows, path inner) := by
  have hdescribes := describes_description page (some container)
  obtain ⟨outside, a, inside, hreverse, -, rfl, rfl⟩ := exists_of_texts_eq hsplit
  have hmem : ∀ b ∈ outside ++ a :: inside, page.PlainAt b := fun b hb =>
    hplain b (by rwa [← List.mem_reverse, hreverse])
  have htag : page.tag a = "tr" := ((hdescribes a).isTableRow_iff (hmem a (by simp))).1 hrow
  have hinside : ∀ b ∈ inside, page.tag b ≠ "tr" := by
    intro b hb htag
    have hisRow := ((hdescribes b).isTableRow_iff (hmem b (by simp [hb]))).2 htag
    rw [hinner _ (List.mem_map_of_mem (List.mem_map_of_mem hb))] at hisRow
    simp at hisRow
  have hfind : elements.find? (page.tag · == "tr") = some a :=
    find?_of_reverse_eq hreverse (by simp [htag]) (by simpa using hinside)
  have hwalk : outside ++ a :: inside
      = (named page (some container) (page.ancestors i)).reverse := by rw [hnamed, hreverse]
  exact .table hfind (leadsFrom_row hi (by simpa using hself)
    (fun b hb => hmem b (by simp [hb])) hwalk)

/-- Down to the row, without the position there, a locator finds the rows. -/
theorem rowSplit_siblings (hi : i < page.size) (hself : container ≠ i)
    (hnamed : named page (some container) (page.ancestors i) = elements)
    (hplain : ∀ a ∈ elements, page.PlainAt a)
    (hbelow : ∀ a ∈ elements, container ∈ page.enclosing a)
    (htop : ∀ top ∈ elements.getLast?, page.Leads container joint top)
    {outer inner : List String} {row : String}
    (hsplit : texts (elements.reverse.map (description page (some container)))
      = outer ++ row :: inner)
    (houter : ∀ t ∈ outer, Path.hasPosition t.toList = false)
    (hrow : Path.hasPosition row.toList = true ∨ outer = []
      ∧ ∀ t ∈ texts (elements.reverse.map (description page (some container))),
        Path.hasPosition t.toList = false) :
    RowSplit page container i elements joint whole
      (some (":scope" ++ joint.text
        ++ path (outer ++ [String.ofList (Path.dropPositions row.toList)])), path inner) := by
  have hdescribes := describes_description page (some container)
  obtain ⟨outside, a, inside, hreverse, rfl, rfl, rfl⟩ := exists_of_texts_eq hsplit
  have hmem : ∀ b ∈ outside ++ a :: inside, b ∈ elements := fun b hb => by
    rwa [← List.mem_reverse, hreverse]
  have hchain : (outside ++ a :: inside).IsChain fun p a => page.parent? a = some p := by
    rw [← hreverse, List.isChain_reverse, ← hnamed]
    exact isChain_named page (some container) i
  have hposition : ∀ b ∈ elements, Path.hasPosition
      (Selector.one (description page (some container) b)).text.toList
        = isPositioned page (some container) b := fun b hb => by
    rw [Bool.eq_iff_iff, (hdescribes b).hasPosition_text_iff (hplain b hb), isPositioned,
      decide_eq_true_iff]
  -- the row and those of its kind are found by the path down to the row
  have ha : a ∈ elements := hmem a (by simp)
  have hat : (elements.reverse.find? (isPositioned page (some container))).or elements.getLast?
      = some a := by
    refine find?_or_getLast?_of_reverse_eq hreverse (fun b hb => ?_) (hrow.imp ?_ ?_)
    · rw [← hposition b (hmem b (by simp [hb]))]
      exact houter _ (List.mem_map_of_mem (List.mem_map_of_mem hb))
    · rw [hposition a ha]
      exact id
    · rintro ⟨hnil, hall⟩
      refine ⟨by simpa [texts] using hnil, fun b hb => ?_⟩
      rw [← hposition b hb]
      exact hall _ (List.mem_map_of_mem (List.mem_map_of_mem (List.mem_reverse.2 hb)))
  obtain ⟨found, hfind, hfound⟩ := @find_rows page container (some container) outside inside a
    joint (fun b hb => hplain b (hmem b hb)) hchain (by rwa [← hreverse, List.head?_reverse])
    (hbelow a ha)
  have htexts : texts (outside.map (description page (some container)))
      ++ [(Selector.one (plainConditions page a)).text]
        = texts (outside.map (description page (some container)) ++ [plainConditions page a]) := by
    simp [texts]
  have hwalk : outside ++ a :: inside
      = (named page (some container) (page.ancestors i)).reverse := by rw [hnamed, hreverse]
  rw [(hdescribes a).dropPositions_text (hplain a ha), htexts]
  exact .siblings hat hfind hfound (leadsFrom_row hi (by simpa using hself)
    (fun b hb => hplain b (hmem b (by simp [hb]))) hwalk)

/-- Split where the texts of its steps say so, a locator is split at one of its elements. -/
theorem rowSplit_splitRow (hi : i < page.size) (hself : container ≠ i)
    (hnamed : named page (some container) (page.ancestors i) = elements)
    (hplain : ∀ a ∈ elements, page.PlainAt a)
    (hbelow : ∀ a ∈ elements, container ∈ page.enclosing a) {direct : Bool}
    (htop : ∀ top ∈ elements.getLast?,
      page.Leads container (if direct then .child else .descendant) top) :
    RowSplit page container i elements (if direct then .child else .descendant)
      (path (texts (elements.reverse.map (description page (some container)))))
      (Path.splitRow (path (texts (elements.reverse.map (description page (some container)))))
        direct) := by
  have hdescribes := describes_description page (some container)
  obtain ⟨around, helements⟩ : ∃ around, elements = i :: around := by
    obtain ⟨around, hhead⟩ := @exists_named_eq_cons page i (some container) (by simpa using hself)
    exact ⟨around, hnamed.symm.trans hhead⟩
  have htexts : ∀ t ∈ texts (elements.reverse.map (description page (some container))),
      t ≠ "" ∧ Path.Scan.Takes t.toList := by
    intro t ht
    simp only [texts, List.map_map, List.mem_map, List.mem_reverse, Function.comp_apply] at ht
    obtain ⟨a, ha, rfl⟩ := ht
    exact (hdescribes a).takes_text (hplain a ha)
  have hne : texts (elements.reverse.map (description page (some container))) ≠ [] := by
    simp [texts, helements]
  rcases Path.splitRow_path hne htexts direct with
    ⟨outer, row, inner, hsplit, hrow, hinner, heq⟩ | ⟨t, hsplit, hposition, heq⟩
      | ⟨outer, row, inner, hsplit, houter, hrow, heq⟩
  · rw [heq]
    exact rowSplit_table hi hself hnamed hplain hsplit hrow hinner
  · -- a single compound is that of the element itself
    obtain rfl : around = [] := by
      have hlength := congrArg List.length hsplit
      simpa [texts, helements] using hlength
    subst helements
    obtain rfl : (Selector.one (description page (some container) i)).text = t := by
      simpa [texts] using hsplit
    have hplainly : description page (some container) i = plainConditions page i := by
      by_contra hne
      rw [((hdescribes i).hasPosition_text_iff (hplain i (by simp))).2 hne] at hposition
      simp at hposition
    rw [heq, hsplit, hplainly]
    have hpath : path [(Selector.one (plainConditions page i)).text]
        = (Selector.one (plainConditions page i)).text := by simp [path]
    rw [hpath]
    exact .single rfl rfl
  · rw [heq]
    exact rowSplit_siblings hi hself hnamed hplain hbelow htop hsplit houter hrow

end Split

/-- **Splitting a locator at its row.** On a page that was received, the tags of which are made of
letters, digits and hyphens, every element below a container has a locator there. If the classes of
the elements that it names are plain, it is split as `RowSplit` says. Splitting is told whether the
outermost of these elements is a child of the container. -/
theorem splitRow_synthesize {page : Page} (hpage : page.Received)
    (htags : ∀ j < page.size, ∀ c ∈ (page.tag j).toList, c.isAlphanum = true ∨ c = '-')
    {container i : Nat} (hi : i < page.size) (hin : container ∈ page.enclosing i)
    (hclasses : ∀ a ∈ named page (some container) (page.ancestors i),
      ∀ c ∈ page.classes a, IsPlainClass c) :
    ∃ path top, synthesize page (some i) (some container) false = .ok path
      ∧ path = Locator.path (texts ((named page (some container) (page.ancestors i)).reverse.map
        (description page (some container))))
      ∧ (named page (some container) (page.ancestors i)).getLast? = some top
      ∧ ∀ direct, (direct = true ↔ page.parent? top = some container) →
        RowSplit page container i (named page (some container) (page.ancestors i))
          (if direct then .child else .descendant) path (Path.splitRow path direct) := by
  have hmem := Page.mem_ancestors_of_mem_enclosing hin
  have hbelow := mem_below_of_mem_named hi hmem
  have hplain : ∀ a ∈ named page (some container) (page.ancestors i), page.PlainAt a := by
    intro a ha
    have hsize := Page.lt_size_of_mem_below (hbelow a ha)
    exact ⟨hpage.letterFirst.tag hsize, htags a hsize, hclasses a ha⟩
  have hself : container ≠ i :=
    (Page.mem_below_some.1 (mem_below_of_mem_enclosing hi hin)).2.1.symm
  obtain ⟨around, hhead⟩ := @exists_named_eq_cons page i (some container) (by simpa using hself)
  obtain ⟨top, htop⟩ := Option.ne_none_iff_exists'.1
    (show (named page (some container) (page.ancestors i)).getLast? ≠ none by simp [hhead])
  have hsteps : synthesize page (some i) (some container) false
      = .ok (path (texts ((named page (some container) (page.ancestors i)).reverse.map
        (description page (some container))))) := by
    rw [synthesize, steps, stepsAlong_eq_texts fun a ha => (hplain a ha).nameableAt]
    rfl
  refine ⟨_, top, hsteps, rfl, htop, fun direct hdirect => ?_⟩
  refine rowSplit_splitRow hi hself rfl hplain
    (fun a ha => mem_enclosing_of_mem_below (hbelow a ha)) fun a ha => ?_
  obtain rfl : top = a := Option.some.inj (htop.symm.trans ha)
  cases direct with
  | true => exact hdirect.1 rfl
  | false => exact mem_enclosing_of_mem_below (hbelow top (List.mem_of_getLast? htop))

/-- A list of which both items have the same words, set in bold. -/
def boldItems : Page :=
  Page.ofMarkup "<ul><li class=a><b></b></li><li class=a><b></b></li></ul>"

theorem splitRow_synthesize_boldItems :
    ∃ path, synthesize boldItems (some 4) (some 0) false = .ok path
      ∧ RowSplit boldItems 0 4 [4, 3] .child path (Path.splitRow path true) := by
  have hreceived : boldItems.Received := .ofMarkup _
  have hnamed : named boldItems (some 0) (boldItems.ancestors 4) = [4, 3] := by decide +kernel
  have htags : boldItems.places.all (fun j =>
      (boldItems.tag j).toList.all fun c => c.isAlphanum || c = '-') = true := by decide +kernel
  obtain ⟨path, top, hpath, -, htop, hsplit⟩ :=
    @splitRow_synthesize boldItems hreceived (by simpa [Page.places] using htags) 0 4
      (by decide +kernel) (by decide +kernel) (by decide +kernel)
  rw [hnamed] at htop hsplit
  obtain rfl : 3 = top := by simpa using htop
  exact ⟨path, hpath, hsplit true (by decide +kernel)⟩

end Locator

end Retrace
