/-
Locators find their elements.

On a page whose names can be written, every element has a locator, the locator is a selector, and
the element is among what it finds. On a page with a single element at its top, as real pages have
it, the element is all that is found.

The path is never counted as a whole when it is made, so the latter goes up the chain: what the
path of the parent finds is the parent alone, and the last description tells its element from the
parent's other children.
-/
import Mathlib.Data.List.Nodup
import Retrace.Proofs.Locator.Trail

set_option autoImplicit false

namespace Retrace

open Selector

/-- A page with a single element at its top, and no other element of its tag. -/
def Page.HasSoleTop (page : Page) : Prop :=
  ∃ top < page.size, ∀ i < page.size,
    (page.parent? i = none → i = top) ∧ (page.tag i = page.tag top → i = top)

namespace Locator

variable {page : Page}

theorem select_eq_singleton_iff {root : Option Nat} {s : Selector} {i : Nat} :
    s.select page root = [i] ↔ i ∈ s.select page root ∧ ∀ j ∈ s.select page root, j = i := by
  have hnodup : (s.select page root).Nodup := by
    refine List.Nodup.filter _ ?_
    cases root with
    | none => exact List.nodup_range
    | some root => exact List.nodup_range.filter _
  constructor
  · intro h
    simp [h]
  · rintro ⟨hmem, hall⟩
    exact List.perm_singleton.1 ((List.perm_ext_iff_of_nodup hnodup (List.nodup_singleton i)).2
      fun j => ⟨fun hj => List.mem_singleton.2 (hall j hj),
        fun hj => List.mem_singleton.1 hj ▸ hmem⟩)

/-- The locator of an element below a root is the path of a trail. -/
theorem exists_synthesize (hp : page.Nameable) (root : Option Nat) (useIds : Bool) {i : Nat}
    (hi : i < page.size) (hroot : ∀ r, root = some r → r ∈ page.ancestors i) :
    ∃ compounds, steps page (some i) root useIds = .ok (texts compounds)
      ∧ synthesize page (some i) root useIds = .ok (path (texts compounds))
      ∧ Trail page root (some i) compounds := by
  obtain ⟨compounds, hsteps, htrail⟩ := exists_trail hp useIds hi hroot
  have hsteps' : steps page (some i) root useIds = .ok (texts compounds) := hsteps
  exact ⟨compounds, hsteps', by rw [synthesize, hsteps']; rfl, htrail⟩

/-- Seen from the page, the locator of an element is the text of a selector that can be written and
that matches the element. -/
theorem exists_selector_synthesize (hp : page.Nameable) {i : Nat} (hi : i < page.size) :
    ∃ compounds s, synthesize page (some i) none = .ok s.text ∧ s.Writable
      ∧ i ∈ s.select page none ∧ Trail page none (some i) compounds
      ∧ chain compounds = some s := by
  obtain ⟨compounds, -, hsynthesize, htrail⟩ :=
    exists_synthesize hp none true hi fun r hr => absurd hr (by simp)
  obtain ⟨s, hs⟩ := Option.ne_none_iff_exists'.1
    (mt chain_eq_none_iff.1 (htrail.ne_nil (by simp)))
  obtain ⟨j, hj, hholds⟩ := htrail.holds hs
  obtain rfl := Option.some.inj hj
  refine ⟨compounds, s, ?_, htrail.writable hs, ?_, htrail, hs⟩
  · rw [hsynthesize, path_texts, hs]
    rfl
  · exact mem_select.2 ⟨Page.mem_below_none.2 hi, hholds⟩

theorem text_ne_empty {s : Selector} (h : s.Writable) : s.text ≠ "" := by
  obtain ⟨c, left, hspell, -⟩ := head_spell h
  intro hempty
  simpa [text, hspell] using congrArg String.toList hempty

/-- Where a single element is at the top, the path of a trail finds its element alone. The
induction is on the trail, that is, up the chain of the element. -/
theorem Trail.select_eq_singleton (htop : page.HasSoleTop) {element : Option Nat}
    {compounds : List (List Condition)} (h : Trail page none element compounds) {i : Nat}
    (helement : element = some i) {s : Selector} (hs : chain compounds = some s) :
    s.select page none = [i] := by
  induction h generalizing i s with
  | top => simp at helement
  | root hroot => simp at hroot
  | found _ hselect =>
    obtain rfl := Option.some.inj helement
    obtain rfl := Option.some.inj hs
    exact hselect
  | @child i' outer conditions hbelow hw hdescribes hcount hapart htrail ih =>
    obtain rfl := Option.some.inj helement
    have hi := Page.mem_below_none.1 hbelow
    have hmem : ∀ t, chain (outer ++ [conditions]) = some t → i' ∈ t.select page none := by
      intro t ht
      obtain ⟨j, hj, hholds⟩ :=
        (Trail.child hbelow hw hdescribes hcount hapart htrail).holds ht
      obtain rfl := Option.some.inj hj
      exact mem_select.2 ⟨hbelow, hholds⟩
    refine select_eq_singleton_iff.2 ⟨hmem s hs, ?_⟩
    rw [chain_append] at hs
    obtain rfl := Option.some.inj hs
    intro j hj
    obtain ⟨hjbelow, hjholds⟩ := mem_select.1 hj
    obtain ⟨hconditions, houter⟩ := holds_behind.1 hjholds
    have hjsize := Page.mem_below_none.1 hjbelow
    cases hparent : page.parent? i' with
    | none =>
      -- at the top the tag alone is found once, so the walk has ended there
      obtain ⟨top, -, hunique⟩ := htop
      have hall : ∀ k ∈ (Selector.one conditions).select page none, k = i' := by
        intro k hk
        obtain ⟨hkbelow, hkholds⟩ := mem_select.1 hk
        have hk' := Page.mem_below_none.1 hkbelow
        have htag := hdescribes.tag_eq hkholds
        have hi' := (hunique i' hi).1 hparent
        rw [hi'] at htag
        rw [(hunique k hk').2 htag, hi']
      have hself : i' ∈ (Selector.one conditions).select page none :=
        mem_select.2 ⟨hbelow, hdescribes.holds _⟩
      rw [select_eq_singleton_iff.2 ⟨hself, hall⟩] at hcount
      exact absurd rfl hcount
    | some p =>
      -- whatever is found has a parent that the outer path finds, and that is `p` alone
      rw [hparent] at htrail
      obtain ⟨t, ht⟩ := Option.ne_none_iff_exists'.1
        (mt chain_eq_none_iff.1 (htrail.ne_nil (by simp)))
      obtain ⟨q, hq, hqholds⟩ := houter t ht
      have hqsize := Nat.lt_trans (Page.parent?_lt hq) hjsize
      have hqmem : q ∈ t.select page none :=
        mem_select.2 ⟨Page.mem_below_none.2 hqsize, hqholds⟩
      rw [ih hparent ht, List.mem_singleton] at hqmem
      subst hqmem
      exact hapart (scopeOf none) j hjsize (hq.trans hparent.symm) hconditions

/-- **Locators find their elements.** Every element of a page has a locator, which is a selector
and finds the element; where a single element is at the top of the page, it finds nothing else. -/
theorem find_synthesize (hp : page.Nameable) {i : Nat} (hi : i < page.size) :
    ∃ locator found, synthesize page (some i) none = .ok locator ∧ locator ≠ ""
      ∧ find page none locator = .ok found ∧ i ∈ found ∧ (page.HasSoleTop → found = [i]) := by
  obtain ⟨compounds, s, hsynthesize, hw, hmem, htrail, hs⟩ := exists_selector_synthesize hp hi
  exact ⟨s.text, s.select page none, hsynthesize, text_ne_empty hw, find_text hw page none, hmem,
    fun htop => htrail.select_eq_singleton htop rfl hs⟩

/-- A page with two paragraphs that only their positions tell apart. Their class begins with a
digit, which is written as an escape. -/
def twoParagraphs : Page :=
  ((((Page.empty.push "html" [] none).push "body" [("id", "a")] (some 0)).push "p"
    [("class", "1st x")] (some 1)).push "p" [("class", "1st x")] (some 1))

theorem find_synthesize_twoParagraphs :
    ∃ locator found, synthesize twoParagraphs (some 3) none = .ok locator ∧ locator ≠ ""
      ∧ find twoParagraphs none locator = .ok found ∧ found = [3] := by
  obtain ⟨locator, found, hsynthesize, hne, hfind, -, hsole⟩ :=
    @find_synthesize twoParagraphs (by decide) 3 (by decide)
  exact ⟨locator, found, hsynthesize, hne, hfind, hsole ⟨0, by decide, by decide⟩⟩

end Locator

end Retrace
