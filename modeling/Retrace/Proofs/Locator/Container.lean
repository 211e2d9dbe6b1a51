/-
Locators behind the locator of a container.

Inside of a container the descriptions are counted below the container only, while the finished
locator is looked up in the whole page. What ties the two together is that the container's own
locator finds the container alone: whatever the whole locator finds has a first step that lies in
the container, as a child or somewhere below, and there the counts are valid. From the first step
on every further one tells its element from its siblings. So the locator finds the element alone,
however many elements there are at the top of the page, and however containers of one tag are
nested (`Trail.select_after`).

The container's locator may come from another page; all that is used of it is that it is the text
of a selector that can be written (`exists_writable_of_synthesize`).
-/
import Retrace.Proofs.Recording.Containment

set_option autoImplicit false

namespace Retrace

open Selector

/-! ## Pages as they are received -/

/-- The pages there are: those of markup, and those of events. -/
inductive Page.Received : Page → Prop where
  | ofMarkup (text : String) : Received (Page.ofMarkup text)
  | ofPayload {payload : Json} {e : Event} : Event.ofPayload payload = .ok e → Received e.page

theorem Page.Received.letterFirst {page : Page} (h : page.Received) : page.LetterFirst := by
  cases h with
  | ofMarkup text => exact Page.letterFirst_ofMarkup text
  | ofPayload hpayload => exact (Event.page_of_ofPayload hpayload).1

theorem Page.Received.tag_ne_empty {page : Page} (h : page.Received) {i : Nat}
    (hi : i < page.size) : page.tag i ≠ "" := by
  intro hempty
  have hletter := h.letterFirst.tag hi
  simp [Retrace.LetterFirst, hempty] at hletter

/-- On a page that was received, tags begin with a letter, so it is named by characters alone. -/
theorem Page.Received.nameable {page : Page} (h : page.Received) (hw : page.Writable) :
    page.Nameable :=
  ⟨fun i hi => ⟨h.letterFirst.tag hi, hw.tags i hi⟩, hw.classes, hw.ids⟩

/-! ## A selector behind another one -/

namespace Selector

/-- The selector with its outermost compound behind another selector. -/
def after (s : Selector) (joint : Path.Combinator) : Selector → Selector
  | .one conditions => .within s joint conditions
  | .within outer inner conditions => .within (after s joint outer) inner conditions

variable {s t : Selector}

theorem spell_after (s : Selector) (joint : Path.Combinator) (t : Selector) :
    (after s joint t).spell = s.spell ++ (joint.text.toList ++ t.spell) := by
  induction t with
  | one conditions => rfl
  | within outer inner conditions ih => simp [after, spell, ih]

theorem text_after (s : Selector) (joint : Path.Combinator) (t : Selector) :
    (after s joint t).text = s.text ++ joint.text ++ t.text := by
  rw [← String.toList_inj]
  simp [text, spell_after]

theorem Writable.after (hs : s.Writable) (joint : Path.Combinator) (ht : t.Writable) :
    (Selector.after s joint t).Writable := by
  induction t with
  | one conditions => exact ⟨hs, ht⟩
  | within outer inner conditions ih => exact ⟨ih ht.1, ht.2⟩

/-- Conditions that can be written do not look at the scope. -/
theorem holds_one_scope {conditions : List Condition} (hw : WritableCompound conditions)
    {page : Page} {i : Nat} (scope scope' : Nat)
    (h : (Selector.one conditions).holds page scope i = true) :
    (Selector.one conditions).holds page scope' i = true := by
  refine List.all_eq_true.2 fun c hc => ?_
  have hcond := List.all_eq_true.1 h c hc
  cases c with
  | tag name => exact hcond
  | id value => exact hcond
  | hasClass name => exact hcond
  | position n => exact hcond
  -- any other condition is none that can be written
  | _ => exact (hw.writable _ hc).elim

end Selector

namespace Locator

variable {page : Page}

/-! ## What is handed out is a written selector -/

theorem writable_chain {compounds : List (List Condition)}
    (hw : ∀ conditions ∈ compounds, WritableCompound conditions) {s : Selector}
    (hs : chain compounds = some s) : s.Writable := by
  induction compounds using List.reverseRecOn generalizing s with
  | nil => simp at hs
  | append_singleton outer conditions ih =>
    have hlast : WritableCompound conditions := hw _ (by simp)
    rw [chain_append] at hs
    obtain rfl := Option.some.inj hs
    cases houter : chain outer with
    | none => exact hlast
    | some t => exact ⟨ih (fun c hc => hw c (List.mem_append_left _ hc)) houter, hlast⟩

/-- An id is used only if there is one, so it can be written. -/
theorem exists_compound_of_uniqueId? (hp : page.Nameable) {root : Option Nat} {useIds : Bool}
    {i : Nat} (hi : i < page.size) {id : String}
    (h : uniqueId? page root useIds i = .ok (some id)) :
    ∃ conditions, id = (Selector.one conditions).text ∧ WritableCompound conditions := by
  unfold uniqueId? at h
  by_cases hid : (useIds && decide (page.attr i "id" ≠ "")) = true
  · have hne : page.attr i "id" ≠ "" := by simpa using (Bool.and_eq_true_iff.1 hid).2
    simp only [hid, if_true] at h
    cases hcount : count page root (byId (page.attr i "id")) with
    | error e => simp [hcount, bind, Except.bind] at h
    | ok found =>
      simp only [hcount, bind, Except.bind, pure, Except.pure, Except.ok.injEq] at h
      split at h
      · obtain rfl := Option.some.inj h
        refine ⟨[.id (page.attr i "id")], byId_eq _, List.cons_ne_nil _ _, ?_, by simp⟩
        intro c hc
        obtain rfl := List.mem_singleton.1 hc
        exact ⟨hne, hp.ids i hi⟩
      · simp at h
  · rw [if_neg hid] at h
    exact absurd (Except.ok.inj h) (by simp)

/-- Whatever the root is, a walk outwards that succeeds hands out written compounds. The induction
goes along the elements of the walk. -/
theorem exists_compounds_of_stepsAlong (hp : page.Nameable) (root : Option Nat) (useIds : Bool)
    {around : List Nat} (haround : ∀ i ∈ around, i < page.size) {found : List String}
    (h : stepsAlong page root useIds around = .ok found) :
    ∃ compounds, found = texts compounds
      ∧ ∀ conditions ∈ compounds, WritableCompound conditions := by
  induction around generalizing found with
  | nil =>
    obtain rfl := Except.ok.inj h
    exact ⟨[], rfl, by simp⟩
  | cons i around ih =>
    obtain ⟨hi, haround⟩ := List.forall_mem_cons.1 haround
    rw [stepsAlong] at h
    by_cases hself : root = some i
    · rw [if_pos hself] at h
      obtain rfl := Except.ok.inj h
      exact ⟨[], rfl, by simp⟩
    rw [if_neg hself] at h
    cases hid : uniqueId? page root useIds i with
    | error e => simp [hid, bind, Except.bind] at h
    | ok id? =>
      simp only [hid, bind, Except.bind] at h
      cases id? with
      | some id =>
        obtain ⟨conditions, rfl, hw⟩ := exists_compound_of_uniqueId? hp hi hid
        obtain rfl := Except.ok.inj h
        exact ⟨[conditions], rfl, by simpa using hw⟩
      | none =>
        obtain ⟨conditions, hdescribes, hdescribe, -⟩ := describe_spec (hp.at hi) hi root
        have hw := hdescribes.writable (hp.at hi)
        rw [hdescribe] at h
        dsimp only at h
        rw [count_text hw] at h
        dsimp only at h
        split at h
        · obtain rfl := Except.ok.inj h
          exact ⟨[conditions], rfl, by simpa using hw⟩
        · cases houter : stepsAlong page root useIds around with
          | error e => simp [houter] at h
          | ok outer =>
            obtain ⟨compounds, rfl, hall⟩ := ih haround houter
            simp only [houter, pure, Except.pure] at h
            obtain rfl := Except.ok.inj h
            refine ⟨compounds ++ [conditions], by simp [texts], fun c hc => ?_⟩
            rcases List.mem_append.1 hc with hc | hc
            · exact hall c hc
            · obtain rfl := List.mem_singleton.1 hc
              exact hw

/-- A locator that was handed out, on whatever page and from whatever root, and that finds anything
at all is the text of a selector that can be written. -/
theorem exists_writable_of_synthesize {other : Page} (hp : other.Nameable)
    {element root : Option Nat} (helement : ∀ i ∈ element, i < other.size) {useIds : Bool}
    {locator : String} (h : synthesize other element root useIds = .ok locator)
    {found : List Nat} (hfind : find page none locator = .ok found) :
    ∃ s : Selector, s.Writable ∧ s.text = locator := by
  obtain ⟨compounds, hlocator, hw⟩ : ∃ compounds, locator = path (texts compounds)
      ∧ ∀ conditions ∈ compounds, WritableCompound conditions := by
    cases element with
    | none =>
      obtain rfl := Except.ok.inj h
      exact ⟨[], rfl, by simp⟩
    | some i =>
      rw [synthesize] at h
      cases hsteps : steps other (some i) root useIds with
      | error e => simp [hsteps] at h
      | ok found =>
        obtain ⟨compounds, rfl, hw⟩ := exists_compounds_of_stepsAlong hp root useIds
          (fun a ha => Page.lt_size_of_mem_ancestors (helement i rfl) ha) hsteps
        rw [hsteps] at h
        exact ⟨compounds, (Except.ok.inj h).symm, hw⟩
  rw [path_texts] at hlocator
  cases hchain : chain compounds with
  | some s => exact ⟨s, writable_chain hw hchain, by simp [hlocator, hchain]⟩
  | none =>
    -- the empty text is no selector
    rw [hchain] at hlocator
    subst hlocator
    exact absurd hfind (LawfulEngine.find_empty page none found)

/-! ## Behind the container -/

theorem enclosing_of_parent?_eq_some {i p : Nat} (h : page.parent? i = some p) :
    page.enclosing i = page.ancestors p := by
  rw [Page.enclosing, Page.ancestors_of_parent?_eq_some h, List.tail_cons]

/-- What has the container around it lies below the container. -/
theorem mem_below_of_mem_enclosing {container i : Nat} (hi : i < page.size)
    (h : container ∈ page.enclosing i) : i ∈ page.below (some container) := by
  refine Page.mem_below_some.2 ⟨hi, ?_, Page.mem_ancestors_of_mem_enclosing h⟩
  rintro rfl
  cases hparent : page.parent? i with
  | none =>
    rw [Page.enclosing, Page.ancestors_of_parent?_eq_none hparent] at h
    simp at h
  | some p =>
    rw [enclosing_of_parent?_eq_some hparent] at h
    have hle := Page.le_of_mem_ancestors h
    have hlt := Page.parent?_lt hparent
    omega

theorem mem_enclosing_of_mem_below {container i : Nat} (h : i ∈ page.below (some container)) :
    container ∈ page.enclosing i := by
  obtain ⟨-, hne, hmem⟩ := Page.mem_below_some.1 h
  rw [page.ancestors_eq] at hmem
  rcases List.mem_cons.1 hmem with rfl | hmem
  · exact absurd rfl hne
  · rw [Page.enclosing, page.ancestors_eq]
    exact hmem

/-- Where the container's locator finds the container alone, a first step behind it finds the
elements below the container for which the conditions of the step hold; behind the sign for a
child, the children among them only. -/
theorem mem_select_within {s : Selector} {container : Nat}
    (hselect : s.select page none = [container]) {joint : Path.Combinator}
    {conditions : List Condition} {i : Nat} :
    i ∈ (Selector.within s joint conditions).select page none
      ↔ i ∈ page.below (some container)
        ∧ (Selector.one conditions).holds page (scopeOf none) i = true
        ∧ (joint = .child → page.parent? i = some container) := by
  have houter : ∀ p < page.size, s.holds page (scopeOf none) p = true ↔ p = container := by
    intro p hp
    have hmem : p ∈ s.select page none ↔ p = container := by rw [hselect, List.mem_singleton]
    rw [← hmem, mem_select]
    simp [Page.mem_below_none.2 hp]
  rw [mem_select, Page.mem_below_none]
  constructor
  · rintro ⟨hi, hholds⟩
    simp only [Selector.holds, Bool.and_eq_true] at hholds
    obtain ⟨hconditions, hjoint⟩ := hholds
    cases joint with
    | child =>
      obtain ⟨p, hparent, hp⟩ := (Option.any_eq_true ..).1 hjoint
      obtain rfl := (houter p (Nat.lt_trans (Page.parent?_lt hparent) hi)).1 hp
      have hmem : p ∈ page.enclosing i := by
        rw [enclosing_of_parent?_eq_some hparent]
        exact page.self_mem_ancestors p
      exact ⟨mem_below_of_mem_enclosing hi hmem, hconditions, fun _ => hparent⟩
    | descendant =>
      obtain ⟨p, hmem, hp⟩ := List.any_eq_true.1 hjoint
      have hsize := Page.lt_size_of_mem_ancestors hi (Page.mem_ancestors_of_mem_enclosing hmem)
      obtain rfl := (houter p hsize).1 hp
      exact ⟨mem_below_of_mem_enclosing hi hmem, hconditions, by simp⟩
  · rintro ⟨hbelow, hconditions, hchild⟩
    have hi := Page.lt_size_of_mem_below hbelow
    have hmem := mem_enclosing_of_mem_below hbelow
    have hholds := (houter container (Page.lt_size_of_mem_ancestors hi
      (Page.mem_ancestors_of_mem_enclosing hmem))).2 rfl
    refine ⟨hi, ?_⟩
    simp only [Selector.holds, Bool.and_eq_true]
    refine ⟨hconditions, ?_⟩
    cases joint with
    | child => exact (Option.any_eq_true ..).2 ⟨container, hchild rfl, hholds⟩
    | descendant => exact List.any_eq_true.2 ⟨container, hmem, hholds⟩

theorem after_behind (s : Selector) (joint : Path.Combinator) (outer : Option Selector)
    (conditions : List Condition) :
    after s joint (behind outer conditions) = match outer with
      | none => .within s joint conditions
      | some t => .within (after s joint t) .child conditions := by
  cases outer <;> rfl

/-- **Behind the container.** A path that was found below the container finds its element alone
behind the container's locator, if the sign for a child stands there just where the path begins
with a child. The induction is on the trail, that is, up the chain from the element to the
container. -/
theorem Trail.select_after {s : Selector} {container : Nat}
    (hselect : s.select page none = [container]) {joint : Path.Combinator} {element : Option Nat}
    {compounds : List (List Condition)} (h : Trail page (some container) element compounds)
    {i : Nat} (helement : element = some i) {t : Selector} (ht : chain compounds = some t)
    (hjoint : ∀ d, (page.ancestors i)[compounds.length - 1]? = some d →
      (joint = .child ↔ page.parent? d = some container)) :
    (after s joint t).select page none = [i] := by
  induction h generalizing i t with
  | top => simp at helement
  | root _ => simp at ht
  | @found i' conditions hw hfound =>
    obtain rfl := Option.some.inj helement
    obtain rfl := Option.some.inj ht
    have hself : (page.ancestors i')[0]? = some i' := by
      rw [page.ancestors_eq]
      rfl
    -- below the container the conditions are found once
    have hunique : ∀ j, j ∈ page.below (some container) ∧
        (Selector.one conditions).holds page (scopeOf none) j = true ↔ j = i' := by
      intro j
      have hmem : j ∈ (Selector.one conditions).select page (some container) ↔ j = i' := by
        rw [hfound, List.mem_singleton]
      rw [← hmem, mem_select]
      exact and_congr_right fun _ => ⟨holds_one_scope hw _ _, holds_one_scope hw _ _⟩
    obtain ⟨hbelow, hholds⟩ := (hunique i').2 rfl
    refine select_eq_singleton_iff.2 ⟨?_, fun j hj => ?_⟩
    · exact (mem_select_within hselect).2 ⟨hbelow, hholds, (hjoint i' hself).1⟩
    · obtain ⟨hjbelow, hjholds, -⟩ := (mem_select_within hselect).1 hj
      exact (hunique j).1 ⟨hjbelow, hjholds⟩
  | @child i' outer conditions hbelow hw hdescribes _ hapart htrail ih =>
    obtain rfl := Option.some.inj helement
    rw [chain_append] at ht
    obtain rfl := Option.some.inj ht
    rw [after_behind]
    have hi := Page.lt_size_of_mem_below hbelow
    have hself : (page.ancestors i')[0]? = some i' := by
      rw [page.ancestors_eq]
      rfl
    obtain ⟨p, hparent⟩ : ∃ p, page.parent? i' = some p := by
      have hmem := mem_enclosing_of_mem_below hbelow
      refine Option.ne_none_iff_exists'.1 fun hnone => ?_
      rw [Page.enclosing, Page.ancestors_of_parent?_eq_none hnone] at hmem
      simp at hmem
    rw [hparent] at htrail ih
    cases houter : chain outer with
    | none =>
      -- the walk has come to the container, of which the element is a child
      obtain rfl := chain_eq_none_iff.1 houter
      have hcontainer : p = container := by
        by_contra hne
        exact htrail.ne_nil (fun h => hne (Option.some.inj h).symm) rfl
      subst hcontainer
      obtain rfl : joint = .child := (hjoint i' hself).2 hparent
      refine select_eq_singleton_iff.2 ⟨?_, fun j hj => ?_⟩
      · exact (mem_select_within hselect).2 ⟨hbelow, hdescribes.holds _, fun _ => hparent⟩
      · obtain ⟨hjbelow, hjholds, hjparent⟩ := (mem_select_within hselect).1 hj
        exact hapart _ j (Page.lt_size_of_mem_below hjbelow)
          ((hjparent rfl).trans hparent.symm) hjholds
    | some outerSelector =>
      -- the path of the parent finds the parent alone, and the last step tells its children apart
      have hlength : outer.length ≠ 0 := by
        intro hnil
        simp [List.length_eq_zero_iff.1 hnil] at houter
      have hp : (after s joint outerSelector).select page none = [p] := by
        refine ih rfl houter fun d hd => hjoint d ?_
        rw [Page.ancestors_of_parent?_eq_some hparent, List.length_append, List.length_singleton,
          Nat.add_sub_cancel]
        obtain ⟨n, hn⟩ := Nat.exists_eq_succ_of_ne_zero hlength
        simpa [hn] using hd
      refine select_eq_singleton_iff.2 ⟨?_, fun j hj => ?_⟩
      · refine (mem_select_within hp).2 ⟨?_, hdescribes.holds _, fun _ => hparent⟩
        refine mem_below_of_mem_enclosing hi ?_
        rw [enclosing_of_parent?_eq_some hparent]
        exact page.self_mem_ancestors p
      · obtain ⟨hjbelow, hjholds, hjparent⟩ := (mem_select_within hp).1 hj
        exact hapart _ j (Page.lt_size_of_mem_below hjbelow)
          ((hjparent rfl).trans hparent.symm) hjholds

/-- The container itself keeps its locator. -/
theorem synthesizeWithin_self (page : Page) (container : Nat) (subject : String) :
    synthesizeWithin page container container subject = .ok subject := by
  have hsteps : steps page (some container) (some container) false = .ok [] := by
    rw [steps, page.ancestors_eq, stepsAlong, if_pos rfl]
  rw [synthesizeWithin, synthesize, hsteps]
  rfl

/-- **Locators behind a container find their elements.** Where the container's locator, handed out
on this or another page, finds the container alone, every element of the container has a locator
behind it, and what that finds is the element alone. The container itself keeps its locator. -/
theorem find_synthesizeWithin {page other : Page} (hpage : page.Received) (hw : page.Writable)
    (hother : other.Received) (hotherw : other.Writable) {element root : Option Nat}
    (helement : ∀ j ∈ element, j < other.size) {useIds : Bool} {subject : String}
    (hsubject : synthesize other element root useIds = .ok subject)
    {container : Nat} (hfind : find page none subject = .ok [container])
    {i : Nat} (hi : i < page.size) (hwithin : page.isWithin i container = true) :
    ∃ locator, synthesizeWithin page i container subject = .ok locator
      ∧ find page none locator = .ok [i] ∧ (i = container → locator = subject) := by
  by_cases hself : i = container
  · subst hself
    exact ⟨subject, synthesizeWithin_self page i subject, hfind, fun _ => rfl⟩
  have hp := hpage.nameable hw
  obtain ⟨s, hs, rfl⟩ :=
    exists_writable_of_synthesize (hother.nameable hotherw) helement hsubject hfind
  have hselect : s.select page none = [container] :=
    Except.ok.inj ((find_text hs page none).symm.trans hfind)
  obtain ⟨compounds, hsteps, -, htrail⟩ := exists_synthesize hp (some container) false hi
    (by rintro _ ⟨⟩; exact Page.isWithin_iff.1 hwithin)
  have hne := htrail.ne_nil fun h => hself (Option.some.inj h).symm
  obtain ⟨t, ht⟩ := Option.ne_none_iff_exists'.1 (mt chain_eq_none_iff.1 hne)
  obtain ⟨first, more, rfl⟩ := List.exists_cons_of_ne_nil hne
  -- the sign that stands between the two locators
  obtain ⟨joint, hjoint⟩ : ∃ joint, joint
      = if startsAtChild page i container more.length then Path.Combinator.child
        else .descendant := ⟨_, rfl⟩
  have hchild : joint = .child ↔ startsAtChild page i container more.length = true := by
    rw [hjoint]
    by_cases h : startsAtChild page i container more.length = true <;> simp [h]
  refine ⟨(after s joint t).text, ?_, ?_, fun h => absurd h hself⟩
  · have hpath : path (texts (first :: more)) = t.text := by
      rw [path_texts, ht]
      rfl
    rw [text_after, ← hpath, hjoint]
    exact synthesizeWithin_eq htrail.writable_of_mem hsteps s.text
  · rw [find_text (hs.after joint (htrail.writable ht)), htrail.select_after hselect rfl ht]
    intro d hd
    rw [List.length_cons, Nat.add_sub_cancel] at hd
    rw [hchild, startsAtChild, hd]
    simp

/-- A page with two elements at its top, the second of which holds another one of its tag. -/
def nestedDivisions : Page :=
  Page.ofMarkup "<p></p><div id=a><div><i></i><i></i></div></div>"

theorem find_synthesizeWithin_nestedDivisions :
    ∃ locator, synthesizeWithin nestedDivisions 4 1 "#a" = .ok locator
      ∧ find nestedDivisions none locator = .ok [4] := by
  have hreceived : nestedDivisions.Received := .ofMarkup _
  have hw : nestedDivisions.Writable := by decide +kernel
  obtain ⟨locator, hlocator, hfind, -⟩ :=
    @find_synthesizeWithin nestedDivisions nestedDivisions hreceived hw hreceived hw (some 1) none
      (by decide +kernel) true "#a" (by decide +kernel) 1 (by decide +kernel) 4 (by decide +kernel)
      (by decide +kernel)
  exact ⟨locator, hlocator, hfind⟩

end Locator

end Retrace
