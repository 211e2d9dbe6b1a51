/-
Which events come through.

For one event a session has at most one element to locate: a table to be picked or marked, the
control for the next page, what was clicked or changed, or what is to be pinned (`Session.sought?`).
All other events come through whatever is on the page. And this one does unless something that is
looked up for its element is no selector (`Session.exists_handle_iff`): the locator of the open
loop's table, which tells where the walk outwards ends, and what the walk comes to.

Which texts are selectors is a matter of the engine, whichever it is.
-/
import Retrace.Proofs.Locator.Lookup
import Retrace.Proofs.Recording.Run

set_option autoImplicit false

namespace Retrace

/-! ## Elements that can be located -/

section

variable [Selector.Engine]

/-- All that is looked up for the element is accepted. Ids are used from the page on only. -/
def Page.Locatable (page : Page) (i : Nat) (root : Option Nat) : Prop :=
  ∀ text, Locator.LooksUp page root root.isNone (page.ancestors i) text →
    Locator.Accepted page root text

/-- From the page on, an element can be located just if it has a locator. -/
theorem Page.locatable_none_iff {page : Page} {i : Nat} :
    page.Locatable i none
      ↔ ∃ locator, Locator.synthesize page (some i) none = .ok locator :=
  Locator.exists_synthesize_iff.symm

/-- The container that an element is located from: the table with that locator if it is on the page
and the element lies in it, or else the page. -/
def Page.rootFor (page : Page) (subject : Option String) (i : Nat) : Option Nat :=
  match subject with
  | none => none
  | some subject =>
    match Locator.find page none subject with
    | .ok (table :: _) => if page.isWithin i table then some table else none
    | _ => none

/-- The element can be located from the table with that locator on, which is looked up before it. -/
structure Page.LocatableFrom (page : Page) (subject : Option String) (i : Nat) : Prop where
  subject_accepted : ∀ s ∈ subject, Locator.Accepted page none s
  locatable : page.Locatable i (page.rootFor subject i)

/-- Without a table there is no locator of a table to be looked up. -/
theorem Page.locatableFrom_none_iff {page : Page} {i : Nat} :
    page.LocatableFrom none i ↔ page.Locatable i none :=
  ⟨fun h => h.locatable, fun h => ⟨by simp, h⟩⟩

end

/-! ## Events -/

namespace Session

variable {s : Session} {event : Event} {i : Nat}

/-- The element that is located for an event, and the locator of the open loop's table if that
matters to where it is located from. -/
def sought? (s : Session) (event : Event) : Option (Nat × Option String) :=
  match event.target.filter fun i =>
      s.context.recording && !Interaction.isIgnored s.settings event.page i with
  | none => none
  | some i =>
    match event.type with
    | .keyDown | .keyUp => none
    | .mouseOver =>
      if (TableLoop.hover s.settings s.context event).highlightedTable.isNone
          && Interaction.isLabelable s.settings event.page i
          && s.context.labelMode && s.context.pinned.isNone then
        some (i, openSubject? s.context)
      else none
    | .click =>
      match TableLoop.wanted? s.settings s.context event i with
      | some j => some (j, none)
      | none =>
        if Interaction.classify s.settings event = some .click then
          some (i, openSubject? s.context)
        else none
    | .input | .change | .other _ =>
      if Interaction.classify s.settings event = some .input
          ∨ Interaction.classify s.settings event = some .select then
        some (i, openSubject? s.context)
      else none

theorem noteUrl_sought? (url : String) : (s.noteUrl url).sought? event = s.sought? event := by
  rw [noteUrl_eq]
  rfl

theorem exists_keyReleased (key : String) : ∃ a, (s.keyReleased key).result = .ok a := by
  unfold keyReleased
  split
  · exact ⟨_, rfl⟩
  · split
    · exact ⟨none, rfl⟩
    · exact ⟨none, rfl⟩

variable [Selector.Engine]

/-- Where a loop is open, its table is looked up first, and then the walk outwards begins. -/
theorem exists_locate_iff {page : Page} :
    (∃ locator, locate s.context page i = .ok locator)
      ↔ page.LocatableFrom (openSubject? s.context) i := by
  unfold locate
  cases openSubject? s.context with
  | none => exact Locator.exists_synthesize_iff.trans Page.locatableFrom_none_iff.symm
  | some subject =>
    dsimp only
    cases hfind : Locator.find page none subject with
    | error e =>
      refine iff_of_false (by simp [bind, Except.bind]) fun h => ?_
      obtain ⟨found, hfound⟩ := h.subject_accepted subject rfl
      simp [hfind] at hfound
    | ok found =>
      have hfrom : page.LocatableFrom (some subject) i
          ↔ page.Locatable i (page.rootFor (some subject) i) :=
        ⟨fun h => h.locatable, fun h => ⟨by rintro _ ⟨⟩; exact ⟨found, hfind⟩, h⟩⟩
      rw [hfrom, Page.rootFor, hfind]
      cases found with
      | nil => exact Locator.exists_synthesize_iff
      | cons table rest =>
        dsimp only [bind, Except.bind, List.head?_cons]
        split
        · exact Locator.exists_synthesizeWithin_iff
        · exact Locator.exists_synthesize_iff

/-- Recording fails only where locating does. -/
theorem exists_recordOn_iff {page : Page} {kind : Kind} {value : Option Json} {coalesce : Bool} :
    (∃ a, (s.recordOn page i kind value coalesce).result = .ok a)
      ↔ page.LocatableFrom (openSubject? s.context) i := by
  rw [← exists_locate_iff]
  unfold recordOn
  split
  · next e hlocate => simp [hlocate]
  · next locator hlocate =>
    split <;> simp [hlocate, Outcome.done]

/-- A change locates the control if its value is to be recorded. -/
theorem exists_changed_iff :
    (∃ a, (s.changed event i).result = .ok a)
      ↔ (Interaction.classify s.settings event = some .input
          ∨ Interaction.classify s.settings event = some .select →
        event.page.LocatableFrom (openSubject? s.context) i) := by
  unfold changed
  split
  · next h => simp [h, exists_recordOn_iff]
  · next h => simp [h, exists_recordOn_iff]
  · next hinput hselect =>
    exact iff_of_true ⟨none, rfl⟩ fun h => (h.elim hinput hselect).elim

/-- A click locates what the table loop is after, and else what is to be recorded. -/
theorem exists_clicked_iff [Selector.LawfulEngine] (htarget : event.target = some i) :
    (∃ a, (s.clicked event i).result = .ok a)
      ↔ match TableLoop.wanted? s.settings s.context event i with
        | some j => event.page.LocatableFrom none j
        | none => Interaction.classify s.settings event = some .click →
          event.page.LocatableFrom (openSubject? s.context) i := by
  unfold clicked
  rw [TableLoop.click_eq htarget]
  cases hwanted : TableLoop.wanted? s.settings s.context event i with
  | none =>
    have habsorb : (s.absorb { context := s.context, clock := s.clock }).1 = s := rfl
    simp only [habsorb]
    split
    · next hkind => simp [hkind, exists_recordOn_iff]
    · next hkind => exact iff_of_true ⟨none, rfl⟩ fun h => absurd h hkind
  | some j =>
    dsimp only
    rw [Page.locatableFrom_none_iff, Page.locatable_none_iff]
    cases hlocator : Locator.synthesize event.page (some j) none with
    | error e => simp [Functor.map, Except.map]
    | ok locator =>
      -- a locator is not empty, and so the click is used up
      have hne := Locator.ne_empty_of_synthesize hlocator
      obtain ⟨o, ho⟩ : ∃ o, TableLoop.taken s.context s.clock locator = (true, o) :=
        ⟨_, Prod.ext (TableLoop.taken_used hne) rfl⟩
      simp [Functor.map, Except.map, ho, Outcome.done]

/-- A movement of the pointer locates an element only to pin it. -/
theorem exists_hovered_iff
    (hi : event.target.filter (fun i => !Interaction.isIgnored s.settings event.page i) = some i) :
    (∃ a, (s.hovered event).result = .ok a)
      ↔ ((TableLoop.hover s.settings s.context event).highlightedTable = none →
        Interaction.isLabelable s.settings event.page i = true → s.context.labelMode = true →
        s.context.pinned = none → event.page.LocatableFrom (openSubject? s.context) i) := by
  rw [← exists_locate_iff]
  unfold hovered
  rw [hi]
  dsimp only
  -- what was shown before is of no account, so every condition is one on `s.context`
  split
  · next hlabel =>
    have hlabel : ((TableLoop.hover s.settings s.context event).highlightedTable.isNone
        && Interaction.isLabelable s.settings event.page i) = true := hlabel
    obtain ⟨htable, hlabelable⟩ := Bool.and_eq_true_iff.1 hlabel
    rw [Option.isNone_iff_eq_none] at htable
    split
    · next hpin =>
      have hpin : (s.context.labelMode && s.context.pinned.isNone) = true := hpin
      obtain ⟨hmode, hpinned⟩ := Bool.and_eq_true_iff.1 hpin
      rw [Option.isNone_iff_eq_none] at hpinned
      split
      · next locator hlocate =>
        have hlocate : locate s.context event.page i = .ok locator := hlocate
        exact iff_of_true ⟨none, rfl⟩ fun _ _ _ _ => ⟨locator, hlocate⟩
      · next e hlocate =>
        have hlocate : locate s.context event.page i = .error e := hlocate
        simp [htable, hlabelable, hmode, hpinned, hlocate]
    · next hpin =>
      refine iff_of_true ⟨none, rfl⟩ fun _ _ hmode hpinned => absurd ?_ hpin
      show (s.context.labelMode && s.context.pinned.isNone) = true
      simp [hmode, hpinned]
  · next hlabel =>
    refine iff_of_true ⟨none, rfl⟩ fun htable hlabelable => absurd ?_ hlabel
    show ((TableLoop.hover s.settings s.context event).highlightedTable.isNone
        && Interaction.isLabelable s.settings event.page i) = true
    simp [htable, hlabelable]

theorem forall_of_ite_iff {p : Prop} [Decidable p] {subject : Option String} :
    (∀ j subject', (if p then some (i, subject) else none) = some (j, subject') →
      event.page.LocatableFrom subject' j) ↔ (p → event.page.LocatableFrom subject i) := by
  by_cases hp : p
  · simp [hp]
  · simp [hp]

/-- An event that hits nothing, or the overlay, comes through. -/
theorem exists_handle_of_missed
    (hi : event.target.filter (fun i => !Interaction.isIgnored s.settings event.page i) = none) :
    ∃ a, (s.handle event).result = .ok a := by
  rw [← s.noteUrl_settings event.url] at hi
  unfold handle
  split
  · exact ⟨none, rfl⟩
  · dsimp only
    generalize s.noteUrl event.url = s at hi ⊢
    split
    · split <;> exact ⟨none, rfl⟩
    · exact exists_keyReleased _
    · exact ⟨none, by rw [hovered, hi]; rfl⟩
    all_goals exact ⟨none, by rw [hi]; rfl⟩

/-- **Which events come through.** An event is handled without failing if and only if the element
that is located for it, if there is one, can be located. -/
theorem exists_handle_iff [Selector.LawfulEngine] :
    (∃ a, (s.handle event).result = .ok a)
      ↔ ∀ i subject, s.sought? event = some (i, subject) →
        event.page.LocatableFrom subject i := by
  cases hi : event.target.filter fun i => !Interaction.isIgnored s.settings event.page i with
  | none =>
    refine iff_of_true (exists_handle_of_missed hi) fun i subject hsought => ?_
    cases hrecording : s.context.recording <;> simp [sought?, hrecording, hi] at hsought
  | some i =>
    have htarget := (Option.filter_eq_some_iff.1 hi).1
    unfold handle
    split
    · next hrecording =>
      refine iff_of_true ⟨none, rfl⟩ fun i subject hsought => ?_
      have hnone : s.context.recording = false := by simpa using hrecording
      simp [sought?, hnone] at hsought
    · next hrecording =>
      have hrecording : (s.noteUrl event.url).context.recording = true := by simpa using hrecording
      rw [← s.noteUrl_settings event.url] at hi
      rw [← noteUrl_sought? event.url]
      dsimp only
      -- the address matters to nothing below, so from here on it is noted
      generalize s.noteUrl event.url = s at hrecording hi ⊢
      unfold sought?
      simp only [hrecording, Bool.true_and, hi]
      cases htype : event.type with
      | keyDown =>
        refine iff_of_true ?_ (by simp)
        dsimp only
        split <;> exact ⟨none, rfl⟩
      | keyUp => exact iff_of_true (exists_keyReleased _) (by simp)
      | mouseOver =>
        dsimp only
        rw [exists_hovered_iff hi, forall_of_ite_iff]
        simp only [Bool.and_eq_true, Option.isNone_iff_eq_none, and_imp]
      | click =>
        dsimp only
        rw [if_pos rfl, exists_clicked_iff htarget]
        cases TableLoop.wanted? s.settings s.context event i with
        | none => exact forall_of_ite_iff.symm
        | some j => simp
      | input | change | other _ =>
        dsimp only
        rw [if_neg (by simp), exists_changed_iff, forall_of_ite_iff]

end Session

end Retrace
