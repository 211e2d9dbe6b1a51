/-
What an event that fails leaves behind.

An event fails if an element is to be located and something that is looked up on the way is no
selector. Wherever a session locates an element, it does so before it changes anything that it
keeps. So nothing is left of a failed event but an address and what is shown to the user.

One change does come before that. A click that is not used up may have taken the mark of a table
away, and it is then recorded like any other, which can fail. But the mark is only taken away for a
table with an empty locator, and there is none on a page that was received, where every element has
a tag (`Clicked.eq_of_unused`).
-/
import Retrace.Proofs.Locator.Container
import Retrace.Proofs.Locator.Nonempty
import Retrace.Proofs.Recording.Run

set_option autoImplicit false

namespace Retrace

/-! ## Clicks that are not used up -/

namespace TableLoop

variable {context : Context} {clock : Clock} {event : Event}

/-- On a page that was received, every locator says something. -/
theorem AroundTarget.ne_empty (hpage : event.page.Received)
    (htarget : ∀ i ∈ event.target, i < event.page.size) {locator : String}
    (h : AroundTarget event locator) : locator ≠ "" := by
  obtain ⟨i, hi, table, htable, hlocator⟩ := h
  have hsize := Page.lt_size_of_mem_ancestors (htarget i hi) htable
  exact Locator.synthesize_ne_empty (hpage.tag_ne_empty hsize) hlocator

/-- If every locator says something, a click that is not used up changes nothing. -/
theorem Clicked.eq_of_unused {o : Outcome} (h : Clicked context clock event false o)
    (hlocated : ∀ locator, AroundTarget event locator → locator ≠ "") :
    o = { context, clock } := by
  generalize hused : false = used at h
  cases h with
  | unused => rfl
  | marked marked _ _ hmarked =>
    obtain rfl : marked = none := by simpa using hused.symm
    exact absurd rfl (hlocated _ hmarked)
  | picked _ _ _ => exact absurd hused (by decide)
  | paginated _ _ _ => exact absurd hused (by decide)

end TableLoop

/-! ## What fails -/

namespace Session

variable {s : Session} {event : Event} {i : Nat} {e : Selector.SyntaxError}

/-- The session with other highlights. -/
def showing (s : Session) (table element : Option Nat) : Session :=
  { s with context := { s.context with
      highlightedTable := table, highlightedElement := element } }

/-- What is shown may be what was shown before. -/
theorem showing_self (s : Session) :
    s.showing s.context.highlightedTable s.context.highlightedElement = s := rfl

/-- Recording locates the element before anything else. -/
theorem recordOn_of_error {page : Page} {kind : Kind} {value : Option Json} {coalesce : Bool}
    (h : (s.recordOn page i kind value coalesce).result = .error e) :
    s.recordOn page i kind value coalesce = { session := s, result := .error e } := by
  unfold recordOn at h ⊢
  split at h
  · rw [Except.error.inj h]
  · split at h <;> simp [Outcome.done] at h

/-- A change fails only by what is recorded, so nothing is left behind. -/
theorem changed_of_error (h : (s.changed event i).result = .error e) :
    s.changed event i = { session := s, result := .error e } := by
  unfold changed at h ⊢
  split at h
  · exact recordOn_of_error h
  · exact recordOn_of_error h
  · simp [Outcome.done] at h

/-- A click fails in the table loop or when it is recorded, and nothing is left behind either
way. -/
theorem clicked_of_error
    (hlocated : ∀ locator, TableLoop.AroundTarget event locator → locator ≠ "")
    (h : (s.clicked event i).result = .error e) :
    s.clicked event i = { session := s, result := .error e } := by
  unfold clicked at h ⊢
  split at h
  · rw [Except.error.inj h]
  · simp [Outcome.done] at h
  · next o hclick =>
    -- the click has changed nothing before it is recorded
    obtain rfl := (TableLoop.clicked_of_click _ _ hclick).eq_of_unused hlocated
    have habsorb : (s.absorb { context := s.context, clock := s.clock }).1 = s := rfl
    simp only [habsorb] at h ⊢
    split at h
    · next hkind =>
      rw [if_pos hkind]
      exact recordOn_of_error h
    · simp [Outcome.done] at h

/-- A movement of the pointer may have changed what is shown before it fails. -/
theorem hovered_of_error (h : (s.hovered event).result = .error e) :
    ∃ table element,
      s.hovered event = { session := s.showing table element, result := .error e } := by
  revert h
  unfold hovered
  -- only a pin takes a locator, and nothing but the highlights has changed by then
  split
  · simp [Outcome.done]
  · dsimp only
    split
    · split
      · split
        · simp [Outcome.done]
        · intro h
          rw [Except.error.inj h]
          exact ⟨_, _, rfl⟩
      · simp [Outcome.done]
    · simp [Outcome.done]

theorem keyReleased_ne_error (key : String) : (s.keyReleased key).result ≠ .error e := by
  unfold keyReleased
  split
  · simp [Outcome.done]
  · split <;> simp [Outcome.done]

/-- An event that fails leaves the session as it was, with the address noted and what is shown
now. -/
theorem exists_showing_of_handle_error (hpage : event.page.Received)
    (htarget : ∀ i ∈ event.target, i < event.page.size)
    (h : (s.handle event).result = .error e) :
    ∃ table element,
      s.handle event
          = { session := (s.noteUrl event.url).showing table element, result := .error e }
        ∧ (event.type ≠ .mouseOver →
          table = s.context.highlightedTable ∧ element = s.context.highlightedElement) := by
  have hlocated := fun locator => @TableLoop.AroundTarget.ne_empty event hpage htarget locator
  have hshown : (s.noteUrl event.url).context.highlightedTable = s.context.highlightedTable
      ∧ (s.noteUrl event.url).context.highlightedElement = s.context.highlightedElement := by
    rw [noteUrl_eq]
    exact ⟨rfl, rfl⟩
  revert h
  unfold handle
  split
  · simp [Outcome.done]
  · dsimp only
    split
    · split <;> simp [Outcome.done]
    · exact fun h => absurd h (keyReleased_ne_error _)
    · next hmove =>
      intro h
      obtain ⟨table, element, heq⟩ := hovered_of_error h
      exact ⟨table, element, heq, fun hne => absurd hmove hne⟩
    -- what is left are clicks and changes
    all_goals
      split
      · simp [Outcome.done]
      · intro h
        refine ⟨_, _, ?_, fun _ => hshown⟩
        rw [showing_self]
        by_cases hclick : event.type = .click
        · rw [if_pos hclick] at h ⊢
          exact clicked_of_error hlocated h
        · rw [if_neg hclick] at h ⊢
          exact changed_of_error h

/-- **An event that fails changes nothing that is recorded.** The address may be noted, and for a
movement of the pointer the highlights may change. Everything else is as before: the log and the
writes that are pending, the phase and the table of the loop, the modifier and the mark, the label
mode and the pin, and the clock, of which no reading was taken. -/
theorem handle_of_error (hpage : event.page.Received)
    (htarget : ∀ i ∈ event.target, i < event.page.size)
    (h : (s.handle event).result = .error e) :
    ∃ table element,
      s.handle event = {
        session := { s with context := { s.context with
          baseUrl := if event.url ≠ "" && !s.context.baseUrl.truthy then .str event.url
            else s.context.baseUrl
          highlightedTable := table, highlightedElement := element } }
        result := .error e }
      ∧ (event.type ≠ .mouseOver →
        table = s.context.highlightedTable ∧ element = s.context.highlightedElement) := by
  obtain ⟨table, element, heq, hshown⟩ := exists_showing_of_handle_error hpage htarget h
  refine ⟨table, element, ?_, hshown⟩
  rw [heq, noteUrl_eq]
  rfl

/-- The pointer comes to a name in an element the tag of which reads as a pseudo-class. -/
def colonHover : Event :=
  { type := .mouseOver, page := (Page.empty.push "o:p" [] none).pushText (some 0) "Name"
    target := some 0, url := "page" }

theorem ofPayload_colonHover :
    Event.ofPayload (.obj [("type", .str "mouseover"), ("url", .str "page"),
      ("html", .str "<o:p data-recorder-target>Name</o:p>")]) = .ok colonHover := by
  rfl

/-- A session in which the label mode has been turned on. -/
def labellingSession : Session :=
  (fresh {} (Clock.ofList []) none true).playAll
    [.start (.str ""), .event { type := .keyUp, key := "Control" }]

theorem handle_of_error_colonHover :
    ∃ e, (labellingSession.handle colonHover).result = .error e
      ∧ (labellingSession.handle colonHover).session = { labellingSession with
          context := { labellingSession.context with
            baseUrl := .str "page", highlightedElement := some 0 } } := by
  obtain ⟨e, hresult⟩ := isOk_eq_false_iff.1
    (show (labellingSession.handle colonHover).result.isOk = false by decide +kernel)
  obtain ⟨table, element, heq, -⟩ :=
    handle_of_error (.ofPayload ofPayload_colonHover) (by decide) hresult
  have htable : (labellingSession.handle colonHover).session.context.highlightedTable
      = none := by decide +kernel
  have helement : (labellingSession.handle colonHover).session.context.highlightedElement
      = some 0 := by decide +kernel
  rw [heq] at htable helement ⊢
  obtain rfl : table = none := htable
  obtain rfl : element = some 0 := helement
  exact ⟨e, rfl, rfl⟩

end Session

end Retrace
