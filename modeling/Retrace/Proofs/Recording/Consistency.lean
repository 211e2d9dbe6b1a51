/-
What always holds of the context of a session.

The fields of the context belong together: a table is remembered while a loop is open and at no
other time, a mark needs the modifier, and a pin needs the label mode. Each field is written by
several gestures, and a gesture may clear some of the fields and leave the others. So every
gesture is shown to keep all of the context in order (`Context.Consistent`), and then every move is.

A pin is under a locator then, so a label is made under one, as every other action is.
-/
import Retrace.Proofs.Recording.Growth

set_option autoImplicit false

namespace Retrace

/-- The fields of a context fit together. -/
structure Context.Consistent (context : Context) : Prop where
  /-- There is a table just while a loop is open. -/
  subject : context.subject.isSome = context.phase.loopOpen
  located : ∀ locator ∈ context.subject, locator ≠ ""
  marked : context.markedTable.isSome = true → context.modifierHeld = true
  pinned : ∀ p ∈ context.pinned, context.labelMode = true ∧ p.locator ≠ ""
  highlighted : context.highlightedTable.isSome = true →
    context.modifierHeld = true ∨ context.phase = .selecting
  /-- A table and an element are not shown at once. -/
  exclusive : context.highlightedTable = none ∨ context.highlightedElement = none

/-! ## Gestures of the table loop -/

namespace TableLoop

variable {context : Context} {clock : Clock}

/-- A loop that begins has its table as the subject. -/
theorem consistent_openLoop (h : context.Consistent) (subject : String) :
    (openLoop context clock subject).context.Consistent := by
  unfold openLoop
  split
  · exact h
  · next hne =>
    exact ⟨rfl, by simpa [setBound] using hne, h.marked, h.pinned, by simp [setBound], .inl rfl⟩

theorem consistent_toggle (h : context.Consistent) :
    (toggle context clock).context.Consistent := by
  have hsubject := h.subject
  have hhighlighted := h.highlighted
  unfold toggle
  split
  · next hphase =>
    rw [hphase] at hsubject
    exact ⟨hsubject, h.located, h.marked, h.pinned, fun _ => .inr rfl, h.exclusive⟩
  · next hphase =>
    rw [hphase] at hsubject
    exact ⟨hsubject, h.located, h.marked, h.pinned, by simp, .inl rfl⟩
  all_goals
    next hphase =>
    -- what is shown in an open loop is shown because the modifier is held
    have hheld : context.highlightedTable.isSome = true → context.modifierHeld = true :=
      fun hsome => (hhighlighted hsome).resolve_right (by simp [hphase])
    have hclosed : ({ context with phase := .inactive, subject := none } : Context).Consistent :=
      ⟨rfl, by simp, h.marked, h.pinned, fun hsome => .inl (hheld hsome), h.exclusive⟩
    dsimp only
    split
    · exact hclosed
    · exact hclosed

theorem consistent_skipPagination (h : context.Consistent) :
    (skipPagination context).Consistent := by
  unfold skipPagination
  split
  · next hphase =>
    have hsubject := h.subject
    have hhighlighted := h.highlighted
    rw [hphase] at hsubject hhighlighted
    exact ⟨hsubject, h.located, h.marked, h.pinned, by simpa using hhighlighted, h.exclusive⟩
  · exact h

theorem consistent_holdModifier (h : context.Consistent) : (holdModifier context).Consistent :=
  ⟨h.subject, h.located, fun _ => rfl, h.pinned, fun _ => .inl rfl, h.exclusive⟩

/-- What was marked is dropped together with the modifier. -/
theorem consistent_releaseModifier (h : context.Consistent) :
    (releaseModifier context clock).1.context.Consistent := by
  have hreleased : ({ context with
      modifierHeld := false, highlightedTable := none, markedTable := none } :
      Context).Consistent :=
    ⟨h.subject, h.located, by simp, h.pinned, by simp, .inl rfl⟩
  unfold releaseModifier
  split
  · exact hreleased
  · next subject _ =>
    split
    · exact consistent_openLoop hreleased subject
    · exact hreleased

/-- A click goes from phase to phase together with the subject. -/
theorem Clicked.consistent_context {event : Event} {used : Bool} {o : Outcome}
    (h : Clicked context clock event used o) (hbefore : context.Consistent) :
    o.context.Consistent := by
  have hsubject := hbefore.subject
  have hhighlighted := hbefore.highlighted
  cases h with
  | unused => exact hbefore
  | marked marked _ hheld _ =>
    exact ⟨hsubject, hbefore.located, fun _ => hheld, hbefore.pinned, hhighlighted,
      hbefore.exclusive⟩
  | picked subject _ _ => exact consistent_openLoop hbefore subject
  | paginated locator hphase _ =>
    rw [hphase] at hsubject hhighlighted
    exact ⟨hsubject, hbefore.located, hbefore.marked, hbefore.pinned,
      by simpa [setBound] using hhighlighted, hbefore.exclusive⟩

/-- A table is shown in the place of an element. -/
theorem consistent_hover (h : context.Consistent) (hshown : context.highlightedElement = none)
    (settings : Settings) (event : Event) : (hover settings context event).Consistent := by
  refine ⟨h.subject, h.located, h.marked, h.pinned, ?_, .inr hshown⟩
  intro hsome
  by_cases hwanted : (context.modifierHeld || context.phase = .selecting) = true
  · simpa [hover] using hwanted
  · simp [hover, hwanted] at hsome

end TableLoop

/-! ## Events -/

/-- What the event hit has a tag. -/
def Event.Tagged (e : Event) : Prop := ∀ i ∈ e.target, e.page.tag i ≠ ""

theorem Event.tagged_of_ofPayload {payload : Json} {e : Event} (h : ofPayload payload = .ok e) :
    e.Tagged :=
  fun _ => tag_ne_empty_of_ofPayload h

namespace Session

variable {s : Session}

/-- Recording an action leaves the context as it is. -/
theorem context_record (s : Session) (a : Action Json) (coalesce : Bool) :
    (s.record a coalesce).1.context = s.context :=
  (persist_frame ..).1

/-- Recording leaves the context alone. -/
theorem context_recordOn (s : Session) (page : Page) (i : Nat) (kind : Kind)
    (value : Option Json) (coalesce : Bool) :
    (s.recordOn page i kind value coalesce).session.context = s.context := by
  unfold recordOn
  split
  · rfl
  · split
    · rfl
    · exact context_record ..

theorem consistent_keyReleased (h : s.context.Consistent) (key : String) :
    (s.keyReleased key).session.context.Consistent := by
  unfold keyReleased
  split
  · have hreleased := @TableLoop.consistent_releaseModifier s.context s.clock h
    rw [← context_absorb s] at hreleased
    exact hreleased
  · split
    · dsimp only [Outcome.done]
      split
      · exact ⟨h.subject, h.located, h.marked, by simp, h.highlighted, h.exclusive⟩
      · exact ⟨h.subject, h.located, h.marked, fun p hp => ⟨rfl, (h.pinned p hp).2⟩,
          h.highlighted, h.exclusive⟩
    · exact h

/-- Only label mode pins, and what is pinned has a locator. -/
theorem consistent_hovered (h : s.context.Consistent) {event : Event} (hevent : event.Tagged) :
    (s.hovered event).session.context.Consistent := by
  have hcleared : ({ s.context with highlightedElement := none } : Context).Consistent :=
    ⟨h.subject, h.located, h.marked, h.pinned, h.highlighted, .inr rfl⟩
  unfold hovered
  dsimp only
  split
  · exact ⟨h.subject, h.located, h.marked, h.pinned, by simp [Outcome.done], .inl rfl⟩
  · next i htarget =>
    have htag := hevent i (Option.filter_eq_some_iff.1 htarget).1
    have hhover := TableLoop.consistent_hover hcleared rfl s.settings event
    generalize TableLoop.hover s.settings _ event = context at hhover ⊢
    split
    · next hfree =>
      have hnone : context.highlightedTable = none := by
        simpa using (Bool.and_eq_true_iff.1 hfree).1
      have hshown : ({ context with highlightedElement := some i } : Context).Consistent :=
        ⟨hhover.subject, hhover.located, hhover.marked, hhover.pinned, hhover.highlighted,
          .inl hnone⟩
      split
      · next hpin =>
        split
        · next locator hlocate =>
          have hmode : context.labelMode = true := (Bool.and_eq_true_iff.1 hpin).1
          refine ⟨hshown.subject, hshown.located, hshown.marked, ?_, hshown.highlighted,
            hshown.exclusive⟩
          rintro _ ⟨⟩
          exact ⟨hmode, locate_ne_empty htag hlocate⟩
        · exact hshown
      · exact hshown
    · exact hhover

/-- A click changes the context through the table loop only. -/
theorem consistent_clicked (h : s.context.Consistent) (event : Event) (i : Nat) :
    (s.clicked event i).session.context.Consistent := by
  unfold clicked
  split
  · exact h
  · next o hclick =>
    have hclicked := (TableLoop.clicked_of_click _ _ hclick).consistent_context h
    rw [← context_absorb s] at hclicked
    exact hclicked
  · next o hclick =>
    have hclicked := (TableLoop.clicked_of_click _ _ hclick).consistent_context h
    rw [← context_absorb s] at hclicked
    dsimp only
    split
    · rw [context_recordOn]
      exact hclicked
    · exact hclicked

theorem context_changed (s : Session) (event : Event) (i : Nat) :
    (s.changed event i).session.context = s.context := by
  unfold changed
  split
  · exact context_recordOn ..
  · exact context_recordOn ..
  · rfl

/-- **One event.** The invariant of the context is kept. -/
theorem consistent_handle (h : s.context.Consistent) {event : Event} (hevent : event.Tagged) :
    (s.handle event).session.context.Consistent := by
  have hnoted : (s.noteUrl event.url).context.Consistent := by
    rw [noteUrl_eq]
    exact ⟨h.subject, h.located, h.marked, h.pinned, h.highlighted, h.exclusive⟩
  unfold handle
  split
  · exact h
  · dsimp only
    split
    · split
      · exact TableLoop.consistent_holdModifier hnoted
      · exact hnoted
    · exact consistent_keyReleased hnoted event.key
    · exact consistent_hovered hnoted hevent
    all_goals
      split
      · exact hnoted
      · by_cases hclick : event.type = .click
        · rw [if_pos hclick]
          exact consistent_clicked hnoted event _
        · rw [if_neg hclick, context_changed]
          exact hnoted

/-! ## Moves -/

theorem consistent_toggle (h : s.context.Consistent) : s.toggle.1.context.Consistent := by
  unfold toggle
  split
  · have htoggled := @TableLoop.consistent_toggle s.context s.clock h
    rw [← context_absorb s] at htoggled
    exact htoggled
  · exact h

theorem consistent_skipPagination (h : s.context.Consistent) :
    s.skipPagination.context.Consistent := by
  unfold skipPagination
  split
  · exact TableLoop.consistent_skipPagination h
  · exact h

/-- A label takes the pin with it. -/
theorem consistent_assignLabel (h : s.context.Consistent) (name : String) :
    (s.assignLabel name).1.context.Consistent := by
  unfold assignLabel
  dsimp only
  split
  · split
    · have hrecorded := context_record { s with clock := s.clock.next }
      dsimp only
      rw [hrecorded]
      exact ⟨h.subject, h.located, h.marked, by simp, h.highlighted, h.exclusive⟩
    · exact h
  · exact h

/-- A recording starts with nothing open, marked or pinned. -/
theorem consistent_start (s : Session) (baseUrl : Json) :
    (s.start baseUrl).session.context.Consistent := by
  have hblank (recording : Bool) : ({ baseUrl, recording } : Context).Consistent :=
    ⟨rfl, by simp, by simp, by simp, by simp, .inl rfl⟩
  have hcontext := (updateStore_frame
    { s.flush.1 with context := { baseUrl }, log := s.flush.1.log.clear (.str "") }
    [Store.reset, fun store => store.setRecording (.bool true)]).1
  unfold start
  dsimp only
  split
  · rw [hcontext]
    exact hblank true
  · rw [hcontext]
    exact hblank false

/-- The end of a recording leaves the phase as it is. -/
theorem consistent_stop (h : s.context.Consistent) : s.stop.session.context.Consistent := by
  have hcontext := (flush_frame { s with context := { s.context with recording := false } }).1
  unfold stop
  dsimp only
  rw [(updateStore_frame _ _).1, hcontext]
  exact ⟨h.subject, h.located, h.marked, h.pinned, h.highlighted, h.exclusive⟩

end Session

/-- A move whose event, if it has one, hit something with a tag. -/
def Move.Tagged : Move → Prop
  | .event e => e.Tagged
  | .start _ | .stop | .flush | .toggle | .skipPagination | .label _ => True

namespace Session

variable {s : Session}

/-- **One move.** It keeps the context in order. -/
theorem consistent_play (h : s.context.Consistent) {m : Move} (hm : m.Tagged) :
    (s.play m).context.Consistent := by
  cases m with
  | start baseUrl => exact consistent_start s baseUrl
  | stop => exact consistent_stop h
  | flush =>
    rw [play, s.flush_frame.1]
    exact h
  | event e => exact consistent_handle h hm
  | toggle => exact consistent_toggle h
  | skipPagination => exact consistent_skipPagination h
  | label name => exact consistent_assignLabel h name

/-- **A session is always in order.** Whatever happened to it before, the fields of its context fit
together, and whatever happens next, the log takes the action that is made of it. -/
theorem Reachable.consistent (h : s.Reachable Move.Tagged) :
    s.context.Consistent ∧ ∀ m, LogStep s (s.play m) := by
  obtain ⟨settings, clock, store, hasBackground, moves, hmoves, rfl⟩ := h
  have hfresh : (fresh settings clock store hasBackground).context.Consistent :=
    ⟨rfl, by simp [fresh], by simp [fresh], by simp [fresh], by simp [fresh], .inl rfl⟩
  have hconsistent := playAll_induction (P := fun s => s.context.Consistent) hmoves hfresh
    fun _ _ hm h => consistent_play h hm
  exact ⟨hconsistent, logStep_play fun p hp => (hconsistent.pinned p hp).2⟩

/-- A page that says its name. -/
def titledPage : Page := (Page.empty.push "b" [] none).pushText (some 0) "Home"

/-- The label mode is turned on, and then the pointer comes to the name. -/
def pinning : List Move :=
  [.start (.str ""), .event { type := .keyUp, key := "Control" },
    .event { type := .mouseOver, page := titledPage, target := some 0 }]

/-- A session in which that has happened. -/
def pinnedSession : Session := (fresh {} (Clock.ofList []) none true).playAll pinning

theorem Reachable.consistent_pinnedSession :
    pinnedSession.context.pinned = some ⟨"b", "Home"⟩
      ∧ pinnedSession.context.Consistent
      ∧ LogStep pinnedSession (pinnedSession.play (.label "title")) := by
  have hreachable : pinnedSession.Reachable Move.Tagged := by
    refine ⟨_, _, _, _, pinning, ?_, rfl⟩
    simp only [pinning, List.forall_mem_cons]
    refine ⟨trivial, by simp [Move.Tagged, Event.Tagged], ?_, by simp⟩
    rintro _ ⟨⟩
    decide
  obtain ⟨hconsistent, hstep⟩ := Reachable.consistent hreachable
  exact ⟨by decide +kernel, hconsistent, hstep (.label "title")⟩

end Session

end Retrace
