/-
The log of a session only grows, but for edits in place.

Of the kinds of actions, a session records edits, and nothing else, in place of the edits before
them: the values of form controls. Clicks, labels and the bounds that the table loop hands out are
recorded behind what there is. So with each turn but a start the log grows (`grown_take`), and no
two neighbours in it are edits of one element, however elements are located while loops are opened
and closed in between (`merged_takeAll`).

An edit that is heard twice is located and valued the same way both times, since neither depends on
the log. So it replaces itself (`sameButTime_handle_handle`).
-/
import Retrace.Proofs.Action.Edits
import Retrace.Proofs.Recording.Consistency
import Retrace.Proofs.Recording.Convergence

set_option autoImplicit false

namespace Retrace

open Log

/-! ## Bounds that a gesture sets -/

namespace TableLoop

variable (context : Context) (clock : Clock)

theorem isBoundary_of_mem_openLoop {subject : String} {a : Action Json}
    (h : a ∈ (openLoop context clock subject).bound) : a.kind.isBoundary = true := by
  unfold openLoop at h
  split at h
  · simp at h
  · obtain rfl := Option.some.inj h
    rfl

theorem isBoundary_of_mem_toggle {a : Action Json} (h : a ∈ (toggle context clock).bound) :
    a.kind.isBoundary = true := by
  unfold toggle at h
  split at h
  · simp at h
  · simp at h
  all_goals
    dsimp only at h
    split at h
    · obtain rfl := Option.some.inj h
      rfl
    · simp at h

theorem isBoundary_of_mem_releaseModifier {a : Action Json}
    (h : a ∈ (releaseModifier context clock).1.bound) : a.kind.isBoundary = true := by
  unfold releaseModifier at h
  split at h
  · simp at h
  · split at h
    · exact isBoundary_of_mem_openLoop _ _ h
    · simp at h

/-- What a click hands out is a bound. -/
theorem Clicked.isBoundary {context : Context} {clock : Clock} {event : Event} {used : Bool}
    {o : Outcome} (hclicked : Clicked context clock event used o) {a : Action Json}
    (h : a ∈ o.bound) : a.kind.isBoundary = true := by
  cases hclicked with
  | unused => simp at h
  | marked => simp at h
  | picked subject => exact isBoundary_of_mem_openLoop _ _ h
  | paginated =>
    obtain rfl := Option.some.inj h
    rfl

end TableLoop

namespace Session

variable {s : Session}

/-! ## Growth, event by event -/

/-- Recording pushes the action to the log, with the address in front if it is the first one. -/
theorem log_record (s : Session) (a : Action Json) (coalesce : Bool) :
    (s.record a coalesce).1.log = s.logBefore.push a coalesce :=
  (persist_frame ..).2

/-- An edit may take the place of the last entry, and all else is added behind it. -/
theorem grown_record (s : Session) {a : Action Json} {coalesce : Bool}
    (h : coalesce = a.kind.isEdit) :
    Grown s.log.actions (s.record a coalesce).1.log.actions := by
  rw [log_record, ← logBefore_actions]
  exact grown_push _ h

/-- A bound is never an edit. -/
theorem grown_absorb (s : Session) {o : TableLoop.Outcome}
    (ho : ∀ a ∈ o.bound, a.kind.isBoundary = true) :
    Grown s.log.actions (s.absorb o).1.log.actions := by
  unfold absorb
  cases hbound : o.bound with
  | none => exact .same
  | some a =>
    have hedit : false = a.kind.isEdit := (Kind.isEdit_of_isBoundary (ho a hbound)).symm
    exact grown_record { s with context := o.context, clock := o.clock } hedit

/-- An element without a locator leaves the log as it is. -/
theorem grown_recordOn (s : Session) (page : Page) (i : Nat) {kind : Kind} (value : Option Json)
    {coalesce : Bool} (h : coalesce = kind.isEdit) :
    Grown s.log.actions (s.recordOn page i kind value coalesce).session.log.actions := by
  unfold recordOn
  split
  · exact .same
  · split
    · exact .same
    · exact grown_record { s with clock := s.clock.next } h

theorem grown_keyReleased (s : Session) (key : String) :
    Grown s.log.actions (s.keyReleased key).session.log.actions := by
  unfold keyReleased
  split
  · exact grown_absorb s fun _ => TableLoop.isBoundary_of_mem_releaseModifier _ _
  · split <;> exact .same

/-- A movement of the pointer records nothing. -/
theorem grown_hovered (s : Session) (event : Event) :
    Grown s.log.actions (s.hovered event).session.log.actions := by
  unfold hovered
  dsimp only
  split
  · exact .same
  · split
    · split
      · split <;> exact .same
      · exact .same
    · exact .same

/-- A click makes a bound or an action of its own, and not both. -/
theorem grown_clicked (s : Session) (event : Event) (i : Nat) :
    Grown s.log.actions (s.clicked event i).session.log.actions := by
  unfold clicked
  split
  · exact .same
  · next o hclick =>
    exact grown_absorb s fun _ => (TableLoop.clicked_of_click _ _ hclick).isBoundary
  · next o hclick =>
    -- a click that is not used up has set no bound
    obtain ⟨context, clock, bound⟩ := o
    obtain rfl : bound = none := (TableLoop.clicked_of_click _ _ hclick).bound_eq_none
    dsimp only [absorb]
    split
    · exact grown_recordOn { s with context, clock } event.page i none rfl
    · exact .same

/-- A change is recorded as an edit, in place of the one before it. -/
theorem grown_changed (s : Session) (event : Event) (i : Nat) :
    Grown s.log.actions (s.changed event i).session.log.actions := by
  unfold changed
  split
  · exact grown_recordOn s event.page i _ rfl
  · exact grown_recordOn s event.page i _ rfl
  · exact .same

/-- **One event.** The log grows by at most one entry. -/
theorem grown_handle (s : Session) (event : Event) :
    Grown s.log.actions (s.handle event).session.log.actions := by
  unfold handle
  split
  · exact .same
  · rw [← s.noteUrl_log event.url]
    dsimp only
    split
    · split <;> exact .same
    · exact grown_keyReleased ..
    · exact grown_hovered ..
    all_goals
      split
      · exact .same
      · by_cases hclick : event.type = .click
        · rw [if_pos hclick]
          exact grown_clicked ..
        · rw [if_neg hclick]
          exact grown_changed ..

/-! ## Growth, turn by turn -/

theorem grown_toggle (s : Session) : Grown s.log.actions s.toggle.1.log.actions := by
  unfold toggle
  split
  · exact grown_absorb s fun _ => TableLoop.isBoundary_of_mem_toggle _ _
  · exact .same

theorem grown_assignLabel (s : Session) (name : String) :
    Grown s.log.actions (s.assignLabel name).1.log.actions := by
  unfold assignLabel
  dsimp only
  split
  · split
    · exact grown_record { s with clock := s.clock.next } rfl
    · exact .same
  · exact .same

theorem log_skipPagination (s : Session) : s.skipPagination.log = s.log := by
  unfold skipPagination
  split <;> rfl

theorem log_stop (s : Session) : s.stop.session.log = s.log := by
  have hflush := (flush_frame { s with context := { s.context with recording := false } }).2
  exact (updateStore_frame _ _).2.trans hflush

theorem log_writeNext (s : Session) : s.writeNext.log = s.log := by
  unfold writeNext
  split <;> rfl

/-- A start leaves nothing of the recording before it. -/
theorem log_start (s : Session) (baseUrl : Json) :
    (s.start baseUrl).session.log = { baseUrl := .str "" } := by
  have hlog := (updateStore_frame
    { s.flush.1 with context := { baseUrl }, log := s.flush.1.log.clear (.str "") }
    [Store.reset, fun store => store.setRecording (.bool true)]).2
  unfold start
  dsimp only
  split
  · exact hlog
  · exact hlog

/-- **One turn.** Unless it is a start, the log grows with it. -/
theorem grown_take (s : Session) {t : Turn} (h : ∀ baseUrl, t ≠ .move (.start baseUrl)) :
    Grown s.log.actions (s.take t).log.actions := by
  cases t with
  | write =>
    rw [take, log_writeNext]
    exact .same
  | move m =>
    cases m with
    | start baseUrl => exact absurd rfl (h baseUrl)
    | stop =>
      rw [take, play, log_stop]
      exact .same
    | flush =>
      rw [take, play, s.flush_frame.2]
      exact .same
    | event e => exact grown_handle s e
    | toggle => exact grown_toggle s
    | skipPagination =>
      rw [take, play, log_skipPagination]
      exact .same
    | label name => exact grown_assignLabel s name

/-- **One turn.** No two edits of one field stand next to each other. -/
theorem merged_take (h : Merged s.log.actions) (t : Turn) : Merged (s.take t).log.actions := by
  by_cases hstart : ∃ baseUrl, t = .move (.start baseUrl)
  · obtain ⟨baseUrl, rfl⟩ := hstart
    rw [take, play, log_start]
    exact .nil
  · exact (grown_take s fun baseUrl ht => hstart ⟨baseUrl, ht⟩).merged h

theorem merged_takeAll (h : Merged s.log.actions) (turns : List Turn) :
    Merged (s.takeAll turns).log.actions := by
  induction turns generalizing s with
  | nil => exact h
  | cons t rest ih => exact ih (merged_take h t)

/-! ## The same edit again -/

/-- A log with actions has its address, if it ever will. -/
theorem logBefore_eq_log (h : s.log.actions ≠ []) : s.logBefore = s.log := by
  unfold logBefore
  rw [if_neg]
  simp [h]

/-- What is recorded on an element carries its locator and the present time. -/
theorem log_recordOn {page : Page} {i : Nat} {locator : String}
    (hlocate : locate s.context page i = .ok locator) (hne : locator ≠ "") (kind : Kind)
    (value : Option Json) (coalesce : Bool) :
    (s.recordOn page i kind value coalesce).session.log
      = s.logBefore.push { kind, locator, value, timestamp := s.clock.now } coalesce := by
  simp only [recordOn, hlocate, if_neg hne, Outcome.done, log_record]
  rfl

/-- An element without a locator is not recorded. -/
theorem session_recordOn {page : Page} {i : Nat}
    (h : ∀ locator, locate s.context page i = .ok locator → locator = "") (kind : Kind)
    (value : Option Json) (coalesce : Bool) :
    (s.recordOn page i kind value coalesce).session = s := by
  unfold recordOn
  split
  · rfl
  · next locator hlocate => rw [if_pos (h locator hlocate), Outcome.done]

/-- An edit that is recorded again right away replaces itself. -/
theorem sameButTime_recordOn_recordOn (s : Session) (page : Page) (i : Nat) (kind : Kind)
    (value : Option Json) :
    let once := (s.recordOn page i kind value true).session
    SameButTime once.log (once.recordOn page i kind value true).session.log := by
  dsimp only
  by_cases hlocated : ∃ locator, locate s.context page i = .ok locator ∧ locator ≠ ""
  · obtain ⟨locator, hlocate, hne⟩ := hlocated
    have honce := log_recordOn hlocate hne kind value true
    have hkept := context_recordOn s page i kind value true
    generalize (s.recordOn page i kind value true).session = once at honce hkept ⊢
    have hactions : once.log.actions ≠ [] := by
      rw [honce, push]
      simp
    -- the element is where it was, and the log has all of its address
    rw [← hkept] at hlocate
    rw [log_recordOn hlocate hne, logBefore_eq_log hactions, honce, push_push]
    · exact sameButTime_push s.logBefore _ once.clock.now
    · exact ⟨rfl, rfl⟩
  · have hnone : (s.recordOn page i kind value true).session = s := by
      apply session_recordOn
      intro locator hlocate
      by_contra hne
      exact hlocated ⟨locator, hlocate, hne⟩
    rw [hnone, hnone]
    exact .refl s.log

theorem sameButTime_changed_changed (s : Session) (event : Event) (i : Nat) :
    let once := (s.changed event i).session
    SameButTime once.log (once.changed event i).session.log := by
  dsimp only
  have hsettings := (worked_changed s event i).settings
  generalize honce : (s.changed event i).session = once at hsettings ⊢
  unfold changed at honce ⊢
  rw [hsettings]
  split at honce
  · subst honce
    exact sameButTime_recordOn_recordOn ..
  · subst honce
    exact sameButTime_recordOn_recordOn ..
  · subst honce
    exact .refl s.log

/-- Once it was heard, an address changes nothing any more. -/
theorem noteUrl_eq_self {t : Session} {url : String}
    (h : t.context = (s.noteUrl url).context) : t.noteUrl url = t := by
  have hnoted : (url ≠ "" && !(s.noteUrl url).context.baseUrl.truthy) = false := by
    unfold noteUrl
    split
    · simp [Json.truthy]
    · next hnothing => simpa using hnothing
  rw [noteUrl, h, hnoted]
  rfl

/-- An edit goes straight to what is recorded of it. -/
theorem handle_of_edit {event : Event} (h : event.type = .input ∨ event.type = .change)
    (hrecording : s.context.recording = true) :
    s.handle event =
      match event.target.filter fun i => !Interaction.isIgnored s.settings event.page i with
      | none => .done (s.noteUrl event.url) none
      | some i => (s.noteUrl event.url).changed event i := by
  have hsettings := s.noteUrl_settings event.url
  unfold handle
  rw [hrecording]
  obtain h | h := h
  all_goals
    simp only [Bool.not_true, Bool.false_eq_true, if_false, h, hsettings]
    rfl

/-- **An edit that is heard twice.** It leaves the log that it leaves if it is heard once, but for
its time. -/
theorem sameButTime_handle_handle (s : Session) {event : Event}
    (h : event.type = .input ∨ event.type = .change) :
    SameButTime (s.handle event).session.log
      ((s.handle event).session.handle event).session.log := by
  by_cases hrecording : s.context.recording = true
  · have hkept : (s.handle event).session.context = (s.noteUrl event.url).context := by
      rw [handle_of_edit h hrecording]
      split
      · rfl
      · exact context_changed ..
    have hsettings : (s.handle event).session.settings = s.settings := by
      have hworked := (worked_handle s event).settings
      rw [if_pos hrecording] at hworked
      exact hworked.trans (s.noteUrl_settings event.url)
    have hagain : (s.handle event).session.context.recording = true := by
      rw [hkept, noteUrl_recording, hrecording]
    rw [handle_of_edit h hagain, noteUrl_eq_self hkept, hsettings, handle_of_edit h hrecording]
    cases event.target.filter fun i => !Interaction.isIgnored s.settings event.page i with
    | none => exact .refl _
    | some i => exact sameButTime_changed_changed (s.noteUrl event.url) event i
  · have hnone : (s.handle event).session = s := by
      simp only [handle, hrecording, Bool.not_false, if_true, Outcome.done]
    rw [hnone, hnone]
    exact .refl s.log

/-! ## Every session -/

/-- What the log of a session is like, and what becomes of it. -/
structure Coalescing (s : Session) : Prop where
  /-- No two neighbours are edits of the same sort and element. -/
  merged : Merged s.log.actions
  /-- At most one action comes in, and none goes but for edits that it replaces. -/
  grown : ∀ t : Turn, (∀ baseUrl, t ≠ .move (.start baseUrl)) →
    Grown s.log.actions (s.take t).log.actions
  /-- What is no edit is never removed or changed. -/
  kept : ∀ t : Turn, (∀ baseUrl, t ≠ .move (.start baseUrl)) → ∀ (i : Nat) (a : Action Json),
    s.log.actions[i]? = some a → a.kind.isEdit = false → (s.take t).log.actions[i]? = some a
  /-- An edit that comes twice counts once. -/
  twice : ∀ event : Event, event.type = .input ∨ event.type = .change →
    SameButTime (s.handle event).session.log ((s.handle event).session.handle event).session.log

/-- **The log only grows, but for edits in place.** That holds wherever a session gets by moves,
and by writes in the background. -/
theorem coalescing_takeAll (settings : Settings) (clock : Clock) (store : Option Store)
    (hasBackground : Bool) (turns : List Turn) :
    ((fresh settings clock store hasBackground).takeAll turns).Coalescing where
  merged := by
    have hempty : Merged (fresh settings clock store hasBackground).log.actions := .nil
    exact merged_takeAll hempty turns
  grown _ h := grown_take _ h
  kept _ h _ _ hi hkind := (grown_take _ h).getElem?_eq hi hkind
  twice _ h := sameButTime_handle_handle _ h

end Session

end Retrace
