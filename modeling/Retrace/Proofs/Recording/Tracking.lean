/-
What is left to write.

A session writes to its store later, and what it leaves for later is the entry as the log holds it.
So at any time the log is what the store keeps, with the writes that are left done on it in their
order (`Tracks`). Recording an action adds one write and does the same to the log
(`replay_record`), and every move but a start, a stop and a flush does no more than that.

Every action that is recorded can be stored: its value is a text, its time is a reading of the
clock, and its locator is not empty, as the element that was hit has a tag.
-/
import Retrace.Proofs.Locator.Nonempty
import Retrace.Proofs.Page.Markup
import Retrace.Proofs.Recording.Keeping
import Retrace.Proofs.Recording.Run

set_option autoImplicit false

namespace Retrace

/-! ## Gestures of the table loop -/

namespace TableLoop

variable {context : Context} {clock : Clock}

/-- What a gesture may change, and what bound it may set. -/
structure Gesture (context : Context) (clock : Clock) (o : Outcome) : Prop where
  recording : o.context.recording = context.recording
  baseUrl : o.context.baseUrl = context.baseUrl
  pinned : o.context.pinned = context.pinned
  /-- A reading of the clock is taken for a bound, and only for that. -/
  ticks : o.clock = if o.bound.isSome then clock.next else clock
  bound : ∀ a ∈ o.bound, a.value = none ∧ a.locator ≠ "" ∧ a.timestamp = clock.now

/-- A bound has no value, and carries the present time. -/
theorem bound_setBound (after : Context) (kind : Kind) {locator : String} (hne : locator ≠ "") :
    ∀ a ∈ (setBound after clock kind locator).bound,
      a.value = none ∧ a.locator ≠ "" ∧ a.timestamp = clock.now := by
  rintro _ ⟨⟩
  exact ⟨rfl, hne, rfl⟩

theorem Gesture.reading {o : Outcome} (h : Gesture context clock o) :
    o.clock.reading = clock.reading := by
  rw [h.ticks]
  split <;> rfl

/-- A loop that begins sets its start, at a reading of the clock. -/
theorem gesture_openLoop (subject : String) :
    Gesture context clock (openLoop context clock subject) := by
  unfold openLoop
  split
  · exact ⟨rfl, rfl, rfl, rfl, by simp⟩
  · next hne => exact ⟨rfl, rfl, rfl, rfl, bound_setBound _ _ hne⟩

/-- The control sets at most one bound. -/
theorem gesture_toggle : Gesture context clock (toggle context clock) := by
  unfold toggle
  split
  · exact ⟨rfl, rfl, rfl, rfl, by simp⟩
  · exact ⟨rfl, rfl, rfl, rfl, by simp⟩
  all_goals
    dsimp only
    split
    · next subject hsubject =>
      have hne : subject ≠ "" := by simpa using (Option.filter_eq_some_iff.1 hsubject).2
      exact ⟨rfl, rfl, rfl, rfl, bound_setBound _ _ hne⟩
    · exact ⟨rfl, rfl, rfl, rfl, by simp⟩

/-- Letting go of the modifier sets at most the start of a loop. -/
theorem gesture_releaseModifier : Gesture context clock (releaseModifier context clock).1 := by
  unfold releaseModifier
  split
  · exact ⟨rfl, rfl, rfl, rfl, by simp⟩
  · next subject _ =>
    split
    · obtain ⟨hrecording, hbaseUrl, hpinned, hticks, hbound⟩ := @gesture_openLoop
        { context with modifierHeld := false, highlightedTable := none, markedTable := none }
        clock subject
      exact ⟨hrecording, hbaseUrl, hpinned, hticks, hbound⟩
    · exact ⟨rfl, rfl, rfl, rfl, by simp⟩

/-- A click sets at most one bound, be it used up or not. -/
theorem Clicked.gesture {event : Event} {used : Bool} {o : Outcome}
    (h : Clicked context clock event used o) : Gesture context clock o := by
  cases h with
  | unused => exact ⟨rfl, rfl, rfl, rfl, by simp⟩
  | marked marked _ _ _ => exact ⟨rfl, rfl, rfl, rfl, by simp⟩
  | picked subject _ _ => exact gesture_openLoop subject
  | paginated locator _ hne => exact ⟨rfl, rfl, rfl, rfl, bound_setBound _ _ hne⟩

end TableLoop

/-! ## What is left to write -/

/-- An event whose values are texts, on an element with a tag. -/
structure Event.Storable (e : Event) : Prop where
  value : ∀ v ∈ e.value, ∃ s, v = .str s
  selectedText : ∀ v ∈ e.selectedText, ∃ s, v = .str s
  tag : ∀ i ∈ e.target, e.page.tag i ≠ ""

/-- The element that a received event hit has a tag. -/
theorem Event.tag_ne_empty_of_ofPayload {payload : Json} {e : Event} (h : ofPayload payload = .ok e)
    {i : Nat} (hi : i ∈ e.target) : e.page.tag i ≠ "" := by
  obtain ⟨hpage, htarget⟩ := page_of_ofPayload h
  intro hempty
  have hletter := hpage.tag (htarget i hi)
  simp [LetterFirst, hempty] at hletter

/-- Of a received event, only the values that come along are in question. -/
theorem Event.storable_of_ofPayload {payload : Json} {e : Event} (h : ofPayload payload = .ok e)
    (hvalue : ∀ v ∈ e.value, ∃ s, v = .str s)
    (hselectedText : ∀ v ∈ e.selectedText, ∃ s, v = .str s) : e.Storable :=
  ⟨hvalue, hselectedText, fun _ => tag_ne_empty_of_ofPayload h⟩

/-- What is written to a log that can be stored keeps it so. -/
theorem Log.Storable.foldl_replay {log : Log Json} (h : log.Storable) {pending : List PendingWrite}
    (hpending : ∀ w ∈ pending, w.Storable) : (pending.foldl Log.replay log).Storable := by
  induction pending generalizing log with
  | nil => exact h
  | cons w rest ih =>
    exact ih (h.replay (hpending w (by simp))) fun w' hw' => hpending w' (by simp [hw'])

namespace Session

/-- What is located with a tag is located by a text that is not empty. -/
theorem locate_ne_empty {context : Context} {page : Page} {i : Nat} (htag : page.tag i ≠ "")
    {locator : String} (h : locate context page i = .ok locator) : locator ≠ "" := by
  have hpage : Locator.synthesize page (some i) none = .ok locator → locator ≠ "" :=
    Locator.synthesize_ne_empty htag
  unfold locate at h
  split at h
  · exact hpage h
  · next subject hsubject =>
    have hne : subject ≠ "" := by
      unfold openSubject? at hsubject
      split at hsubject
      · simpa using (Option.filter_eq_some_iff.1 hsubject).2
      · simp at hsubject
    obtain ⟨selector, -, h⟩ := exists_of_bind_ok h
    split at h
    · split at h
      · unfold Locator.synthesizeWithin at h
        obtain ⟨steps, -, h⟩ := exists_of_bind_ok h
        split at h
        · obtain rfl := Except.ok.inj h
          exact hne
        · obtain rfl := Except.ok.inj h
          exact Locator.append_ne_empty (.inl (Locator.append_ne_empty (.inl hne)))
      · exact hpage h
    · exact hpage h

/-- The log is what the store keeps, with the writes that are left done on it. The recording is
on or off as told. -/
structure Tracks (s : Session) (store : Store) (held : Log Json) (recording : Bool) : Prop where
  store_eq : s.store = some store
  background : s.hasBackground = true
  storable : held.Storable
  pending : ∀ w ∈ s.pending, w.Storable
  log_eq : s.pending.foldl Log.replay held = s.log
  recording_eq : s.context.recording = recording
  baseUrl : ∃ u, s.context.baseUrl = .str u
  pinned : ∀ p ∈ s.context.pinned, p.locator ≠ ""
  clock : ∀ n, Decimal.unsigned (s.clock.reading n) = s.clock.reading n

variable {s : Session} {store : Store} {held : Log Json} {recording : Bool}

/-- The log that a session keeps can be stored. -/
theorem Tracks.log (h : s.Tracks store held recording) : s.log.Storable := by
  rw [← h.log_eq]
  exact h.storable.foldl_replay h.pending

theorem Tracks.now (h : s.Tracks store held recording) :
    Decimal.unsigned s.clock.now = s.clock.now :=
  h.clock s.clock.taken

/-- A move that touches nothing but the context and the clock. -/
theorem Tracks.update (h : s.Tracks store held recording) {context : Context} {clock : Clock}
    (hrecording : context.recording = s.context.recording)
    (hbaseUrl : ∃ u, context.baseUrl = .str u) (hpinned : ∀ p ∈ context.pinned, p.locator ≠ "")
    (hclock : clock.reading = s.clock.reading) :
    ({ s with context, clock } : Session).Tracks store held recording :=
  ⟨h.store_eq, h.background, h.storable, h.pending, h.log_eq, hrecording.trans h.recording_eq,
    hbaseUrl, hpinned, fun n => by rw [hclock]; exact h.clock n⟩

/-- Another store that holds the same. -/
theorem Tracks.withStore (h : s.Tracks store held recording) (other : Store) :
    ({ s with store := some other } : Session).Tracks other held recording :=
  ⟨rfl, h.background, h.storable, h.pending, h.log_eq, h.recording_eq, h.baseUrl, h.pinned, h.clock⟩

/-- A reading of the clock writes nothing. -/
theorem Tracks.tick (h : s.Tracks store held recording) :
    ({ s with clock := s.clock.next } : Session).Tracks store held recording :=
  h.update rfl h.baseUrl h.pinned rfl

/-- The write of an entry does to the log what recording the action did. -/
theorem replay_record (hlog : s.log.Storable) (hurl : ∃ u, s.context.baseUrl = .str u)
    (a : Action Json) (coalesce : Bool) :
    s.log.replay ⟨s.logBefore.entry a coalesce, coalesce, s.context.baseUrl⟩
      = s.logBefore.push a coalesce := by
  obtain ⟨u, hu⟩ := hurl
  obtain ⟨v, hv⟩ := hlog.baseUrl
  have hbefore : (if s.log.actions.isEmpty && !s.log.baseUrl.truthy && s.context.baseUrl.truthy
      then { s.log with baseUrl := s.context.baseUrl } else s.log) = s.logBefore := by
    unfold logBefore
    by_cases hbare : (s.log.actions.isEmpty && !s.log.baseUrl.truthy) = true
    · rw [hbare, if_pos rfl, Bool.true_and]
      split
      · rfl
      · next hfalsy =>
        -- an address that is empty takes the place of one that is empty too
        have hnew : u = "" := by simpa [hu, Json.truthy] using hfalsy
        have hold : v = "" := by simpa [hv, Json.truthy] using (Bool.and_eq_true_iff.1 hbare).2
        rw [hu, hnew, ← hold, ← hv]
    · rw [Bool.not_eq_true] at hbare
      simp [hbare]
  rw [Log.replay, hbefore, Log.push_entry]

/-- The address that the first action brings along is a text. -/
theorem logBefore_storable (hlog : s.log.Storable) (hurl : ∃ u, s.context.baseUrl = .str u) :
    s.logBefore.Storable := by
  unfold logBefore
  split
  · exact ⟨hurl, hlog.actions, hlog.ordered⟩
  · exact hlog

/-- With a store, recording an action leaves its write for later. -/
theorem record_eq (hstore : s.store = some store) (hbackground : s.hasBackground = true)
    (a : Action Json) (coalesce : Bool) :
    (s.record a coalesce).1 =
      { s with
        log := s.logBefore.push a coalesce
        pending := s.pending
          ++ [⟨s.logBefore.entry a coalesce, coalesce, s.context.baseUrl⟩] } := by
  simp [Session.record, persist, hstore, hbackground]

/-- Recording adds to the log, and leaves the write of the same entry for later. -/
theorem Tracks.record (h : s.Tracks store held recording) {a : Action Json} (ha : a.Storable)
    (coalesce : Bool) : (s.record a coalesce).1.Tracks store held recording := by
  rw [record_eq h.store_eq h.background]
  refine ⟨h.store_eq, h.background, h.storable, ?_, ?_, h.recording_eq, h.baseUrl, h.pinned,
    h.clock⟩
  · intro w hw
    rcases List.mem_append.1 hw with hw | hw
    · exact h.pending w hw
    · rw [List.mem_singleton.1 hw]
      exact ⟨(logBefore_storable h.log h.baseUrl).entry ha coalesce, h.baseUrl⟩
  · rw [List.foldl_append, h.log_eq, ← replay_record h.log h.baseUrl]
    rfl

/-! ## Moves that record -/

/-- A bound is recorded like any other action. -/
theorem Tracks.absorb (h : s.Tracks store held recording) {o : TableLoop.Outcome}
    (ho : TableLoop.Gesture s.context s.clock o) :
    (s.absorb o).1.Tracks store held recording := by
  have hmoved : ({ s with context := o.context, clock := o.clock } : Session).Tracks
      store held recording :=
    h.update ho.recording (ho.baseUrl ▸ h.baseUrl) (ho.pinned ▸ h.pinned) ho.reading
  unfold Session.absorb
  cases hbound : o.bound with
  | none => exact hmoved
  | some a =>
    obtain ⟨hvalue, hlocator, htime⟩ := ho.bound a hbound
    exact hmoved.record ⟨by simp [hvalue], hlocator, by rw [htime, h.now]⟩ false

/-- An action is recorded with the locator of its element, which is not empty. -/
theorem Tracks.recordOn (h : s.Tracks store held recording) (page : Page) (i : Nat) (kind : Kind)
    {value : Option Json} (hvalue : ∀ v ∈ value, ∃ t, v = .str t) (coalesce : Bool) :
    (s.recordOn page i kind value coalesce).session.Tracks store held recording := by
  unfold Session.recordOn
  split
  · exact h
  · next locator _ =>
    split
    · exact h
    · next hne =>
      have ha : Action.Storable { kind, locator, value, timestamp := s.clock.now } :=
        ⟨hvalue, hne, h.now⟩
      exact h.tick.record ha coalesce

theorem Tracks.keyReleased (h : s.Tracks store held recording) (key : String) :
    (s.keyReleased key).session.Tracks store held recording := by
  unfold Session.keyReleased
  split
  · have hreleased := h.absorb TableLoop.gesture_releaseModifier
    exact hreleased
  · split
    · dsimp only [Outcome.done]
      split
      · exact h.update rfl h.baseUrl (by simp) rfl
      · exact h.update rfl h.baseUrl h.pinned rfl
    · exact h

/-- A movement of the pointer records nothing, and pins what has a locator. -/
theorem Tracks.hovered (h : s.Tracks store held recording) {event : Event}
    (hevent : event.Storable) :
    (s.hovered event).session.Tracks store held recording := by
  unfold Session.hovered
  dsimp only
  split
  · exact h.update rfl h.baseUrl h.pinned rfl
  · next i htarget =>
    have htag := hevent.tag i (Option.filter_eq_some_iff.1 htarget).1
    split
    · split
      · split
        · next locator hlocate =>
          refine h.update rfl h.baseUrl ?_ rfl
          rintro _ ⟨⟩
          exact locate_ne_empty htag hlocate
        · exact h.update rfl h.baseUrl h.pinned rfl
      · exact h.update rfl h.baseUrl h.pinned rfl
    · exact h.update rfl h.baseUrl h.pinned rfl

/-- A click records a bound, or the click itself. -/
theorem Tracks.clicked (h : s.Tracks store held recording) (event : Event) (i : Nat) :
    (s.clicked event i).session.Tracks store held recording := by
  unfold Session.clicked
  split
  · exact h
  · next o hclick =>
    have hgesture := (TableLoop.clicked_of_click _ _ hclick).gesture
    exact h.absorb hgesture
  · next o hclick =>
    have hgesture := (TableLoop.clicked_of_click _ _ hclick).gesture
    have habsorbed := h.absorb hgesture
    dsimp only
    split
    · exact habsorbed.recordOn event.page i .click (by simp) false
    · exact habsorbed

/-- A change records a text as its value. -/
theorem Tracks.changed (h : s.Tracks store held recording) {event : Event} (hevent : event.Storable)
    (i : Nat) : (s.changed event i).session.Tracks store held recording := by
  unfold Session.changed
  split
  · refine h.recordOn event.page i .input ?_ true
    rintro _ ⟨⟩
    cases hvalue : event.value.filter Json.truthy with
    | none => exact ⟨"", rfl⟩
    | some v => exact hevent.value v (Option.filter_eq_some_iff.1 hvalue).1
  · refine h.recordOn event.page i .select ?_ true
    rintro _ ⟨⟩
    cases htext : event.selectedText with
    | none => exact ⟨chosenText event.page i, rfl⟩
    | some v => exact hevent.selectedText v htext
  · exact h

theorem Tracks.noteUrl (h : s.Tracks store held recording) (url : String) :
    (s.noteUrl url).Tracks store held recording := by
  unfold Session.noteUrl
  split
  · exact h.update rfl ⟨url, rfl⟩ h.pinned rfl
  · exact h

/-- **One event.** The store stays behind by the writes that are pending. -/
theorem Tracks.handle (h : s.Tracks store held recording) {event : Event}
    (hevent : event.Storable) :
    (s.handle event).session.Tracks store held recording := by
  have hnoted := h.noteUrl event.url
  unfold Session.handle
  split
  · exact h
  · dsimp only
    split
    · split
      · exact hnoted.update rfl hnoted.baseUrl hnoted.pinned rfl
      · exact hnoted
    · exact hnoted.keyReleased event.key
    · exact hnoted.hovered hevent
    all_goals
      split
      · exact hnoted
      · by_cases hclick : event.type = .click
        · rw [if_pos hclick]
          exact hnoted.clicked event _
        · rw [if_neg hclick]
          exact hnoted.changed hevent _

theorem Tracks.toggle (h : s.Tracks store held recording) :
    s.toggle.1.Tracks store held recording := by
  unfold Session.toggle
  split
  · exact h.absorb TableLoop.gesture_toggle
  · exact h

theorem Tracks.skipPagination (h : s.Tracks store held recording) :
    s.skipPagination.Tracks store held recording := by
  unfold Session.skipPagination TableLoop.skipPagination
  split
  · split
    · exact h.update rfl h.baseUrl h.pinned rfl
    · exact h
  · exact h

/-- A label is recorded with the text of the pinned element. -/
theorem Tracks.assignLabel (h : s.Tracks store held recording) (name : String) :
    (s.assignLabel name).1.Tracks store held recording := by
  unfold Session.assignLabel
  dsimp only
  split
  · next pinned hpinned =>
    split
    · have ha : Action.Storable
          { kind := .label, locator := pinned.locator, value := some (.str pinned.text)
            label := some (Text.strip name), timestamp := s.clock.now } :=
        ⟨by simp, h.pinned pinned hpinned, h.now⟩
      have hrecorded := h.tick.record ha false
      exact hrecorded.update rfl hrecorded.baseUrl (by simp) rfl
    · exact h
  · exact h

end Session

end Retrace
