/-
What a session makes of an event, and how its log grows.

An action is made with a reading of the clock, and then it is appended to the log, which takes no
action without a locator. Bounds, clicks and edits are made only under a locator that was looked at
before. A label takes the locator of the pinned element as it is, so here it matters that elements
are pinned under locators. Then one move makes at most one action, and the log takes it (`LogStep`).

An event or a control does not touch the store, and what it leaves to write is left under the
address of that time (`Worked`).
-/
import Retrace.Proofs.Recording.Tracking

set_option autoImplicit false

namespace Retrace.Session

/-- What becomes of the log and the clock in one move. -/
inductive LogStep (s t : Session) : Prop where
  /-- No action is made. -/
  | idle (hlog : t.log = s.log) (hclock : t.clock = s.clock)
  /-- The log begins anew. -/
  | begun (hlog : t.log.actions = []) (hclock : t.clock = s.clock)
  /-- An action is made, at the next reading of the clock, and appended. The log may have taken its
  address with it. -/
  | appended (a stored : Action Json) (coalesce : Bool) (baseUrl : Json)
      (htime : a.timestamp = s.clock.now) (hclock : t.clock = s.clock.next)
      (happend : Log.append { s.log with baseUrl } a coalesce = .ok (t.log, stored))

/-- What an event or a control does beside changing the context. -/
structure Worked (s t : Session) : Prop where
  settings : t.settings = s.settings
  store : t.store = s.store
  baseUrl : t.context.baseUrl = s.context.baseUrl
  pending : ∃ added, t.pending = s.pending ++ added ∧ ∀ w ∈ added, w.baseUrl = s.context.baseUrl
  /-- A label is under the locator of the pinned element. -/
  log : (∀ p ∈ s.context.pinned, p.locator ≠ "") → LogStep s t

variable {s t : Session}

/-- Whatever else is changed before and behind. -/
theorem LogStep.congr {s' t' : Session} (h : LogStep s t)
    (hs : s'.log = s.log ∧ s'.clock = s.clock) (ht : t'.log = t.log ∧ t'.clock = t.clock) :
    LogStep s' t' := by
  obtain ⟨hslog, hsclock⟩ := hs
  obtain ⟨htlog, htclock⟩ := ht
  cases h with
  | idle hlog hclock => exact .idle (by rw [htlog, hlog, hslog]) (by rw [htclock, hclock, hsclock])
  | begun hlog hclock => exact .begun (by rw [htlog, hlog]) (by rw [htclock, hclock, hsclock])
  | appended a stored coalesce baseUrl htime hclock happend =>
    rw [← hslog, ← htlog] at happend
    exact .appended a stored coalesce baseUrl (by rw [htime, hsclock])
      (by rw [htclock, hclock, hsclock]) happend

/-- No action is made. -/
theorem worked_idle {context : Context} (hbaseUrl : context.baseUrl = s.context.baseUrl) :
    Worked s { s with context } :=
  ⟨rfl, rfl, hbaseUrl, ⟨[], by simp, by simp⟩, fun _ => .idle rfl rfl⟩

/-- The context may change before. -/
theorem Worked.after {context : Context} (h : Worked { s with context } t)
    (hbaseUrl : context.baseUrl = s.context.baseUrl) (hpinned : context.pinned = s.context.pinned) :
    Worked s t := by
  obtain ⟨added, hadded, haddress⟩ := h.pending
  refine ⟨h.settings, h.store, h.baseUrl.trans hbaseUrl,
    ⟨added, hadded, fun w hw => (haddress w hw).trans hbaseUrl⟩, fun hlocated => ?_⟩
  have hlog := h.log fun p hp => hlocated p (hpinned ▸ hp)
  exact hlog.congr ⟨rfl, rfl⟩ ⟨rfl, rfl⟩

/-- The context may change behind. -/
theorem Worked.before (h : Worked s t) {context : Context}
    (hbaseUrl : context.baseUrl = t.context.baseUrl) : Worked s { t with context } :=
  ⟨h.settings, h.store, hbaseUrl.trans h.baseUrl, h.pending,
    fun hlocated => (h.log hlocated).congr ⟨rfl, rfl⟩ ⟨rfl, rfl⟩⟩

/-! ## Recording -/

/-- What is left to write of an action is left under the address. -/
theorem exists_persist (s : Session) (a : Action Json) (coalesce : Bool) :
    ∃ pending, (s.persist a coalesce).1 = { s with pending := s.pending ++ pending }
      ∧ ∀ w ∈ pending, w.baseUrl = s.context.baseUrl := by
  unfold persist
  split
  · exact ⟨[], by simp, by simp⟩
  · split
    · exact ⟨[⟨a, coalesce, s.context.baseUrl⟩], rfl, by simp⟩
    · exact ⟨[], by simp, by simp⟩

/-- An action with a locator that is made and recorded is appended. -/
theorem worked_record (s : Session) {a : Action Json} (htime : a.timestamp = s.clock.now)
    (hlocator : (∀ p ∈ s.context.pinned, p.locator ≠ "") → a.locator ≠ "") (coalesce : Bool) :
    Worked s ({ s with clock := s.clock.next }.record a coalesce).1 := by
  obtain ⟨baseUrl, hbefore⟩ : ∃ baseUrl,
      ({ s with clock := s.clock.next } : Session).logBefore = { s.log with baseUrl } := by
    unfold logBefore
    split
    · exact ⟨_, rfl⟩
    · exact ⟨_, rfl⟩
  unfold record
  dsimp only
  rw [hbefore]
  obtain ⟨pending, hpersist, haddress⟩ := exists_persist
    { s with clock := s.clock.next, log := Log.push { s.log with baseUrl } a coalesce }
    (Log.entry { s.log with baseUrl } a coalesce) coalesce
  rw [hpersist]
  refine ⟨rfl, rfl, rfl, ⟨pending, rfl, haddress⟩, fun hlocated => ?_⟩
  refine .appended a (Log.entry { s.log with baseUrl } a coalesce) coalesce baseUrl htime rfl ?_
  rw [Log.append, if_neg (hlocator hlocated)]

/-- A bound takes one reading of the clock, with which it is recorded. -/
theorem worked_absorb {o : TableLoop.Outcome} (ho : TableLoop.Gesture s.context s.clock o) :
    Worked s (s.absorb o).1 := by
  obtain ⟨context, clock, bound⟩ := o
  obtain rfl : clock = if bound.isSome then s.clock.next else s.clock := ho.ticks
  unfold absorb
  cases bound with
  | none => exact worked_idle ho.baseUrl
  | some a =>
    obtain ⟨-, hlocator, htime⟩ := ho.bound a rfl
    have hrecord := worked_record { s with context } htime (fun _ => hlocator) false
    exact hrecord.after ho.baseUrl ho.pinned

/-- An action takes one reading of the clock, and none if there is no locator. -/
theorem worked_recordOn (s : Session) (page : Page) (i : Nat) (kind : Kind) (value : Option Json)
    (coalesce : Bool) : Worked s (s.recordOn page i kind value coalesce).session := by
  unfold recordOn
  split
  · exact worked_idle rfl
  · split
    · exact worked_idle rfl
    · next hne => exact worked_record s rfl (fun _ => hne) coalesce

/-! ## Events -/

theorem worked_keyReleased (s : Session) (key : String) : Worked s (s.keyReleased key).session := by
  unfold keyReleased
  split
  · exact worked_absorb TableLoop.gesture_releaseModifier
  · split
    · dsimp only [Outcome.done]
      split <;> exact worked_idle rfl
    · exact worked_idle rfl

theorem worked_hovered (s : Session) (event : Event) : Worked s (s.hovered event).session := by
  unfold hovered
  dsimp only
  split
  · exact worked_idle rfl
  · split
    · split
      · split <;> exact worked_idle rfl
      · exact worked_idle rfl
    · exact worked_idle rfl

/-- A click is recorded as a bound or as itself, and never as both. -/
theorem worked_clicked (s : Session) (event : Event) (i : Nat) :
    Worked s (s.clicked event i).session := by
  unfold clicked
  split
  · exact worked_idle rfl
  · next o hclick => exact worked_absorb (TableLoop.clicked_of_click _ _ hclick).gesture
  · next o hclick =>
    have hclicked := TableLoop.clicked_of_click _ _ hclick
    obtain ⟨context, clock, bound⟩ := o
    obtain rfl : bound = none := hclicked.bound_eq_none
    obtain rfl : clock = s.clock := hclicked.gesture.ticks
    dsimp only [absorb]
    split
    · exact (worked_recordOn ..).after hclicked.gesture.baseUrl hclicked.gesture.pinned
    · exact worked_idle hclicked.gesture.baseUrl

/-- A change takes one reading of the clock, be it recorded anew or in place of another. -/
theorem worked_changed (s : Session) (event : Event) (i : Nat) :
    Worked s (s.changed event i).session := by
  unfold changed
  split
  · exact worked_recordOn ..
  · exact worked_recordOn ..
  · exact worked_idle rfl

/-- An event is heard while a recording is on, and may bring the address. -/
theorem worked_handle (s : Session) (event : Event) :
    Worked (if s.context.recording then s.noteUrl event.url else s) (s.handle event).session := by
  unfold handle
  by_cases hrecording : s.context.recording = true
  · simp only [hrecording, Bool.not_true, Bool.false_eq_true, if_false, if_true]
    split
    · split <;> exact worked_idle rfl
    · exact worked_keyReleased ..
    · exact worked_hovered ..
    all_goals
      split
      · exact worked_idle rfl
      · by_cases hclick : event.type = .click
        · rw [if_pos hclick]
          exact worked_clicked ..
        · rw [if_neg hclick]
          exact worked_changed ..
  · simp only [hrecording, Bool.not_false, if_true, if_false, Bool.false_eq_true]
    exact worked_idle rfl

/-! ## Controls -/

theorem worked_toggle (s : Session) : Worked s s.toggle.1 := by
  unfold toggle
  split
  · exact worked_absorb TableLoop.gesture_toggle
  · exact worked_idle rfl

theorem worked_skipPagination (s : Session) : Worked s s.skipPagination := by
  unfold skipPagination TableLoop.skipPagination
  split
  · split <;> exact worked_idle rfl
  · exact worked_idle rfl

/-- A label takes one reading of the clock, if something is pinned. -/
theorem worked_assignLabel (s : Session) (name : String) : Worked s (s.assignLabel name).1 := by
  unfold assignLabel
  dsimp only
  split
  · next pinned hpinned =>
    split
    · exact (worked_record s rfl (fun hlocated => hlocated pinned hpinned) false).before rfl
    · exact worked_idle rfl
  · exact worked_idle rfl

/-! ## Moves -/

theorem clock_flush (s : Session) : s.flush.1.clock = s.clock := by
  unfold flush
  split <;> rfl

theorem clock_updateStore (s : Session) (ops : List (Store → Store.Outcome Unit)) :
    (s.updateStore ops).session.clock = s.clock := by
  unfold updateStore
  split <;> rfl

/-- A start empties the log. -/
theorem logStep_start (s : Session) (baseUrl : Json) : LogStep s (s.start baseUrl).session := by
  let cleared : Session :=
    { s.flush.1 with context := { baseUrl }, log := s.flush.1.log.clear (.str "") }
  let ops : List (Store → Store.Outcome Unit) :=
    [Store.reset, fun store => store.setRecording (.bool true)]
  have hlog : (cleared.updateStore ops).session.log = cleared.log :=
    (updateStore_frame cleared ops).2
  have hclock : (cleared.updateStore ops).session.clock = s.clock :=
    (clock_updateStore cleared ops).trans (clock_flush s)
  unfold start
  dsimp only
  split
  · exact .begun (congrArg Log.actions hlog) hclock
  · exact .begun (congrArg Log.actions hlog) hclock

/-- The end of a recording leaves the log as it is. -/
theorem logStep_stop (s : Session) : LogStep s s.stop.session := by
  have hlog := (flush_frame { s with context := { s.context with recording := false } }).2
  have hclock := clock_flush { s with context := { s.context with recording := false } }
  unfold stop
  exact .idle ((updateStore_frame _ _).2.trans hlog) ((clock_updateStore _ _).trans hclock)

/-- **One move.** It makes at most one action, and the log takes it. -/
theorem logStep_play (hlocated : ∀ p ∈ s.context.pinned, p.locator ≠ "") (m : Move) :
    LogStep s (s.play m) := by
  cases m with
  | start baseUrl => exact logStep_start s baseUrl
  | stop => exact logStep_stop s
  | flush => exact .idle s.flush_frame.2 (clock_flush s)
  | event e =>
    have hworked := worked_handle s e
    unfold noteUrl at hworked
    split at hworked
    · split at hworked
      · exact (hworked.log hlocated).congr ⟨rfl, rfl⟩ ⟨rfl, rfl⟩
      · exact hworked.log hlocated
    · exact hworked.log hlocated
  | toggle => exact (worked_toggle s).log hlocated
  | skipPagination => exact (worked_skipPagination s).log hlocated
  | label name => exact (worked_assignLabel s name).log hlocated

end Retrace.Session
