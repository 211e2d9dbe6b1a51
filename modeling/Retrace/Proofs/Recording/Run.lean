/-
Runs of a session, and what a single move does to the recording of loops.

A session is started and stopped, receives events, and has its controls used, in any order and as
often as one likes. Of all that a session keeps, the recording of loops depends on four things
only: the phase, the table of the open loop, the table that is marked, and the bounds in the log.
`LoopStep` lists what can become of these four in one move; every statement about loops over a
whole run is shown for the steps of this list, and then goes along the run (`playAll_induction`).
-/
import Retrace.Proofs.Action.Bounds
import Retrace.Proofs.Except
import Retrace.Proofs.Page.Nesting
import Retrace.Recording.Session

set_option autoImplicit false

namespace Retrace

/-! ## Runs -/

/-- What can happen to a session. -/
inductive Move where
  | start (baseUrl : Json)
  | stop
  | flush
  | event (event : Event)
  | toggle
  | skipPagination
  | label (name : String)

namespace Session

/-- A session at its beginning. -/
def fresh (settings : Settings) (clock : Clock) (store : Option Store) (hasBackground : Bool) :
    Session :=
  { settings, clock, store, hasBackground }

/-- The session after a move. -/
def play (s : Session) : Move → Session
  | .start baseUrl => (s.start baseUrl).session
  | .stop => s.stop.session
  | .flush => s.flush.1
  | .event event => (s.handle event).session
  | .toggle => s.toggle.1
  | .skipPagination => s.skipPagination
  | .label name => (s.assignLabel name).1

/-- The session after moves in order. -/
def playAll (s : Session) (moves : List Move) : Session := moves.foldl play s

/-- What holds at the beginning and is kept by every move holds at the end of a run. -/
theorem playAll_induction {P : Session → Prop} {Q : Move → Prop} {s : Session} {moves : List Move}
    (hQ : ∀ m ∈ moves, Q m) (hs : P s) (hplay : ∀ s m, Q m → P s → P (s.play m)) :
    P (s.playAll moves) := by
  induction moves generalizing s with
  | nil => exact hs
  | cons m rest ih =>
    exact ih (fun m' hm' => hQ m' (List.mem_cons_of_mem _ hm')) (hplay s m (hQ m (by simp)) hs)

/-- The sessions that a run of such moves comes to. -/
def Reachable (Q : Move → Prop) (s : Session) : Prop :=
  ∃ settings clock store hasBackground moves, (∀ m ∈ moves, Q m)
    ∧ (fresh settings clock store hasBackground).playAll moves = s

end Session

/-! ## The address -/

namespace Session

/-- Nothing but the address is noted. -/
theorem noteUrl_eq (s : Session) (url : String) :
    s.noteUrl url = { s with context := { s.context with
      baseUrl := if url ≠ "" && !s.context.baseUrl.truthy then .str url
        else s.context.baseUrl } } := by
  unfold noteUrl
  split <;> rfl

@[simp] theorem noteUrl_settings (s : Session) (url : String) :
    (s.noteUrl url).settings = s.settings := by
  rw [noteUrl_eq]

@[simp] theorem noteUrl_log (s : Session) (url : String) : (s.noteUrl url).log = s.log := by
  rw [noteUrl_eq]

@[simp] theorem noteUrl_store (s : Session) (url : String) :
    (s.noteUrl url).store = s.store := by
  rw [noteUrl_eq]

@[simp] theorem noteUrl_recording (s : Session) (url : String) :
    (s.noteUrl url).context.recording = s.context.recording := by
  rw [noteUrl_eq]

end Session

/-! ## Clicks for the table loop -/

namespace TableLoop

variable {settings : Settings} {context : Context} {clock : Clock} {event : Event} {i : Nat}

/-- A table is found around the element, or is the element. -/
theorem mem_ancestors_of_findTable {page : Page} {table : Nat}
    (h : Interaction.findTable settings page i = some table) : table ∈ page.ancestors i :=
  (List.takeWhile_sublist _).subset (List.mem_of_find?_eq_some h)

/-- The element that the table loop locates when `i` is clicked: a table that `i` lies in, or `i`
as the control for the next page. -/
def wanted? (settings : Settings) (context : Context) (event : Event) (i : Nat) : Option Nat :=
  match context.phase, context.modifierHeld with
  | .inactive, true | .selecting, _ => Interaction.findTable settings event.page i
  | .selectingNext, _ => if Interaction.isInteractive event.page i event then some i else none
  | _, _ => none

/-- The table loop locates nothing but what was hit and what is around it. -/
theorem mem_ancestors_of_wanted? {j : Nat} (h : wanted? settings context event i = some j) :
    j ∈ event.page.ancestors i := by
  unfold wanted? at h
  split at h
  · exact mem_ancestors_of_findTable h
  · exact mem_ancestors_of_findTable h
  · split at h
    · obtain rfl := Option.some.inj h
      exact Page.self_mem_ancestors ..
    · simp at h
  · simp at h

/-- What becomes of a click once the element is located: the table is marked or picked, or the
control is picked. -/
def taken (context : Context) (clock : Clock) (locator : String) : Bool × Outcome :=
  match context.phase with
  | .inactive =>
    let marked := if locator = "" then none else some locator
    (marked.isSome, { context := { context with markedTable := marked }, clock })
  | .selecting => (true, openLoop context clock locator)
  | .selectingNext | .active =>
    if locator = "" then (false, { context, clock })
    else (true, setBound { context with phase := .active } clock .tablePaginationNext locator)

/-- A click on what has a locator is used up. -/
theorem taken_used {locator : String} (h : locator ≠ "") :
    (taken context clock locator).1 = true := by
  unfold taken
  split <;> simp [h]

/-- A click locates one element, or none, before anything else. -/
theorem click_eq [Selector.Engine] (htarget : event.target = some i) :
    click settings context clock event = match wanted? settings context event i with
      | none => .ok (false, { context, clock })
      | some j => taken context clock <$> Locator.synthesize event.page (some j) none := by
  unfold click wanted? locateTable taken
  simp only [htarget]
  cases hphase : context.phase with
  | inactive =>
    cases hheld : context.modifierHeld with
    | false => rfl
    | true =>
      dsimp only
      cases Interaction.findTable settings event.page i with
      | none => rfl
      | some table =>
        dsimp only
        cases Locator.synthesize event.page (some table) none <;> rfl
  | selecting =>
    dsimp only
    cases Interaction.findTable settings event.page i with
    | none => rfl
    | some table =>
      dsimp only
      cases Locator.synthesize event.page (some table) none <;> rfl
  | selectingNext =>
    dsimp only
    split
    · dsimp only
      cases Locator.synthesize event.page (some i) none with
      | error e => rfl
      | ok locator =>
        simp only [bind, Except.bind, Functor.map, Except.map]
        split <;> rfl
    · rfl
  | active => rfl

end TableLoop

/-! ## The state of the loops -/

/-- What the recording of loops depends on. -/
structure LoopState where
  phase : Phase
  subject : Option String
  marked : Option String
  bounds : List (Kind × String)

/-- The part of it that is no log. -/
def Context.loopState (context : Context) (bounds : List (Kind × String)) : LoopState :=
  { phase := context.phase, subject := context.subject, marked := context.markedTable, bounds }

/-- What a gesture of the table loop leads to, with its bound added to those before it. -/
def TableLoop.Outcome.loopState (o : TableLoop.Outcome) (before : List (Kind × String)) :
    LoopState :=
  o.context.loopState (before ++ bounds o.bound.toList)

/-- The part of a session that loops depend on. -/
def Session.loopState (s : Session) : LoopState := s.context.loopState (bounds s.log.actions)

/-- What one move can do to the recording of loops. The locators that it may bring in are those
for which `located` holds. -/
inductive LoopStep (located : String → Prop) (s : LoopState) : LoopState → Prop where
  | stay : LoopStep located s s
  /-- A recording begins. -/
  | reset : LoopStep located s
      { phase := .inactive, subject := none, marked := none, bounds := [] }
  /-- A loop is asked for. -/
  | ask : s.phase = .inactive → LoopStep located s { s with phase := .selecting }
  /-- That is taken back. -/
  | cancel : s.phase = .selecting → LoopStep located s { s with phase := .inactive }
  /-- A table is marked, or the mark is taken away. -/
  | mark (marked : Option String) : (∀ locator ∈ marked, located locator) →
      LoopStep located s { s with marked }
  /-- A table is picked. -/
  | pick (subject : String) : s.phase = .selecting → subject ≠ "" → located subject →
      LoopStep located s { s with
        phase := .selectingNext, subject := some subject
        bounds := s.bounds ++ [(.tableLoopStart, subject)] }
  /-- The marked table is picked. -/
  | pickMarked (subject : String) : s.phase = .inactive → subject ≠ "" →
      s.marked = some subject →
      LoopStep located s { s with
        phase := .selectingNext, subject := some subject, marked := none
        bounds := s.bounds ++ [(.tableLoopStart, subject)] }
  /-- The control for the next page is picked. -/
  | paginate (locator : String) : s.phase = .selectingNext →
      LoopStep located s { s with
        phase := .active, bounds := s.bounds ++ [(.tablePaginationNext, locator)] }
  /-- No control is picked. -/
  | skip : s.phase = .selectingNext → LoopStep located s { s with phase := .active }
  /-- The loop ends. -/
  | close (subject : String) : s.phase.loopOpen = true → s.subject = some subject →
      LoopStep located s { s with
        phase := .inactive, subject := none
        bounds := s.bounds ++ [(.tableLoopEnd, subject)] }
  /-- A loop without a table would end without a bound. -/
  | closeEmpty : s.phase.loopOpen = true → s.subject.filter (· != "") = none →
      LoopStep located s { s with phase := .inactive, subject := none }

/-! ## Gestures of the table loop -/

namespace TableLoop

theorem loopState_of_no_bound (context : Context) (clock : Clock) (before : List (Kind × String)) :
    ({ context, clock } : Outcome).loopState before = context.loopState before := by
  simp [Outcome.loopState]

theorem loopState_setBound (context : Context) (clock : Clock) {kind : Kind}
    (hkind : kind.isBoundary = true) (locator : String) (before : List (Kind × String)) :
    (setBound context clock kind locator).loopState before
      = context.loopState (before ++ [(kind, locator)]) := by
  rw [Outcome.loopState, setBound, Option.toList_some, bounds_singleton rfl hkind]

variable (located : String → Prop) (context : Context) (clock : Clock)
  (before : List (Kind × String))

theorem loopStep_toggle :
    LoopStep located (context.loopState before) ((toggle context clock).loopState before) := by
  unfold toggle
  cases hphase : context.phase with
  | inactive =>
    rw [loopState_of_no_bound]
    exact .ask hphase
  | selecting =>
    rw [loopState_of_no_bound]
    exact .cancel hphase
  | selectingNext | active =>
    have hopen : context.phase.loopOpen = true := by
      rw [hphase]
      rfl
    dsimp only
    cases hsubject : context.subject.filter (· != "") with
    | none =>
      rw [loopState_of_no_bound]
      exact .closeEmpty hopen hsubject
    | some subject =>
      dsimp only
      rw [loopState_setBound _ _ rfl]
      exact .close subject hopen (Option.filter_eq_some_iff.1 hsubject).1

theorem loopStep_skipPagination :
    LoopStep located (context.loopState before) ((skipPagination context).loopState before) := by
  unfold skipPagination
  by_cases hphase : context.phase = .selectingNext
  · rw [if_pos hphase]
    exact .skip hphase
  · rw [if_neg hphase]
    exact .stay

/-- A loop begins over a table with a locator, and over no other. -/
theorem loopState_openLoop {subject : String} (hne : subject ≠ "") :
    (openLoop context clock subject).loopState before
      = { context.loopState before with
          phase := .selectingNext, subject := some subject
          bounds := before ++ [(.tableLoopStart, subject)] } := by
  rw [openLoop, if_neg hne, loopState_setBound _ _ rfl]
  rfl

theorem loopStep_releaseModifier :
    LoopStep located (context.loopState before)
      ((releaseModifier context clock).1.loopState before) := by
  have hunmarked : LoopStep located (context.loopState before)
      (({ context := { context with
          modifierHeld := false, highlightedTable := none, markedTable := none }
          clock } : Outcome).loopState before) := by
    rw [loopState_of_no_bound]
    exact .mark none (by simp)
  unfold releaseModifier
  cases hmark : context.markedTable with
  | none => exact hunmarked
  | some subject =>
    dsimp only
    by_cases hphase : context.phase = .inactive
    · rw [if_pos hphase]
      by_cases hne : subject = ""
      · rw [openLoop, if_pos hne]
        exact hunmarked
      · rw [loopState_openLoop _ _ _ hne]
        exact .pickMarked subject hphase hne hmark
    · rw [if_neg hphase]
      exact hunmarked

/-- The locators of what the target of an event is, or lies in. -/
def AroundTarget (event : Event) (locator : String) : Prop :=
  ∃ i, event.target = some i ∧ ∃ table ∈ event.page.ancestors i,
    Locator.synthesize event.page (some table) none = .ok locator

/-- What a click can lead to in the table loop, and whether it is used up by that. -/
inductive Clicked (event : Event) : Bool → Outcome → Prop where
  | unused : Clicked event false { context, clock }
  /-- A table is marked, or the mark is taken away if the locator of the table is empty. -/
  | marked (marked : Option String) : context.phase = .inactive → context.modifierHeld = true →
      AroundTarget event (marked.getD "") →
      Clicked event marked.isSome { context := { context with markedTable := marked }, clock }
  | picked (subject : String) : context.phase = .selecting → AroundTarget event subject →
      Clicked event true (openLoop context clock subject)
  | paginated (locator : String) : context.phase = .selectingNext → locator ≠ "" →
      Clicked event true
        (setBound { context with phase := .active } clock .tablePaginationNext locator)

/-- What becomes of a click that locates something is as the phase has it. -/
theorem clicked_taken {settings : Settings} {event : Event} {i j : Nat} {locator : String}
    (hwanted : wanted? settings context event i = some j) (hlocated : AroundTarget event locator) :
    Clicked context clock event (taken context clock locator).1
      (taken context clock locator).2 := by
  unfold taken
  split
  · next hphase =>
    have hheld : context.modifierHeld = true := by
      by_contra hnot
      simp [wanted?, hphase, hnot] at hwanted
    refine .marked _ hphase hheld ?_
    by_cases hempty : locator = ""
    · simpa [hempty] using hlocated
    · simpa [hempty] using hlocated
  · next hphase => exact .picked locator hphase hlocated
  · next hphase =>
    by_cases hempty : locator = ""
    · rw [if_pos hempty]
      exact .unused
    · rw [if_neg hempty]
      exact .paginated locator hphase hempty
  · next hphase => simp [wanted?, hphase] at hwanted

theorem clicked_of_click {settings : Settings} {event : Event} {used : Bool} {o : Outcome}
    (h : click settings context clock event = .ok (used, o)) :
    Clicked context clock event used o := by
  cases htarget : event.target with
  | none =>
    simp only [click, htarget] at h
    obtain ⟨rfl, rfl⟩ := Prod.mk.inj (Except.ok.inj h)
    exact .unused
  | some i =>
    rw [click_eq htarget] at h
    split at h
    · obtain ⟨rfl, rfl⟩ := Prod.mk.inj (Except.ok.inj h)
      exact .unused
    · next j hwanted =>
      obtain ⟨locator, hlocator, htaken⟩ := map_eq_ok_iff.1 h
      have hclicked := clicked_taken context clock hwanted
        ⟨i, htarget, j, mem_ancestors_of_wanted? hwanted, hlocator⟩
      rwa [htaken] at hclicked

theorem Clicked.loopStep {event : Event} {used : Bool} {o : Outcome}
    (h : Clicked context clock event used o) :
    LoopStep (AroundTarget event) (context.loopState before) (o.loopState before) := by
  cases h with
  | unused =>
    rw [loopState_of_no_bound]
    exact .stay
  | marked marked _ _ hmarked =>
    rw [loopState_of_no_bound]
    refine .mark marked ?_
    rintro locator ⟨⟩
    exact hmarked
  | picked subject hphase hsubject =>
    by_cases hempty : subject = ""
    · rw [openLoop, if_pos hempty, loopState_of_no_bound]
      exact .stay
    · rw [loopState_openLoop _ _ _ hempty]
      exact .pick subject hphase hempty hsubject
  | paginated locator hphase _ =>
    rw [loopState_setBound _ _ rfl]
    exact .paginate locator hphase

/-- A click that is not used up sets no bound. -/
theorem Clicked.bound_eq_none {event : Event} {o : Outcome}
    (h : Clicked context clock event false o) : o.bound = none := by
  generalize hused : false = used at h
  cases h with
  | unused => rfl
  | marked _ _ _ _ => rfl
  | picked _ _ _ => exact absurd hused (by decide)
  | paginated _ _ _ => exact absurd hused (by decide)

/-- In an open loop, a click that is not used up changes nothing. -/
theorem Clicked.context_eq {event : Event} {o : Outcome}
    (h : Clicked context clock event false o) (hopen : context.phase.loopOpen = true) :
    o.context = context := by
  generalize hused : false = used at h
  cases h with
  | unused => rfl
  | marked marked hphase _ _ =>
    rw [hphase] at hopen
    exact absurd hopen (by decide)
  | picked _ _ _ => exact absurd hused (by decide)
  | paginated _ _ _ => exact absurd hused (by decide)

end TableLoop

/-! ## Moves of a session -/

namespace Session

variable (s : Session)

/-- Leaving a write for later changes neither the context nor the log. -/
theorem persist_frame (a : Action Json) (coalesce : Bool) :
    (s.persist a coalesce).1.context = s.context ∧ (s.persist a coalesce).1.log = s.log := by
  unfold persist
  split
  · exact ⟨rfl, rfl⟩
  · split <;> exact ⟨rfl, rfl⟩

/-- A gesture of the table loop is taken over with its context. -/
theorem context_absorb (o : TableLoop.Outcome) : (s.absorb o).1.context = o.context := by
  unfold absorb
  split
  · rfl
  · exact (persist_frame ..).1

theorem logBefore_actions : s.logBefore.actions = s.log.actions := by
  unfold logBefore
  split <;> rfl

/-- A record goes to the end of the log, and changes nothing else that counts for loops. -/
theorem loopState_record {a : Action Json} {coalesce : Bool}
    (h : coalesce = true → a.kind.isBoundary = false) :
    (s.record a coalesce).1.loopState
      = s.context.loopState (bounds s.log.actions ++ bounds [a]) := by
  obtain ⟨hcontext, hlog⟩ := persist_frame { s with log := s.logBefore.push a coalesce }
    (s.logBefore.entry a coalesce) coalesce
  rw [loopState, record, hcontext, hlog, Log.bounds_push h, logBefore_actions]

/-- A gesture of the table loop is taken over with its bound. -/
theorem loopState_absorb (o : TableLoop.Outcome) :
    (s.absorb o).1.loopState = o.loopState (bounds s.log.actions) := by
  unfold absorb TableLoop.Outcome.loopState
  cases o.bound with
  | none => simp [loopState]
  | some a => exact loopState_record _ (by simp)

/-- An action that is no bound leaves the loops alone. -/
theorem loopState_recordOn {kind : Kind} (hkind : kind.isBoundary = false) (page : Page) (i : Nat)
    (value : Option Json) (coalesce : Bool) :
    (s.recordOn page i kind value coalesce).session.loopState = s.loopState := by
  unfold recordOn
  split
  · rfl
  · split
    · rfl
    · refine (loopState_record _ fun _ => hkind).trans ?_
      rw [bounds_singleton_of_work (by exact hkind), List.append_nil]
      rfl

theorem loopState_noteUrl (url : String) : (s.noteUrl url).loopState = s.loopState := by
  rw [noteUrl_eq]
  rfl

theorem loopState_hovered (event : Event) : (s.hovered event).session.loopState = s.loopState := by
  unfold hovered
  split
  · rfl
  · dsimp only
    split
    · split
      · split <;> rfl
      · rfl
    · rfl

theorem loopState_changed (event : Event) (i : Nat) :
    (s.changed event i).session.loopState = s.loopState := by
  unfold changed
  split
  · exact loopState_recordOn s rfl ..
  · exact loopState_recordOn s rfl ..
  · rfl

/-- A click steps through the loop, and what it records is no bound unless it is used up. -/
theorem loopStep_clicked (event : Event) (i : Nat) :
    LoopStep (TableLoop.AroundTarget event) s.loopState (s.clicked event i).session.loopState := by
  unfold clicked
  split
  · exact .stay
  · next o hclick =>
    have hstep := (TableLoop.clicked_of_click _ _ hclick).loopStep _ _ (bounds s.log.actions)
    rw [← loopState_absorb] at hstep
    exact hstep
  · next o hclick =>
    have hstep := (TableLoop.clicked_of_click _ _ hclick).loopStep _ _ (bounds s.log.actions)
    rw [← loopState_absorb] at hstep
    dsimp only
    split
    · rw [loopState_recordOn _ rfl]
      exact hstep
    · exact hstep

/-- Only the modifier does anything to the loop when it is released. -/
theorem loopStep_keyReleased (located : String → Prop) (key : String) :
    LoopStep located s.loopState (s.keyReleased key).session.loopState := by
  unfold keyReleased
  split
  · have hstep := TableLoop.loopStep_releaseModifier located s.context s.clock
      (bounds s.log.actions)
    rw [← loopState_absorb] at hstep
    exact hstep
  · split
    · split <;> exact .stay
    · exact .stay

/-- **One event.** It takes at most one step in the loop, over a table that lies around the
target. -/
theorem loopStep_handle (event : Event) :
    LoopStep (TableLoop.AroundTarget event) s.loopState (s.handle event).session.loopState := by
  unfold handle
  split
  · exact .stay
  · rw [← loopState_noteUrl s event.url]
    dsimp only
    split
    · split <;> exact .stay
    · exact loopStep_keyReleased ..
    · rw [loopState_hovered]
      exact .stay
    -- what is left are clicks and changes
    all_goals
      split
      · exact .stay
      · by_cases hclick : event.type = .click
        · rw [if_pos hclick]
          exact loopStep_clicked ..
        · rw [if_neg hclick, loopState_changed]
          exact .stay

theorem flush_frame : s.flush.1.context = s.context ∧ s.flush.1.log = s.log := by
  unfold flush
  split <;> exact ⟨rfl, rfl⟩

/-- The store is brought up to date without a change of the context and the log. -/
theorem updateStore_frame (ops : List (Store → Store.Outcome Unit)) :
    (s.updateStore ops).session.context = s.context
      ∧ (s.updateStore ops).session.log = s.log := by
  unfold updateStore
  split <;> exact ⟨rfl, rfl⟩

/-- A recording begins without loops, even if it fails to begin. -/
theorem loopState_start (baseUrl : Json) :
    (s.start baseUrl).session.loopState
      = { phase := .inactive, subject := none, marked := none, bounds := [] } := by
  obtain ⟨hcontext, hlog⟩ := updateStore_frame
    { s.flush.1 with context := { baseUrl }, log := s.flush.1.log.clear (.str "") }
    [Store.reset, fun store => store.setRecording (.bool true)]
  unfold start
  dsimp only
  split
  · rw [loopState, hlog, hcontext]
    rfl
  · rw [loopState, hlog, hcontext]
    rfl

/-- The end of a recording leaves the loops as they are. -/
theorem loopState_stop : s.stop.session.loopState = s.loopState := by
  have hflush := flush_frame { s with context := { s.context with recording := false } }
  have hstore := updateStore_frame
    { s with context := { s.context with recording := false } }.flush.1
    [fun store => store.setRecording (.bool false)]
  unfold stop
  dsimp only
  rw [loopState, hstore.1, hstore.2, hflush.1, hflush.2]
  rfl

/-- A label is no bound. -/
theorem loopState_assignLabel (name : String) :
    (s.assignLabel name).1.loopState = s.loopState := by
  unfold assignLabel
  split
  · next pinned _ =>
    dsimp only
    split
    · refine (loopState_record _ (by simp)).trans ?_
      rw [bounds_singleton_of_work rfl, List.append_nil]
      rfl
    · rfl
  · rfl

end Session

/-- The locators that a move may bring in. -/
def Move.Locates (m : Move) (locator : String) : Prop :=
  match m with
  | .event e => TableLoop.AroundTarget e locator
  | .start _ | .stop | .flush | .toggle | .skipPagination | .label _ => False

/-- **One move.** It changes the recording of loops by one step. -/
theorem Session.loopStep_play (s : Session) (m : Move) :
    LoopStep m.Locates s.loopState (s.play m).loopState := by
  cases m with
  | start baseUrl =>
    rw [play, loopState_start]
    exact .reset
  | stop =>
    rw [play, loopState_stop]
    exact .stay
  | flush =>
    obtain ⟨hcontext, hlog⟩ := s.flush_frame
    have hsame : s.flush.1.loopState = s.loopState := by
      rw [loopState, hcontext, hlog]
      rfl
    rw [play, hsame]
    exact .stay
  | event e => exact loopStep_handle s e
  | toggle =>
    rw [play, toggle]
    split
    · have hstep := TableLoop.loopStep_toggle Move.toggle.Locates s.context s.clock
        (bounds s.log.actions)
      rw [← loopState_absorb] at hstep
      exact hstep
    · exact .stay
  | skipPagination =>
    rw [play, skipPagination]
    split
    · exact TableLoop.loopStep_skipPagination ..
    · exact .stay
  | label name =>
    rw [play, loopState_assignLabel]
    exact .stay

/-! ## Tables along a run -/

/-- The tables of the open loop and of the mark are known by locators of some kind. -/
structure LoopState.Known (P : String → Prop) (s : LoopState) : Prop where
  subject : ∀ locator ∈ s.subject, P locator
  marked : ∀ locator ∈ s.marked, P locator

/-- **One step.** If the locators that come in are of the kind, tables stay known by such ones. -/
theorem LoopState.Known.step {P located : String → Prop} {s s' : LoopState} (h : s.Known P)
    (hlocated : ∀ locator, located locator → P locator) (hstep : LoopStep located s s') :
    s'.Known P := by
  cases hstep with
  | stay => exact h
  | reset => exact ⟨by simp, by simp⟩
  | ask _ => exact ⟨h.subject, h.marked⟩
  | cancel _ => exact ⟨h.subject, h.marked⟩
  | mark marked hmarked => exact ⟨h.subject, fun locator hl => hlocated _ (hmarked locator hl)⟩
  | pick subject _ _ hsubject =>
    refine ⟨?_, h.marked⟩
    rintro locator ⟨⟩
    exact hlocated _ hsubject
  | pickMarked subject _ _ hmarked =>
    refine ⟨?_, by simp⟩
    rintro locator ⟨⟩
    exact h.marked _ hmarked
  | paginate _ _ => exact ⟨h.subject, h.marked⟩
  | skip _ => exact ⟨h.subject, h.marked⟩
  | close _ _ _ => exact ⟨by simp, h.marked⟩
  | closeEmpty _ _ => exact ⟨by simp, h.marked⟩

/-- Along every run of moves that bring in locators of the kind only, tables are known by such
ones. -/
theorem Session.Reachable.known {P : String → Prop} {Q : Move → Prop} {s : Session}
    (h : s.Reachable Q) (hlocates : ∀ m, Q m → ∀ locator, m.Locates locator → P locator) :
    s.loopState.Known P := by
  obtain ⟨settings, clock, store, hasBackground, moves, hmoves, rfl⟩ := h
  refine playAll_induction (P := fun s => s.loopState.Known P) hmoves ⟨?_, ?_⟩ ?_
  · rintro locator ⟨⟩
  · rintro locator ⟨⟩
  · intro s m hm h
    exact h.step (hlocates m hm) (s.loopStep_play m)

end Retrace
