/-
What decides how a session goes on.

The address is written down with what is recorded, and the highlights are shown, but no event and no
control looks at either. So what comes of them depends on the rest of the session alone (`core`),
and of the store no more counts than whether there is one. Each operation is run on a session and on
its core, and comes to the same.
-/
import Retrace.Proofs.Recording.Run

set_option autoImplicit false

namespace Retrace

/-! ## The core of a session -/

/-- The context without the address and the highlights. -/
def Context.core (context : Context) : Context :=
  { context with baseUrl := .str "", highlightedTable := none, highlightedElement := none }

/-- The session without its address, wherever that is kept, and without the highlights. Of the store
no more is left than that there is one. -/
def Session.core (s : Session) : Session :=
  { s with
    context := s.context.core
    log := { s.log with baseUrl := .str "" }
    store := s.store.map fun _ => .emptyMemory
    pending := s.pending.map fun w => { w with baseUrl := .str "" } }

/-! ## Gestures of the table loop -/

namespace TableLoop

def Outcome.core (o : Outcome) : Outcome := { o with context := o.context.core }

variable (context : Context) (clock : Clock)

/-- What is shown on the page does not matter to the beginning of a loop. -/
theorem core_openLoop (subject : String) :
    (openLoop context.core clock subject).core = (openLoop context clock subject).core := by
  unfold openLoop
  split <;> rfl

theorem core_toggle : (toggle context.core clock).core = (toggle context clock).core := by
  unfold toggle Context.core
  dsimp only
  split
  · rfl
  · rfl
  all_goals split <;> rfl

theorem core_skipPagination :
    (skipPagination context.core).core = (skipPagination context).core := by
  unfold skipPagination Context.core
  dsimp only
  split <;> rfl

theorem core_releaseModifier :
    (releaseModifier context.core clock).1.core = (releaseModifier context clock).1.core := by
  unfold releaseModifier Context.core
  dsimp only
  split
  · rfl
  · split
    · exact core_openLoop { context with
        modifierHeld := false, highlightedTable := none, markedTable := none } clock _
    · rfl

/-- What becomes of a click depends on the phase, and on nothing that is shown. -/
theorem core_taken (locator : String) :
    ((taken context.core clock locator).1, (taken context.core clock locator).2.core)
      = ((taken context clock locator).1, (taken context clock locator).2.core) := by
  have hphase : context.core.phase = context.phase := rfl
  unfold taken
  rw [hphase]
  split
  · rfl
  · exact congrArg (true, ·) (core_openLoop context clock locator)
  all_goals split <;> rfl

/-- A click looks at what is hit and at the phase, and at nothing that is shown. -/
theorem core_click (settings : Settings) (event : Event) :
    (fun r => (r.1, r.2.core)) <$> click settings context.core clock event
      = (fun r => (r.1, r.2.core)) <$> click settings context clock event := by
  have hwanted (i : Nat) :
      wanted? settings context.core event i = wanted? settings context event i := rfl
  cases htarget : event.target with
  | none =>
    unfold click
    simp only [htarget]
    rfl
  | some i =>
    rw [click_eq htarget, click_eq htarget, hwanted]
    split
    · rfl
    · next j _ =>
      cases Locator.synthesize event.page (some j) none with
      | error e => rfl
      | ok locator => exact congrArg Except.ok (core_taken context clock locator)

end TableLoop

/-! ## Events and controls -/

namespace Session

/-- What has been left out stays out. -/
@[simp] theorem core_core (s : Session) : s.core.core = s.core := by
  unfold core Context.core
  simp only [Option.map_map, List.map_map]
  rfl

/-- What comes back, and the core of the session that is left. -/
def Outcome.core {ε α : Type} (o : Outcome ε α) : Except ε α × Session :=
  (o.result, o.session.core)

/-- The write of an action is put off in the same way, whatever is shown. -/
theorem core_persist (s : Session) (a : Action Json) (coalesce : Bool) :
    (s.core.persist a coalesce).1.core = (s.persist a coalesce).1.core := by
  have hnone : s.core.store.isNone = s.store.isNone := by
    cases hstore : s.store <;> simp [core, hstore]
  unfold persist
  rw [hnone]
  split
  · exact s.core_core
  · show (if s.hasBackground then _ else _ : Session × List Notice).1.core = _
    split
    · unfold core Context.core
      simp only [Option.map_map, List.map_map, List.map_append]
      rfl
    · exact s.core_core

/-- The same entry is stored, and the same log is left. -/
theorem core_record (s : Session) (a : Action Json) (coalesce : Bool) :
    (s.core.record a coalesce).1.core = (s.record a coalesce).1.core
      ∧ (s.core.record a coalesce).2.1 = (s.record a coalesce).2.1 := by
  have hbefore : s.core.logBefore.actions = s.logBefore.actions := by
    rw [logBefore_actions, logBefore_actions]
    rfl
  have hentry : s.core.logBefore.entry a coalesce = s.logBefore.entry a coalesce := by
    rw [Log.entry, Log.entry, hbefore]
  have hpush : ({ s.core with log := s.core.logBefore.push a coalesce } : Session).core
      = ({ s with log := s.logBefore.push a coalesce } : Session).core := by
    unfold Log.push
    rw [hentry, hbefore]
    have hcore := s.core_core
    unfold core at hcore ⊢
    simp only [Session.mk.injEq] at hcore ⊢
    simp [hcore]
  refine ⟨?_, hentry⟩
  unfold record
  dsimp only
  rw [hentry, ← core_persist, hpush, core_persist]

/-- A context that is put into a session counts by its core. -/
theorem core_withContext {s t : Session} (hst : s.core = t.core) {context context' : Context}
    (h : context.core = context'.core) {clock clock' : Clock} (hclock : clock = clock') :
    ({ s with context, clock } : Session).core
      = ({ t with context := context', clock := clock' } : Session).core := by
  unfold core at hst ⊢
  simp only [Session.mk.injEq] at hst ⊢
  simp [hst, h, hclock]

/-- Gestures that come to the same are taken over alike. -/
theorem core_absorb (s : Session) {o o' : TableLoop.Outcome} (ho : o.core = o'.core) :
    (s.core.absorb o).1.core = (s.absorb o').1.core := by
  obtain ⟨context, clock, bound⟩ := o
  obtain ⟨context', clock', bound'⟩ := o'
  obtain ⟨hcontext, rfl, rfl⟩ := TableLoop.Outcome.mk.inj ho
  have hmoved := core_withContext s.core_core hcontext (Eq.refl clock)
  unfold absorb
  cases bound with
  | none => exact hmoved
  | some a =>
    dsimp only
    rw [← (core_record _ a false).1, hmoved, (core_record _ a false).1]

/-- The locator of an element depends on the open loop only, and so does what is recorded on it. -/
theorem core_recordOn (s : Session) (page : Page) (i : Nat) (kind : Kind) (value : Option Json)
    (coalesce : Bool) :
    (s.core.recordOn page i kind value coalesce).core
      = (s.recordOn page i kind value coalesce).core := by
  have hlocate : locate s.core.context page i = locate s.context page i := rfl
  have hsame := s.core_core
  unfold recordOn
  rw [hlocate]
  split
  · exact Prod.ext rfl hsame
  · next locator _ =>
    split
    · exact Prod.ext rfl hsame
    · have hrecord := core_record { s with clock := s.clock.next }
        { kind, locator, value, timestamp := s.clock.now } coalesce
      exact Prod.ext (congrArg (fun stored => Except.ok (some stored)) hrecord.2) hrecord.1

theorem core_keyReleased (s : Session) (key : String) :
    (s.core.keyReleased key).core = (s.keyReleased key).core := by
  unfold keyReleased
  split
  · have hreleased := TableLoop.core_releaseModifier s.context s.clock
    have hbound := congrArg TableLoop.Outcome.bound hreleased
    exact Prod.ext (congrArg Except.ok (id hbound)) (s.core_absorb hreleased)
  · split
    · refine Prod.ext rfl (core_withContext s.core_core ?_ rfl)
      show (if s.context.labelMode then _ else _ : Context).core = _
      split <;> rfl
    · exact Prod.ext rfl s.core_core

/-- A movement of the pointer sets what is shown, whatever it was before, and pins the same
element. -/
theorem core_hovered (s : Session) (event : Event) :
    (s.core.hovered event).core = (s.hovered event).core := by
  have hsettings : s.core.settings = s.settings := rfl
  unfold hovered
  dsimp only
  rw [hsettings]
  split
  · exact Prod.ext rfl (core_withContext s.core_core rfl rfl)
  · next i _ =>
    -- of what was shown before nothing is left, so but for the address the contexts are one
    have hhover : TableLoop.hover s.settings
        { s.core.context with highlightedElement := none } event
          = { TableLoop.hover s.settings { s.context with highlightedElement := none } event with
              baseUrl := .str "" } := rfl
    rw [hhover]
    generalize TableLoop.hover s.settings { s.context with highlightedElement := none } event
      = context
    have hlocate : locate { context with baseUrl := .str "" } event.page i
        = locate context event.page i := rfl
    rw [hlocate]
    dsimp only
    split
    · split
      · split
        · exact Prod.ext rfl (core_withContext s.core_core rfl rfl)
        · exact Prod.ext rfl (core_withContext s.core_core rfl rfl)
      · exact Prod.ext rfl (core_withContext s.core_core rfl rfl)
    · exact Prod.ext rfl (core_withContext s.core_core rfl rfl)

/-- A click is used up by the loop, or recorded, whatever is shown. -/
theorem core_clicked (s : Session) (event : Event) (i : Nat) :
    (s.core.clicked event i).core = (s.clicked event i).core := by
  have hclick := TableLoop.core_click s.context s.clock s.settings event
  have hsettings : s.core.settings = s.settings := rfl
  have hclock : s.core.clock = s.clock := rfl
  have hcontext : s.core.context = s.context.core := rfl
  unfold clicked
  rw [hsettings, hclock, hcontext]
  generalize TableLoop.click s.settings s.context.core s.clock event = click' at hclick ⊢
  generalize TableLoop.click s.settings s.context s.clock event = click at hclick ⊢
  cases click' with
  | error e' =>
    cases click with
    | error e =>
      obtain rfl : e' = e := Except.error.inj hclick
      exact Prod.ext rfl s.core_core
    | ok r => cases hclick
  | ok r' =>
    cases click with
    | error e => cases hclick
    | ok r =>
      obtain ⟨used', o'⟩ := r'
      obtain ⟨used, o⟩ := r
      obtain ⟨rfl, ho⟩ := Prod.mk.inj (Except.ok.inj hclick)
      have habsorb : (s.core.absorb o').1.core = (s.absorb o).1.core := s.core_absorb ho
      have hsettings : (s.core.absorb o').1.settings = (s.absorb o).1.settings :=
        (congrArg Session.settings habsorb :)
      cases used' with
      | true => exact Prod.ext rfl habsorb
      | false =>
        dsimp only
        rw [hsettings]
        split
        · rw [← core_recordOn, habsorb, core_recordOn]
        · exact Prod.ext rfl habsorb

theorem core_changed (s : Session) (event : Event) (i : Nat) :
    (s.core.changed event i).core = (s.changed event i).core := by
  have hsettings : s.core.settings = s.settings := rfl
  unfold changed
  rw [hsettings]
  split
  · exact core_recordOn ..
  · exact core_recordOn ..
  · exact Prod.ext rfl s.core_core

theorem core_noteUrl (s : Session) (url : String) : (s.noteUrl url).core = s.core := by
  rw [noteUrl_eq]
  rfl

/-- **One event.** What it does to the session does not depend on what is shown. -/
theorem core_handle (s : Session) (event : Event) :
    (s.core.handle event).core = (s.handle event).core := by
  have hrecording : s.core.context.recording = s.context.recording := rfl
  have hnoted : (s.core.noteUrl event.url).core = (s.noteUrl event.url).core := by
    rw [core_noteUrl, core_noteUrl, core_core]
  unfold handle
  rw [hrecording]
  split
  · exact Prod.ext rfl s.core_core
  · dsimp only
    generalize s.core.noteUrl event.url = noted' at hnoted ⊢
    generalize s.noteUrl event.url = noted at hnoted ⊢
    have hclock : noted'.clock = noted.clock := (congrArg Session.clock hnoted :)
    have htarget : (event.target.filter fun i =>
          !Interaction.isIgnored noted'.settings event.page i)
        = event.target.filter fun i => !Interaction.isIgnored noted.settings event.page i :=
      (congrArg (fun s => event.target.filter fun i =>
        !Interaction.isIgnored (Session.settings s) event.page i) hnoted :)
    rw [htarget]
    split
    · split
      · have hheld : (TableLoop.holdModifier noted'.context).core
            = (TableLoop.holdModifier noted.context).core :=
          (congrArg (fun s => { Session.context s with modifierHeld := true }) hnoted :)
        exact Prod.ext rfl (core_withContext hnoted hheld hclock)
      · exact Prod.ext rfl hnoted
    · rw [← core_keyReleased, hnoted, core_keyReleased]
    · rw [← core_hovered, hnoted, core_hovered]
    all_goals
      split
      · exact Prod.ext rfl hnoted
      · by_cases hclick : event.type = .click
        · rw [if_pos hclick, if_pos hclick, ← core_clicked, hnoted, core_clicked]
        · rw [if_neg hclick, if_neg hclick, ← core_changed, hnoted, core_changed]

theorem core_toggle (s : Session) :
    s.core.toggle.1.core = s.toggle.1.core ∧ s.core.toggle.2.1 = s.toggle.2.1 := by
  have hrecording : s.core.context.recording = s.context.recording := rfl
  have htoggle := TableLoop.core_toggle s.context s.clock
  unfold toggle
  rw [hrecording]
  split
  · exact ⟨s.core_absorb htoggle, (congrArg TableLoop.Outcome.bound htoggle :)⟩
  · exact ⟨s.core_core, rfl⟩

theorem core_skipPagination (s : Session) :
    s.core.skipPagination.core = s.skipPagination.core := by
  have hrecording : s.core.context.recording = s.context.recording := rfl
  unfold skipPagination
  rw [hrecording]
  split
  · exact core_withContext s.core_core (TableLoop.core_skipPagination s.context) rfl
  · exact s.core_core

/-- A label goes to the pinned element, which is no part of what is shown. -/
theorem core_assignLabel (s : Session) (name : String) :
    (s.core.assignLabel name).1.core = (s.assignLabel name).1.core
      ∧ (s.core.assignLabel name).2.1 = (s.assignLabel name).2.1 := by
  have hpinned : s.core.context.pinned = s.context.pinned := rfl
  have hrecording : s.core.context.recording = s.context.recording := rfl
  unfold assignLabel
  dsimp only
  rw [hpinned, hrecording]
  split
  · next pinned _ =>
    split
    · have hrecord := core_record { s with clock := s.clock.next }
        { kind := .label, locator := pinned.locator, value := some (.str pinned.text)
          label := some (Text.strip name), timestamp := s.clock.now } false
      refine ⟨core_withContext hrecord.1 ?_ ?_, congrArg some hrecord.2⟩
      · exact (congrArg (fun s => { Session.context s with labelMode := false, pinned := none })
          hrecord.1 :)
      · exact (congrArg Session.clock hrecord.1 :)
    · exact ⟨s.core_core, rfl⟩
  · exact ⟨s.core_core, rfl⟩

end Session

end Retrace
