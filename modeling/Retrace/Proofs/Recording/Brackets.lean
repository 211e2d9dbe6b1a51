/-
Recorded bounds are brackets.

Starts of loops come from two gestures and the other bounds from several more, and all of them are
mixed with edits that replace one another, with labels and with new beginnings. Yet in every log
that is recorded each loop begins, possibly has its control for the next page, and ends, before
the next one begins; and the session knows the loop that has not ended. So a plan of the log
leaves nothing out.
-/
import Retrace.Proofs.Plan.Outline
import Retrace.Proofs.Recording.Run

set_option autoImplicit false

namespace Retrace

/-! ## The invariant -/

/-- The bounds are those of the loops that are done, in a row, and of the last one as far as it has
come. The session knows the last one by its phase and its table. -/
structure LoopState.Bracketed (s : LoopState) (done : List Span) (last : Option Span) : Prop where
  bounds : s.bounds = done.flatMap Span.whole ++ last.toList.flatMap Span.opening
  phase : s.phase.loopOpen = last.isSome
  subject : s.subject = last.map Span.subject
  named : ∀ l ∈ last, l.subject ≠ ""
  /-- While the control for the next page is looked for, none has been picked. -/
  unpaged : s.phase = .selectingNext → ∀ l ∈ last, l.next = none

namespace LoopState.Bracketed

variable {s : LoopState} {done : List Span} {last : Option Span}

theorem last_eq_none (h : s.Bracketed done last) (hphase : s.phase.loopOpen = false) :
    last = none := by
  have hlast := h.phase
  rw [hphase] at hlast
  exact Option.isNone_iff_eq_none.1 (Option.isSome_eq_false_iff.1 hlast.symm)

/-- While a loop is open, the last bounds are its own. -/
theorem exists_last (h : s.Bracketed done last) (hphase : s.phase.loopOpen = true) :
    ∃ l, last = some l := by
  have hlast := h.phase
  rw [hphase] at hlast
  exact Option.isSome_iff_exists.1 hlast.symm

/-- Where no loop is open, one may begin. -/
theorem begin (h : s.Bracketed done last) (hphase : s.phase.loopOpen = false) {subject : String}
    (hne : subject ≠ "") (marked : Option String) :
    LoopState.Bracketed
      { phase := .selectingNext, subject := some subject, marked
        bounds := s.bounds ++ [(.tableLoopStart, subject)] } done (some { subject }) := by
  obtain rfl := h.last_eq_none hphase
  refine ⟨?_, rfl, rfl, ?_, ?_⟩
  · simp [h.bounds, Span.opening]
  · rintro l ⟨⟩
    exact hne
  · rintro - l ⟨⟩
    rfl

/-- **One step.** Brackets stay brackets. -/
theorem step {located : String → Prop} {s' : LoopState} (h : s.Bracketed done last)
    (hstep : LoopStep located s s') : ∃ done' last', s'.Bracketed done' last' := by
  cases hstep with
  | stay => exact ⟨done, last, h⟩
  | reset =>
    refine ⟨[], none, rfl, rfl, rfl, by simp, by simp⟩
  | ask hphase =>
    obtain rfl := h.last_eq_none (by rw [hphase]; rfl)
    exact ⟨done, none, h.bounds, rfl, h.subject, by simp, by simp⟩
  | cancel hphase =>
    obtain rfl := h.last_eq_none (by rw [hphase]; rfl)
    exact ⟨done, none, h.bounds, rfl, h.subject, by simp, by simp⟩
  | mark marked _ => exact ⟨done, last, h.bounds, h.phase, h.subject, h.named, h.unpaged⟩
  | pick subject hphase hne _ => exact ⟨_, _, h.begin (by rw [hphase]; rfl) hne _⟩
  | pickMarked subject hphase hne _ => exact ⟨_, _, h.begin (by rw [hphase]; rfl) hne _⟩
  | paginate locator hphase =>
    obtain ⟨l, rfl⟩ := h.exists_last (by rw [hphase]; rfl)
    -- no control has been picked before, so this is the only one of the loop
    have hnext := h.unpaged hphase l rfl
    refine ⟨done, some { l with next := some locator }, ?_, rfl, h.subject, ?_, by simp⟩
    · simp [h.bounds, Span.opening, hnext]
    · rintro _ ⟨⟩
      exact h.named l rfl
  | skip hphase =>
    obtain ⟨l, rfl⟩ := h.exists_last (by rw [hphase]; rfl)
    exact ⟨done, some l, h.bounds, rfl, h.subject, h.named, by simp⟩
  | close subject hopen hsubject =>
    obtain ⟨l, rfl⟩ := h.exists_last hopen
    obtain rfl : l.subject = subject := by simpa [h.subject] using hsubject
    refine ⟨done ++ [l], none, ?_, rfl, rfl, by simp, by simp⟩
    simp [h.bounds, Span.whole]
  | closeEmpty hopen hsubject =>
    -- an open loop has a table with a locator, so it does not end like this
    obtain ⟨l, rfl⟩ := h.exists_last hopen
    rw [h.subject] at hsubject
    simp [h.named l rfl] at hsubject

end LoopState.Bracketed

/-- **A run.** Whatever moves are made, the bounds in the log are those of whole loops and the open
one. -/
theorem Session.bracketed_playAll (settings : Settings) (clock : Clock) (store : Option Store)
    (hasBackground : Bool) (moves : List Move) :
    ∃ done last, LoopState.Bracketed
      ((fresh settings clock store hasBackground).playAll moves).loopState done last := by
  refine playAll_induction (P := fun s => ∃ done last, s.loopState.Bracketed done last)
    (Q := fun _ => True) (fun _ _ => trivial) ?_ ?_
  · exact ⟨[], none, rfl, rfl, rfl, by simp, by simp⟩
  · rintro s m - ⟨done, last, h⟩
    exact h.step (s.loopStep_play m)

/-! ## Starts -/

theorem countP_tableLoopStart {α : Type} (actions : List (Action α)) :
    actions.countP (·.kind == .tableLoopStart)
      = (bounds actions).countP (·.1 == .tableLoopStart) := by
  rw [bounds, List.countP_map, List.countP_filter]
  refine List.countP_congr fun a _ => ?_
  cases hkind : a.kind <;> simp [hkind, Kind.isBoundary]

theorem countP_opening (l : Span) : l.opening.countP (·.1 == .tableLoopStart) = 1 := by
  obtain ⟨subject, next⟩ := l
  cases next <;> rfl

/-- Brackets have as many starts as loops. -/
theorem countP_brackets (done : List Span) (last : Option Span) :
    (done.flatMap Span.whole ++ last.toList.flatMap Span.opening).countP
        (·.1 == .tableLoopStart) = (done ++ last.toList).length := by
  have hdone : (done.flatMap Span.whole).countP (·.1 == .tableLoopStart) = done.length := by
    induction done with
    | nil => rfl
    | cons l rest ih =>
      rw [List.flatMap_cons, List.countP_append, ih, Span.whole, List.countP_append,
        countP_opening, List.length_cons]
      have hend : [(Kind.tableLoopEnd, l.subject)].countP (·.1 == .tableLoopStart) = 0 := rfl
      omega
  cases last with
  | none => simpa using hdone
  | some l => simp [hdone, countP_opening]

/-! ## Every log -/

/-- **Recorded bounds are brackets.** In the log of every run, loops begin and end one after the
other, each end under the locator of its start. A last loop has not ended exactly while the session
is in one, and its table is that of the session. The plan of the log leaves no bound out, and has
one loop for every start. -/
theorem Session.brackets_of_playAll (settings : Settings) (clock : Clock) (store : Option Store)
    (hasBackground : Bool) (moves : List Move) :
    let s := (fresh settings clock store hasBackground).playAll moves
    let plan := (Plan.ofActions s.log.actions s.log.baseUrl).1
    ∃ (done : List Span) (last : Option Span),
      bounds s.log.actions = done.flatMap Span.whole ++ last.toList.flatMap Span.opening
        ∧ (last.isSome = true ↔ s.context.phase = .selectingNext ∨ s.context.phase = .active)
        ∧ s.context.subject = last.map Span.subject
        ∧ plan.skipped = 0
        ∧ plan.loops.map Loop.span = done ++ last.toList
        ∧ plan.loops.length = s.log.actions.countP (·.kind == .tableLoopStart) := by
  intro s plan
  obtain ⟨done, last, h⟩ := bracketed_playAll settings clock store hasBackground moves
  have hbounds : bounds s.log.actions
      = done.flatMap Span.whole ++ last.toList.flatMap Span.opening := h.bounds
  obtain ⟨accepted, hall⟩ := Outline.foldl_step_brackets done last
  have houtline : outline s.log.actions = { closed := done, opened := last, accepted } := by
    rw [outline, hbounds, hall]
  obtain ⟨hskipped, hloops⟩ := Plan.ofActions_outline s.log.actions s.log.baseUrl
  rw [houtline] at hskipped hloops
  refine ⟨done, last, hbounds, ?_, h.subject, hskipped, hloops, ?_⟩
  · have hphase : s.context.phase.loopOpen = last.isSome := h.phase
    rw [← hphase]
    cases s.context.phase <;> simp [Phase.loopOpen]
  · rw [countP_tableLoopStart, hbounds, countP_brackets, ← hloops, List.length_map]

end Retrace
