/-
The outline of a log: its loops, as its bounds alone have it.

Which loops a log has, which of its bounds are in place and which are not, depends on no other
action. The outline says so step by step, without a plan: a start is in place while no loop is
open, and the two other bounds while one is. A plan follows the outline: its loops are those of
the outline, and it leaves out as many bounds (`ofActions_outline`).

Where the bounds are those of whole loops in a row, with at most one more that has not ended, all
of them are in place (`foldl_step_brackets`).
-/
import Mathlib.Data.List.Induction
import Retrace.Plan.Build
import Retrace.Proofs.Action.Bounds

set_option autoImplicit false

namespace Retrace

variable {α : Type}

/-! ## Outlines -/

/-- What the bounds of a log say: the loops that have ended, the loop that is open, and how many
bounds are in place and how many are not. -/
structure Outline where
  closed : List Span := []
  opened : Option Span := none
  accepted : Nat := 0
  skipped : Nat := 0
  deriving Repr, DecidableEq

namespace Outline

/-- The outline with one more bound. -/
def step (o : Outline) (bound : Kind × String) : Outline :=
  match bound.1, o.opened with
  | .tableLoopStart, none =>
    { o with opened := some { subject := bound.2 }, accepted := o.accepted + 1 }
  | .tablePaginationNext, some l =>
    { o with opened := some { l with next := some bound.2 }, accepted := o.accepted + 1 }
  | .tableLoopEnd, some l =>
    { o with closed := o.closed ++ [l], opened := none, accepted := o.accepted + 1 }
  | .tableLoopStart, some _ | .tablePaginationNext, none | .tableLoopEnd, none =>
    { o with skipped := o.skipped + 1 }
  | .click, _ | .input, _ | .select, _ | .label, _ => o

/-- Each bound is either accepted or skipped. -/
theorem accepted_add_skipped_step {o : Outline} {bound : Kind × String}
    (h : bound.1.isBoundary = true) :
    (o.step bound).accepted + (o.step bound).skipped = o.accepted + o.skipped + 1 := by
  unfold step
  split <;> simp_all [Kind.isBoundary] <;> omega

end Outline

/-- The outline of a log. -/
def outline (actions : List (Action α)) : Outline := (bounds actions).foldl Outline.step {}

@[simp] theorem outline_nil : outline ([] : List (Action α)) = {} := rfl

theorem outline_append (before after : List (Action α)) :
    outline (before ++ after) = (bounds after).foldl Outline.step (outline before) := by
  rw [outline, bounds_append, List.foldl_append, outline]

/-- The outline is one of bounds only. -/
theorem outline_append_work (before : List (Action α)) {a : Action α}
    (h : a.kind.isBoundary = false) : outline (before ++ [a]) = outline before := by
  rw [outline_append, bounds_singleton_of_work h]
  rfl

/-- One more bound is one more step. -/
theorem outline_append_bound (before : List (Action α)) {a : Action α}
    (h : a.kind.isBoundary = true) :
    outline (before ++ [a]) = (outline before).step (a.kind, a.locator) := by
  rw [outline_append, bounds_singleton rfl h]
  rfl

/-- Every action does something, is a bound in place, or a bound out of place. The induction is on
the log from its end. -/
theorem accepted_add_skipped_add_length_work (actions : List (Action α)) :
    (outline actions).accepted + (outline actions).skipped + (work actions).length
      = actions.length := by
  induction actions using List.reverseRecOn with
  | nil => rfl
  | append_singleton before a ih =>
    rw [work_append, List.length_append, List.length_append, List.length_singleton]
    cases h : a.kind.isBoundary with
    | false =>
      rw [outline_append_work before h, work_singleton h, List.length_singleton]
      omega
    | true =>
      have hstep := @Outline.accepted_add_skipped_step (outline before) (a.kind, a.locator) h
      rw [outline_append_bound before h, work_singleton_of_bound h, List.length_nil]
      omega

/-! ## Brackets -/

namespace Outline

theorem foldl_step_opening {o : Outline} (ho : o.opened = none) (l : Span) :
    ∃ accepted, l.opening.foldl step o = { o with opened := some l, accepted } := by
  obtain ⟨subject, next⟩ := l
  cases next with
  | none => exact ⟨o.accepted + 1, by simp [Span.opening, step, ho]⟩
  | some control => exact ⟨o.accepted + 2, by simp [Span.opening, step, ho]⟩

/-- Whole loops are closed one after the other. -/
theorem foldl_step_whole (done : List Span) {o : Outline} (ho : o.opened = none) :
    ∃ accepted, (done.flatMap Span.whole).foldl step o
      = { o with closed := o.closed ++ done, accepted } := by
  induction done generalizing o with
  | nil => exact ⟨o.accepted, by simp⟩
  | cons l rest ih =>
    obtain ⟨n, hopening⟩ := foldl_step_opening ho l
    have hwhole : l.whole.foldl step o
        = { o with closed := o.closed ++ [l], accepted := n + 1 } := by
      simp [Span.whole, hopening, step, ho]
    obtain ⟨accepted, hrest⟩ := @ih { o with closed := o.closed ++ [l], accepted := n + 1 } ho
    exact ⟨accepted, by simp [hwhole, hrest]⟩

/-- **Brackets are in place.** Whole loops in a row, and at most one more that has not ended, are
the loops of their bounds, of which none is out of place. -/
theorem foldl_step_brackets (done : List Span) (last : Option Span) :
    ∃ accepted, (done.flatMap Span.whole ++ last.toList.flatMap Span.opening).foldl step {}
      = { closed := done, opened := last, accepted } := by
  obtain ⟨n, hdone⟩ := foldl_step_whole done (o := {}) rfl
  cases last with
  | none => exact ⟨n, by simp [hdone]⟩
  | some l =>
    obtain ⟨accepted, hopening⟩ :=
      foldl_step_opening (o := { closed := done, accepted := n }) rfl l
    exact ⟨accepted, by simpa [hdone] using hopening⟩

end Outline

/-! ## Plans -/

def Plan.OpenLoop.span (l : Plan.OpenLoop) : Span := { subject := l.subject, next := l.pagination }

def Loop.span (l : Loop) : Span := { subject := l.subject, next := l.pagination }

namespace Plan

/-- What becomes of a draft with one more action. -/
inductive Draft.Placed (d : Draft α) (a : Action α) : Draft α → Prop where
  /-- A start inside of a loop is left out. -/
  | nested (l : OpenLoop) (notice : Notice) : a.kind = .tableLoopStart → d.loop = some l →
      Placed d a (d.skip notice)
  /-- Any other bound outside of loops is left out. -/
  | stray (notice : Notice) : a.kind = .tablePaginationNext ∨ a.kind = .tableLoopEnd →
      d.loop = none → Placed d a (d.skip notice)
  | opened : a.kind = .tableLoopStart → d.loop = none →
      Placed d a { d with loop := some { subject := a.locator } }
  | paginated (l : OpenLoop) : a.kind = .tablePaginationNext → d.loop = some l →
      Placed d a { d with loop := some { l with pagination := some a.locator } }
  | closed (l : OpenLoop) : a.kind = .tableLoopEnd → d.loop = some l →
      Placed d a (d.closeLoop l)
  | single : a.kind.isBoundary = false → d.loop = none →
      Placed d a { d with
        plan := (d.plan.addNode (nodeOf a a.locator false)).addStep (.node d.plan.nodes.length) }
  | inRow (l : OpenLoop) (path : String) : a.kind.isBoundary = false → d.loop = some l →
      Path.relativeTo? l.subject a.locator = some path → Placed d a (d.addToRow l a path)
  | beside (l : OpenLoop) : a.kind.isBoundary = false → d.loop = some l →
      Path.relativeTo? l.subject a.locator = none → Placed d a (d.addBeside l a)

/-- The cases of planning are these, each with its guard. -/
theorem Draft.placed_place (d : Draft α) (position : Nat) (a : Action α) :
    d.Placed a (d.place position a) := by
  unfold place
  split
  · next l hkind hloop => exact .nested l _ hkind hloop
  · next hkind hloop => exact .opened hkind hloop
  · next l hkind hloop => exact .paginated l hkind hloop
  · next hkind hloop => exact .stray _ (.inl hkind) hloop
  · next l hkind hloop => exact .closed l hkind hloop
  · next hkind hloop => exact .stray _ (.inr hkind) hloop
  · next hloop _ _ _ => 
    exact .single (by cases hkind : a.kind <;> simp_all [Kind.isBoundary]) hloop
  · next l hloop _ _ _ => 
    have hkind : a.kind.isBoundary = false := by
      cases hkind : a.kind <;> simp_all [Kind.isBoundary]
    split
    · next path hpath => exact .inRow l path hkind hloop hpath
    · next hpath => exact .beside l hkind hloop hpath

/-- What has been planned agrees with the outline. -/
structure Draft.Follows (d : Draft α) (o : Outline) : Prop where
  closed : d.plan.loops.map Loop.span = o.closed
  opened : d.loop.map OpenLoop.span = o.opened
  skipped : d.plan.skipped = o.skipped

@[simp] theorem loops_addNode (plan : Plan α) (node : Node α) :
    (plan.addNode node).loops = plan.loops := rfl

@[simp] theorem loops_addStep (plan : Plan α) (step : Step) :
    (plan.addStep step).loops = plan.loops ++ step.loop?.toList := by
  simp only [loops, addStep, List.filterMap_append]
  cases step <;> rfl

/-- What is recorded beside the table changes no bound of a loop. -/
theorem Draft.addBeside_frame (d : Draft α) (l : OpenLoop) (a : Action α) :
    (d.addBeside l a).plan.loops = d.plan.loops
      ∧ (d.addBeside l a).loop.map OpenLoop.span = some l.span
      ∧ (d.addBeside l a).plan.skipped = d.plan.skipped := by
  unfold addBeside
  cases l.currentClick <;> exact ⟨rfl, rfl, rfl⟩

/-- An action takes draft and outline further alike. -/
theorem Draft.Follows.placed {d d' : Draft α} {o : Outline} {a : Action α} (h : d.Follows o)
    (hplaced : d.Placed a d') : d'.Follows ((bounds [a]).foldl Outline.step o) := by
  obtain ⟨closed, opened, accepted, skipped⟩ := o
  obtain ⟨rfl, rfl, rfl⟩ := h
  cases hplaced with
  | nested l notice hkind hloop =>
    rw [bounds_singleton hkind rfl, hloop]
    exact ⟨rfl, by rw [skip, hloop]; rfl, rfl⟩
  | stray notice hkind hloop =>
    rcases hkind with hkind | hkind
    · rw [bounds_singleton hkind rfl, hloop]
      exact ⟨rfl, by rw [skip, hloop]; rfl, rfl⟩
    · rw [bounds_singleton hkind rfl, hloop]
      exact ⟨rfl, by rw [skip, hloop]; rfl, rfl⟩
  | opened hkind hloop =>
    rw [bounds_singleton hkind rfl, hloop]
    exact ⟨rfl, rfl, rfl⟩
  | paginated l hkind hloop =>
    rw [bounds_singleton hkind rfl, hloop]
    exact ⟨rfl, rfl, rfl⟩
  | closed l hkind hloop =>
    rw [bounds_singleton hkind rfl, hloop]
    exact ⟨by rw [closeLoop, loops_addStep, List.map_append]; rfl, rfl, rfl⟩
  | single hkind hloop =>
    rw [bounds_singleton_of_work hkind]
    exact ⟨by rw [loops_addStep, loops_addNode]; simp [Step.loop?], rfl, rfl⟩
  | inRow l path hkind hloop _ =>
    rw [bounds_singleton_of_work hkind, hloop]
    exact ⟨rfl, rfl, rfl⟩
  | beside l hkind hloop _ =>
    obtain ⟨hclosed, hopened, hskipped⟩ := d.addBeside_frame l a
    rw [bounds_singleton_of_work hkind, hloop]
    exact ⟨by rw [hclosed]; rfl, hopened, hskipped⟩

/-- The draft of a log follows the outline of the log. The induction is on the log from its end. -/
theorem follows_foldl_add (actions : List (Action α)) (baseUrl : α) :
    (actions.foldl Draft.add { plan := { baseUrl } }).Follows (outline actions) := by
  induction actions using List.reverseRecOn with
  | nil => exact ⟨rfl, rfl, rfl⟩
  | append_singleton before a ih =>
    rw [List.foldl_append, outline_append]
    obtain ⟨hclosed, hopened, hskipped⟩ := ih.placed (Draft.placed_place _
      (before.foldl Draft.add { plan := { baseUrl } }).plan.actionCount a)
    exact ⟨hclosed, hopened, hskipped⟩

/-- **Plans follow the outline.** The loops of a plan are those of the outline, and as many bounds
are left out. -/
theorem ofActions_outline (actions : List (Action α)) (baseUrl : α) :
    (ofActions actions baseUrl).1.skipped = (outline actions).skipped
      ∧ (ofActions actions baseUrl).1.loops.map Loop.span
        = (outline actions).closed ++ (outline actions).opened.toList := by
  obtain ⟨hclosed, hopened, hskipped⟩ := follows_foldl_add actions baseUrl
  unfold ofActions Draft.finish
  cases hloop : (actions.foldl Draft.add { plan := { baseUrl } }).loop with
  | none =>
    rw [hloop] at hopened
    exact ⟨hskipped, by rw [hclosed, ← hopened]; simp⟩
  | some l =>
    rw [hloop] at hopened
    refine ⟨hskipped, ?_⟩
    dsimp only [Draft.closeLoop]
    rw [loops_addStep, List.map_append, hclosed, ← hopened]
    rfl

end Plan

end Retrace
