/-
The bounds of loops among the actions of a log.

The actions of a log are of two sorts: those that do something, and the bounds of loops. Here
the two are told apart, and it is shown what an append does to the bounds: it adds its own and
touches no other, since the edits that it may replace are no bounds.

A loop leaves its start in the log, the control for the next page if one was picked, and its end.
-/
import Mathlib.Data.List.TakeWhile
import Retrace.Action.Log

set_option autoImplicit false

namespace Retrace

variable {α : Type}

/-- The bounds of loops among the actions, with their locators. -/
def bounds (actions : List (Action α)) : List (Kind × String) :=
  (actions.filter (·.kind.isBoundary)).map fun a => (a.kind, a.locator)

/-- The actions that do something. -/
def work (actions : List (Action α)) : List (Action α) :=
  actions.filter fun a => !a.kind.isBoundary

@[simp] theorem bounds_nil : bounds ([] : List (Action α)) = [] := rfl

@[simp] theorem bounds_append (before after : List (Action α)) :
    bounds (before ++ after) = bounds before ++ bounds after := by
  simp [bounds]

@[simp] theorem work_nil : work ([] : List (Action α)) = [] := rfl

@[simp] theorem work_append (before after : List (Action α)) :
    work (before ++ after) = work before ++ work after := by
  simp [work]

theorem bounds_singleton {a : Action α} {kind : Kind} (ha : a.kind = kind)
    (h : kind.isBoundary = true) : bounds [a] = [(kind, a.locator)] := by
  simp [bounds, ha, h]

/-- What is recorded of an element is no bound. -/
theorem bounds_singleton_of_work {a : Action α} (h : a.kind.isBoundary = false) :
    bounds [a] = [] := by
  simp [bounds, h]

theorem work_singleton {a : Action α} (h : a.kind.isBoundary = false) : work [a] = [a] := by
  simp [work, h]

/-- A bound is no work. -/
theorem work_singleton_of_bound {a : Action α} (h : a.kind.isBoundary = true) :
    work [a] = [] := by
  simp [work, h]

/-! ## Appends -/

namespace Log

/-- The edits that an action replaces are no bounds, if the action is none. -/
theorem bounds_dropEdits {a : Action α} (h : a.kind.isBoundary = false)
    (actions : List (Action α)) : bounds (dropEdits a actions) = bounds actions := by
  have hsplit : actions = dropEdits a actions
      ++ (actions.reverse.takeWhile (·.sameTarget a)).reverse := by
    rw [dropEdits, ← List.reverse_append, List.takeWhile_append_dropWhile, List.reverse_reverse]
  have hdropped : bounds (actions.reverse.takeWhile (·.sameTarget a)).reverse = [] := by
    rw [bounds, List.map_eq_nil_iff, List.filter_eq_nil_iff]
    intro b hb
    have hsame := List.mem_takeWhile_imp (List.mem_reverse.1 hb)
    simp only [Action.sameTarget, Bool.and_eq_true, beq_iff_eq] at hsame
    rw [hsame.1, h]
    exact Bool.false_ne_true
  calc bounds (dropEdits a actions)
      = bounds (dropEdits a actions)
          ++ bounds (actions.reverse.takeWhile (·.sameTarget a)).reverse := by
        rw [hdropped, List.append_nil]
    _ = bounds actions := by rw [← bounds_append, ← hsplit]

/-- The entry of an action may differ from it in its time. -/
theorem exists_entry_eq (log : Log α) (a : Action α) (coalesce : Bool) :
    ∃ timestamp, log.entry a coalesce = { a with timestamp } := by
  unfold entry notBefore
  split
  · split
    · exact ⟨_, rfl⟩
    · exact ⟨a.timestamp, rfl⟩
  · exact ⟨a.timestamp, rfl⟩

/-- An entry keeps the kind and the locator of the action. -/
theorem bounds_entry (log : Log α) (a : Action α) (coalesce : Bool) :
    bounds [log.entry a coalesce] = bounds [a] := by
  obtain ⟨timestamp, heq⟩ := log.exists_entry_eq a coalesce
  cases h : a.kind.isBoundary with
  | false => rw [bounds_singleton_of_work h, bounds_singleton_of_work (by rw [heq]; exact h)]
  | true => rw [bounds_singleton rfl h, bounds_singleton (by rw [heq]) h, heq]

/-- An append adds its own bound and touches no other, unless a bound is taken for an edit. -/
theorem bounds_push {log : Log α} {a : Action α} {coalesce : Bool}
    (h : coalesce = true → a.kind.isBoundary = false) :
    bounds (log.push a coalesce).actions = bounds log.actions ++ bounds [a] := by
  rw [push, bounds_append, bounds_entry]
  cases coalesce with
  | false => rfl
  | true => rw [kept, if_pos rfl, bounds_dropEdits (h rfl)]

end Log

/-! ## Loops -/

/-- What the bounds of one loop say: its table, and the control for the next page, if there is
one. -/
structure Span where
  subject : String
  next : Option String := none
  deriving Repr, DecidableEq

namespace Span

/-- The bounds of the loop up to its end. -/
def opening (l : Span) : List (Kind × String) :=
  (.tableLoopStart, l.subject) :: (l.next.map fun control => (.tablePaginationNext, control)).toList

/-- The bounds of the loop. -/
def whole (l : Span) : List (Kind × String) := l.opening ++ [(.tableLoopEnd, l.subject)]

end Span

end Retrace
