/-
Bounds that are out of place leave no trace in a plan.

Which bounds are in place can be said without a plan: a start while no loop is open, and the two
other bounds while one is (`inPlace`). A plan of all actions and a plan of those in place are made
side by side. What is placed depends on the nodes, the steps and the open loop, and a bound that is
left out touches none of them; so the two drafts differ in what they count, and in nothing else
(`Draft.counted`).
-/
import Retrace.Proofs.Plan.Conservation

set_option autoImplicit false

namespace Retrace

variable {α : Type}

/-! ## Bounds in place -/

namespace Kind

/-- Is an action of this kind in place, where a loop is open or is not? -/
def isInPlace (loopOpen : Bool) : Kind → Bool
  | .tableLoopStart => !loopOpen
  | .tablePaginationNext | .tableLoopEnd => loopOpen
  | .click | .input | .select | .label => true

/-- Is a loop open behind an action of this kind? -/
def leavesOpen (loopOpen : Bool) : Kind → Bool
  | .tableLoopStart => true
  | .tableLoopEnd => false
  | .tablePaginationNext | .click | .input | .select | .label => loopOpen

end Kind

/-- The actions without the bounds that are out of place, from where a loop is open or is not. -/
def inPlace (loopOpen : Bool) : List (Action α) → List (Action α)
  | [] => []
  | a :: rest =>
    if a.kind.isInPlace loopOpen then a :: inPlace (a.kind.leavesOpen loopOpen) rest
    else inPlace loopOpen rest

namespace Plan

/-! ## One action -/

namespace Draft

/-- The draft with other counts and notices. -/
def counted (d : Draft α) (actionCount skipped : Nat) (notices : List Notice) : Draft α :=
  { d with plan := { d.plan with actionCount, skipped }, notices }

variable {d d' : Draft α} {a : Action α}

/-- **An action in place** is placed alike, whatever has been counted so far. -/
theorem place_counted (h : a.kind.isInPlace d.loop.isSome = true)
    (position position' actionCount skipped : Nat) (notices : List Notice) :
    (d.counted actionCount skipped notices).place position a
      = (d.place position' a).counted actionCount skipped notices := by
  have hloop : (d.counted actionCount skipped notices).loop = d.loop := rfl
  unfold place
  rw [hloop]
  cases hkind : a.kind <;> cases hopen : d.loop <;> rw [hkind, hopen] at h
  -- the bounds that are out of place
  case tableLoopStart.some => simp [Kind.isInPlace] at h
  case tableLoopEnd.none => simp [Kind.isInPlace] at h
  case tablePaginationNext.none => simp [Kind.isInPlace] at h
  -- the bounds that are in place
  case tableLoopStart.none => rfl
  case tableLoopEnd.some => rfl
  case tablePaginationNext.some => rfl
  -- the actions outside of loops, and those within one
  case click.none | input.none | select.none | label.none => rfl
  all_goals
    next l =>
    dsimp only
    cases Path.relativeTo? l.subject a.locator with
    | some path => rfl
    | none =>
      dsimp only
      unfold addBeside
      cases l.currentClick <;> rfl

/-- What is counted does not change how the next action in place is added. -/
theorem add_counted (h : a.kind.isInPlace d.loop.isSome = true) (actionCount skipped : Nat)
    (notices : List Notice) : (d.counted actionCount skipped notices).add a
      = (d.add a).counted (actionCount + 1) skipped notices := by
  unfold add
  rw [place_counted h _ d.plan.actionCount]
  rfl

/-- **A bound out of place** is counted, and changes nothing else. -/
theorem add_of_not_isInPlace (h : a.kind.isInPlace d.loop.isSome = false) :
    ∃ notice, d.add a
      = d.counted (d.plan.actionCount + 1) (d.plan.skipped + 1) (d.notices ++ [notice]) := by
  unfold add place
  cases hkind : a.kind <;> cases hopen : d.loop <;> rw [hkind, hopen] at h
  case tableLoopStart.some => exact ⟨_, rfl⟩
  case tableLoopEnd.none => exact ⟨_, rfl⟩
  case tablePaginationNext.none => exact ⟨_, rfl⟩
  all_goals simp [Kind.isInPlace] at h

/-- An action in place is not left out. -/
theorem skipped_add (h : a.kind.isInPlace d.loop.isSome = true) :
    (d.add a).plan.skipped = d.plan.skipped :=
  -- what the draft has counted itself is another count like any
  congrArg (·.plan.skipped)
    (add_counted h d.plan.actionCount d.plan.skipped d.notices)

theorem Placed.isSome_loop (h : d.Placed a d') :
    d'.loop.isSome = a.kind.leavesOpen d.loop.isSome := by
  have hwork : a.kind.isBoundary = false →
      a.kind.leavesOpen d.loop.isSome = d.loop.isSome := by
    intro hkind
    cases h : a.kind <;> first | rfl | simp [h, Kind.isBoundary] at hkind
  cases h with
  | nested l notice hkind hloop =>
    rw [hkind, skip, hloop]
    rfl
  | stray notice hkind hloop =>
    rcases hkind with hkind | hkind
    all_goals
      rw [hkind, skip, hloop]
      rfl
  | opened hkind hloop => rw [hkind]; rfl
  | paginated l hkind hloop => rw [hkind, hloop]; rfl
  | closed l hkind hloop => rw [hkind]; rfl
  | single hkind hloop => exact (hwork hkind).symm
  | inRow l path hkind hloop hpath =>
    rw [hwork hkind, hloop]
    rfl
  | beside l hkind hloop hpath =>
    rw [hwork hkind, hloop, addBeside]
    cases l.currentClick <;> rfl

/-- Whether a loop is open can be told without a plan. -/
theorem isSome_loop_add (d : Draft α) (a : Action α) :
    (d.add a).loop.isSome = a.kind.leavesOpen d.loop.isSome :=
  (d.placed_place d.plan.actionCount a).isSome_loop

/-! ## All actions -/

/-- **Two runs.** All actions, and those in place, lead to drafts that differ in what they count.
The induction is on the actions, from any draft. -/
theorem foldl_add_inPlace (actions : List (Action α)) (d : Draft α) (actionCount skipped : Nat)
    (notices : List Notice) :
    (inPlace d.loop.isSome actions).foldl add (d.counted actionCount skipped notices)
      = (actions.foldl add d).counted (actionCount + (inPlace d.loop.isSome actions).length)
        skipped notices := by
  induction actions generalizing d actionCount with
  | nil => rfl
  | cons a rest ih =>
    have hopen := d.isSome_loop_add a
    rw [inPlace, List.foldl_cons]
    cases h : a.kind.isInPlace d.loop.isSome with
    | true =>
      rw [if_pos rfl, List.foldl_cons, add_counted h, ← hopen, ih, List.length_cons]
      congr 1
      omega
    | false =>
      obtain ⟨notice, hadd⟩ := add_of_not_isInPlace h
      rw [if_neg Bool.false_ne_true, hadd]
      -- the two drafts before the rest are the same but for their counts
      exact ih (d.counted (d.plan.actionCount + 1) (d.plan.skipped + 1) (d.notices ++ [notice]))
        actionCount

/-- Every action is in place or left out. The induction is on the actions, from any draft. -/
theorem skipped_foldl_add (actions : List (Action α)) (d : Draft α) :
    (actions.foldl add d).plan.skipped + (inPlace d.loop.isSome actions).length
      = d.plan.skipped + actions.length := by
  induction actions generalizing d with
  | nil => rfl
  | cons a rest ih =>
    have hopen := d.isSome_loop_add a
    have hrest := ih (d.add a)
    rw [List.foldl_cons, inPlace, List.length_cons]
    cases h : a.kind.isInPlace d.loop.isSome with
    | true =>
      rw [if_pos rfl, List.length_cons, ← hopen]
      rw [skipped_add h] at hrest
      omega
    | false =>
      obtain ⟨notice, hadd⟩ := add_of_not_isInPlace h
      have hskipped : (d.add a).plan.skipped = d.plan.skipped + 1 := by
        rw [hadd]
        rfl
      have hloop : (d.add a).loop = d.loop := by
        rw [hadd]
        rfl
      rw [if_neg Bool.false_ne_true]
      rw [hskipped, hloop] at hrest
      omega

theorem finish_counted (d : Draft α) (actionCount skipped : Nat) (notices : List Notice) :
    (d.counted actionCount skipped notices).finish.1
      = { d.finish.1 with actionCount, skipped } := by
  have hloop : (d.counted actionCount skipped notices).loop = d.loop := rfl
  unfold finish
  rw [hloop]
  cases d.loop <;> rfl

/-- Ending the open loop is what is done at the end anyway. -/
theorem finish_closeLoop {l : OpenLoop} (hloop : d.loop = some l) :
    (d.closeLoop l).finish.1 = d.finish.1 := by
  rw [finish, finish, hloop]
  rfl

end Draft

/-! ## Plans -/

/-- **Bounds out of place leave no trace.** The plan of the actions in place is the plan of all
actions, but for the number of actions. -/
theorem ofActions_inPlace (actions : List (Action α)) (baseUrl : α) :
    (ofActions (inPlace false actions) baseUrl).1
      = { (ofActions actions baseUrl).1 with
          actionCount := (inPlace false actions).length, skipped := 0 } := by
  have hrun : (inPlace false actions).foldl Draft.add { plan := { baseUrl } }
      = (actions.foldl Draft.add { plan := { baseUrl } }).counted
        (0 + (inPlace false actions).length) 0 [] :=
    Draft.foldl_add_inPlace actions { plan := { baseUrl } } 0 0 []
  rw [ofActions, hrun, Nat.zero_add, Draft.finish_counted, ofActions]

theorem skipped_add_length_inPlace (actions : List (Action α)) (baseUrl : α) :
    (ofActions actions baseUrl).1.skipped + (inPlace false actions).length = actions.length := by
  have hrun := Draft.skipped_foldl_add actions ({ plan := { baseUrl } } : Draft α)
  have hskipped : (ofActions actions baseUrl).1.skipped
      = (actions.foldl Draft.add { plan := { baseUrl } }).plan.skipped := by
    unfold ofActions Draft.finish
    split <;> rfl
  rw [hskipped]
  exact hrun.trans (Nat.zero_add _)

theorem actionCount_ofActions (actions : List (Action α)) (baseUrl : α) :
    (ofActions actions baseUrl).1.actionCount = actions.length := by
  obtain ⟨-, -, hcount⟩ := (actions.foldl Draft.add { plan := { baseUrl } }).finish_frame
  rw [ofActions, hcount, Draft.actionCount_foldl_add]
  exact Nat.zero_add _

/-- **An end that was missing** changes the number of actions at most. -/
theorem ofActions_append_end {actions : List (Action α)} {baseUrl : α} {l : OpenLoop}
    (hloop : (actions.foldl Draft.add { plan := { baseUrl } }).loop = some l) {a : Action α}
    (ha : a.kind = .tableLoopEnd) :
    (ofActions (actions ++ [a]) baseUrl).1
      = { (ofActions actions baseUrl).1 with actionCount := actions.length + 1 } := by
  have hcount := Draft.actionCount_foldl_add actions ({ plan := { baseUrl } } : Draft α)
  rw [ofActions, ofActions, List.foldl_append, List.foldl_cons, List.foldl_nil]
  generalize actions.foldl Draft.add { plan := { baseUrl } } = d at hloop hcount ⊢
  have hadd : d.add a
      = (d.closeLoop l).counted (d.plan.actionCount + 1) d.plan.skipped d.notices := by
    unfold Draft.add Draft.place
    rw [ha, hloop]
    rfl
  rw [hadd, Draft.finish_counted, Draft.finish_closeLoop hloop, hcount, Draft.finish, hloop]
  simp [Draft.closeLoop, addStep]

end Plan

end Retrace
