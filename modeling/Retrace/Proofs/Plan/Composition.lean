/-
Plans of logs that are put together.

Loops and clicks refer to nodes by their places. So a plan can stand behind another one, once all
of its places are counted on from the end of the other's nodes (`followedBy`). Planning agrees with
that: where no loop is open, what comes next is planned as if it stood alone, and stands behind what
has been planned (`ofActions_append`). What was planned before is a part of the result as it is;
none of it is touched again.

The argument compares two runs over the same actions. One begins anew; the other one has a finished
plan before it (`Draft.behind`), and is ahead in all of its places by as much throughout.
-/
import Retrace.Proofs.Plan.InPlace

set_option autoImplicit false

namespace Retrace

variable {α : Type}

/-! ## Places counted on -/

/-- The node, with the places of its follow-ups counted on by `k`. -/
def Node.shift (k : Nat) (n : Node α) : Node α :=
  { n with postClicks := n.postClicks.map (k + ·) }

/-- The loop, with the places of its body counted on by `k`. -/
def Loop.shift (k : Nat) (l : Loop) : Loop := { l with body := l.body.map (k + ·) }

def Step.shift (k : Nat) : Step → Step
  | .node i => .node (k + i)
  | .loop l => .loop (l.shift k)

namespace Plan

/-- The notice, with its position in the log counted on by `k`. -/
def Notice.shift (k : Nat) : Notice → Notice
  | .loopAlreadyOpen position subject ignored => .loopAlreadyOpen (k + position) subject ignored
  | .paginationOutsideLoop position => .paginationOutsideLoop (k + position)
  | .endWithoutStart position => .endWithoutStart (k + position)
  | .neverClosed subject => .neverClosed subject

def OpenLoop.shift (k : Nat) (l : OpenLoop) : OpenLoop :=
  { l with body := l.body.map (k + ·), currentClick := l.currentClick.map (k + ·) }

/-- The plan that does what the first one does, and then what the second one does. -/
def followedBy (first second : Plan α) : Plan α where
  baseUrl := first.baseUrl
  nodes := first.nodes ++ second.nodes.map (Node.shift first.nodes.length)
  steps := first.steps ++ second.steps.map (Step.shift first.nodes.length)
  actionCount := first.actionCount + second.actionCount
  skipped := first.skipped + second.skipped

section FollowedBy

variable (first second : Plan α)

theorem length_nodes_followedBy :
    (first.followedBy second).nodes.length = first.nodes.length + second.nodes.length := by
  simp [followedBy]

theorem followedBy_addNode (n : Node α) :
    first.followedBy (second.addNode n)
      = (first.followedBy second).addNode (n.shift first.nodes.length) := by
  simp [followedBy, addNode]

theorem followedBy_addStep (step : Step) :
    first.followedBy (second.addStep step)
      = (first.followedBy second).addStep (step.shift first.nodes.length) := by
  simp [followedBy, addStep]

/-- The loops of the second plan come behind those of the first, with their places shifted. -/
theorem loops_followedBy : (first.followedBy second).loops
    = first.loops ++ second.loops.map (Loop.shift first.nodes.length) := by
  have hshift : ∀ step : Step, (step.shift first.nodes.length).loop?
      = step.loop?.map (Loop.shift first.nodes.length) := by
    intro step
    cases step <;> rfl
  simp [followedBy, loops, List.filterMap_map, List.map_filterMap, hshift]

end FollowedBy

/-- A change at one place of a list can be made before or after the list is mapped. -/
theorem map_modify {β γ : Type} {f : β → β} {g : β → γ} (f' : γ → γ) (h : ∀ b, g (f b) = f' (g b))
    (l : List β) (i : Nat) : (l.modify i f).map g = (l.map g).modify i f' := by
  refine List.ext_getElem? fun j => ?_
  rw [List.getElem?_map, List.getElem?_modify, List.getElem?_modify, List.getElem?_map]
  cases l[j]? with
  | none => rfl
  | some b =>
    by_cases hij : i = j
    · simp [hij, h]
    · simp [hij]

/-- A follow-up behind a plan goes to the click behind the plan. -/
theorem modify_append_shift (before nodes : List (Node α)) (click index : Nat) :
    (before ++ nodes.map (Node.shift before.length)).modify (before.length + click)
        (fun n => { n with postClicks := n.postClicks ++ [before.length + index] })
      = before ++ (nodes.modify click fun n =>
          { n with postClicks := n.postClicks ++ [index] }).map (Node.shift before.length) := by
  rw [map_modify (fun n => { n with
    postClicks := n.postClicks ++ [before.length + index] }) (by simp [Node.shift])]
  exact List.modifyTailIdx_add _ click before _

/-- The node of an action refers to no place yet. -/
theorem shift_nodeOf (k : Nat) (a : Action α) (locator : String) (relative : Bool) :
    (nodeOf a locator relative).shift k = nodeOf a locator relative := rfl

/-! ## A run behind a plan -/

namespace Draft

/-- The draft behind a finished plan and the notices that it came with. -/
def behind (d : Draft α) (first : Plan α) (notices : List Notice) : Draft α where
  plan := first.followedBy d.plan
  loop := d.loop.map (OpenLoop.shift first.nodes.length)
  notices := notices ++ d.notices.map (Notice.shift first.actionCount)

section Behind

variable (first : Plan α) (notices : List Notice) (d : Draft α) (l : OpenLoop) (a : Action α)

theorem behind_skip (notice : Notice) :
    (d.behind first notices).skip (notice.shift first.actionCount)
      = (d.skip notice).behind first notices := by
  simp [behind, skip, followedBy, Nat.add_assoc]

theorem behind_closeLoop :
    (d.behind first notices).closeLoop (l.shift first.nodes.length)
      = (d.closeLoop l).behind first notices := by
  simp only [behind, closeLoop, followedBy_addStep]
  rfl

/-- The rows are read off the paths, and these are the same in both runs. -/
theorem behind_addToRow (path : String) :
    (d.behind first notices).addToRow (l.shift first.nodes.length) a path
      = (d.addToRow l a path).behind first notices := by
  by_cases hclick : a.kind = .click <;>
    simp [behind, addToRow, followedBy_addNode, length_nodes_followedBy, OpenLoop.shift, hclick,
      shift_nodeOf]

/-- What follows up on a click is shifted along with the click. -/
theorem behind_addBeside :
    (d.behind first notices).addBeside (l.shift first.nodes.length) a
      = (d.addBeside l a).behind first notices := by
  unfold addBeside
  cases hclick : l.currentClick with
  | none =>
    simp [behind, followedBy_addNode, length_nodes_followedBy, OpenLoop.shift, hclick,
      shift_nodeOf]
  | some click =>
    have hnodes := modify_append_shift first.nodes (d.plan.nodes ++ [nodeOf a a.locator false])
      click d.plan.nodes.length
    rw [List.map_append, List.map_singleton, shift_nodeOf] at hnodes
    simp [behind, OpenLoop.shift, hclick, followedBy, addNode, hnodes]

/-- **One action** is placed behind a plan as it is placed alone. -/
theorem behind_place (position : Nat) :
    (d.behind first notices).place (first.actionCount + position) a
      = (d.place position a).behind first notices := by
  have hloop : (d.behind first notices).loop = d.loop.map (OpenLoop.shift first.nodes.length) := rfl
  unfold place
  rw [hloop]
  cases hkind : a.kind <;> cases hopen : d.loop
  -- bounds that are left out take their position along
  case tableLoopStart.some l => exact behind_skip first notices d (.loopAlreadyOpen ..)
  case tableLoopEnd.none => exact behind_skip first notices d (.endWithoutStart _)
  case tablePaginationNext.none => exact behind_skip first notices d (.paginationOutsideLoop _)
  -- bounds in place
  case tableLoopStart.none => rfl
  case tableLoopEnd.some l => exact behind_closeLoop first notices d l
  case tablePaginationNext.some l => rfl
  -- a step of its own
  case click.none | input.none | select.none | label.none =>
    simp [behind, hopen, followedBy_addNode, followedBy_addStep, length_nodes_followedBy,
      shift_nodeOf, Step.shift]
  -- an action of the open loop, on its row or beside it
  all_goals
    next l =>
    have hsubject : (l.shift first.nodes.length).subject = l.subject := rfl
    simp only [Option.map_some, hsubject]
    cases Path.relativeTo? l.subject a.locator with
    | some path => exact behind_addToRow first notices d l a path
    | none => exact behind_addBeside first notices d l a

/-- **One action.** It is planned behind the first plan as it is planned alone. -/
theorem behind_add : (d.behind first notices).add a = (d.add a).behind first notices := by
  have hplace := behind_place first notices d a d.plan.actionCount
  have hcount : (d.behind first notices).plan.actionCount
      = first.actionCount + d.plan.actionCount := rfl
  unfold add
  rw [hcount, hplace]
  simp [behind, followedBy, Nat.add_assoc]

/-- **Two runs.** Behind a plan everything comes out as it does alone. The induction is on the
actions, from any draft. -/
theorem behind_foldl_add (actions : List (Action α)) :
    actions.foldl add (d.behind first notices) = (actions.foldl add d).behind first notices := by
  induction actions generalizing d with
  | nil => rfl
  | cons a rest ih => rw [List.foldl_cons, List.foldl_cons, behind_add, ih]

/-- A loop that is open at the end is closed in the same way. -/
theorem behind_finish :
    (d.behind first notices).finish = (first.followedBy d.finish.1,
      notices ++ d.finish.2.map (Notice.shift first.actionCount)) := by
  have hloop : (d.behind first notices).loop = d.loop.map (OpenLoop.shift first.nodes.length) := rfl
  unfold finish
  rw [hloop]
  cases d.loop with
  | none => rfl
  | some l =>
    simp only [Option.map_some, behind_closeLoop]
    simp [behind, OpenLoop.shift, Notice.shift]

end Behind

/-- Where no loop is open, what has been planned is a finished plan before an empty draft. -/
theorem eq_behind_of_loop_eq_none {d : Draft α} (hloop : d.loop = none) (other : α) :
    d = ({ plan := { baseUrl := other } } : Draft α).behind d.plan d.notices := by
  obtain ⟨plan, loop, notices⟩ := d
  obtain rfl : loop = none := hloop
  simp [behind, followedBy]

end Draft

/-! ## Logs that are put together -/

/-- **Planning is compositional.** Where the first actions leave no loop open, the plan of all
actions does what the plan of the first ones does, and then what the plan of the others does, which
is made as if they stood alone; so are the notices. The nodes and the loops of the first actions
are there as they were: nothing that comes later is attached to them or changes them. -/
theorem ofActions_append {first : List (Action α)} {baseUrl : α}
    (hclosed : (first.foldl Draft.add { plan := { baseUrl } }).loop = none)
    (second : List (Action α)) (other : α) :
    let a := ofActions first baseUrl
    let b := ofActions second other
    let both := ofActions (first ++ second) baseUrl
    both.1 = a.1.followedBy b.1 ∧ both.2 = a.2 ++ b.2.map (Notice.shift first.length)
      ∧ a.1.nodes <+: both.1.nodes ∧ a.1.loops <+: both.1.loops := by
  have hcount := actionCount_ofActions first baseUrl
  have hboth : ofActions (first ++ second) baseUrl
      = ((ofActions first baseUrl).1.followedBy (ofActions second other).1,
        (ofActions first baseUrl).2
          ++ (ofActions second other).2.map (Notice.shift first.length)) := by
    rw [← hcount, ofActions, ofActions, List.foldl_append]
    generalize first.foldl Draft.add { plan := { baseUrl } } = d at hclosed ⊢
    have hfinish : d.finish = (d.plan, d.notices) := by rw [Draft.finish, hclosed]
    have hrun := Draft.behind_foldl_add d.plan d.notices { plan := { baseUrl := other } } second
    rw [← Draft.eq_behind_of_loop_eq_none hclosed other] at hrun
    rw [hrun, Draft.behind_finish, hfinish, ofActions]
  dsimp only
  rw [hboth]
  refine ⟨rfl, rfl, List.prefix_append _ _, ?_⟩
  rw [loops_followedBy]
  exact List.prefix_append _ _

/-- A list is gone through, and something is noted on the page behind each item. -/
def listLog : List (Action String) :=
  [{ kind := .tableLoopStart, locator := "ul" }, { kind := .click, locator := "ul > li > a" },
    { kind := .label, locator := "h1" }, { kind := .tableLoopEnd, locator := "ul" }]

/-- A loop ends that was not begun, and then a table is gone through like the list, to its last
row. -/
def tableLog : List (Action String) :=
  [{ kind := .tableLoopEnd, locator := "ul" }, { kind := .click, locator := "#next" },
    { kind := .tableLoopStart, locator := "table" },
    { kind := .click, locator := "table > tr > td" }, { kind := .label, locator := "h2" }]

theorem ofActions_append_listThenTable :
    (listLog.foldl Draft.add { plan := { baseUrl := "" } }).loop = none
      ∧ (ofActions (listLog ++ tableLog) "").1
        = (ofActions listLog "").1.followedBy (ofActions tableLog "").1 := by
  have hclosed : (listLog.foldl Draft.add { plan := { baseUrl := "" } }).loop = none := by
    decide +kernel
  obtain ⟨hplan, -⟩ := ofActions_append hclosed tableLog ""
  exact ⟨hclosed, hplan⟩

/-- Both clicks keep what follows up on them, and the stray end is told at its place in the log. -/
example : (ofActions (listLog ++ tableLog) "").1.nodes.map Node.postClicks = [[1], [], [], [4], []]
    ∧ (ofActions (listLog ++ tableLog) "").2 = [.endWithoutStart 4, .neverClosed "table"] := by
  decide +kernel

end Plan

end Retrace
