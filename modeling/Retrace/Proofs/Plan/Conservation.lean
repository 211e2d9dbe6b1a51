/-
Plans conserve their actions.

Every action that does something becomes one node, and every node is performed at one place: as a
step, in the body of a loop, or as the follow-up of a click. `Conserves` says this of the nodes
and steps of a plan, together with the rules by which a node follows up on a click: the click is
one on the row of a loop that was open at the time, and the latest one.

The log is planned from its front, so the statements go through a log that grows at its end. What
has been planned so far counts as a plan in which the open loop has ended (`Draft.steps`); such a
plan conserves the actions so far, and the loop knows its latest click (`Draft.Sound`).
-/
import Mathlib.Data.List.Nodup
import Retrace.Proofs.Plan.Outline

set_option autoImplicit false

namespace Retrace

variable {α : Type}

/-! ## Visits -/

/-- The node of a step that is no loop. -/
def Step.node? : Step → Option Nat
  | .node k => some k
  | .loop _ => none

namespace Plan

/-- The nodes that follow up on a node. -/
def followUps (nodes : List (Node α)) (k : Nat) : List Nat :=
  (nodes[k]?.map (·.postClicks)).getD []

/-- The nodes that a step visits: its own, and within a loop those of the body, each with the ones
that follow up on it. -/
def stepVisits (nodes : List (Node α)) : Step → List Nat
  | .node k => [k]
  | .loop l => l.body.flatMap fun k => k :: followUps nodes k

/-- The nodes that the steps visit, in order. -/
def visits (nodes : List (Node α)) (steps : List Step) : List Nat :=
  steps.flatMap (stepVisits nodes)

/-- The nodes that are steps. -/
def singles (steps : List Step) : List Nat := steps.filterMap Step.node?

/-- The loops among the steps. -/
def loopsOf (steps : List Step) : List Loop := steps.filterMap Step.loop?

/-! ## Follow-ups -/

/-- After the actions the loop over `subject` is open, and its latest click on a row is the action
that became node `k`. -/
def LatestClick (actions : List (Action α)) (subject : String) (k : Nat) : Prop :=
  ∃ before click between, actions = before ++ click :: between
    ∧ (work before).length = k ∧ click.kind = .click
    ∧ (outline before).opened.map Span.subject = some subject
    ∧ (Path.relativeTo? subject click.locator).isSome = true
    ∧ (∀ a ∈ between, a.kind ≠ .tableLoopEnd)
    ∧ ∀ a ∈ between, a.kind = .click → Path.relativeTo? subject a.locator = none

/-- The action that became node `j` came while a loop with node `k` in its body was open, was not on
its table, and node `k` was the loop's latest click. -/
def FollowsUp (actions : List (Action α)) (steps : List Step) (k j : Nat) : Prop :=
  ∃ before a after l, actions = before ++ a :: after
    ∧ (work before).length = j ∧ a.kind.isBoundary = false
    ∧ (loopsOf steps)[(outline before).closed.length]? = some l ∧ k ∈ l.body
    ∧ LatestClick before l.subject k ∧ Path.relativeTo? l.subject a.locator = none

/-- The nodes and steps of a plan conserve the actions that it was made from. -/
structure Conserves (actions : List (Action α)) (nodes : List (Node α)) (steps : List Step) :
    Prop where
  /-- There is one node for each action that does something. -/
  nodes_eq : nodes.map (fun n => (n.kind, n.value, n.label))
    = (work actions).map fun a => (a.kind, a.value, a.label)
  /-- Each of them is visited once. -/
  visits_perm : (visits nodes steps).Perm (List.range (work actions).length)
  singles_sorted : (singles steps).Pairwise (· < ·)
  bodies_sorted : ∀ l ∈ loopsOf steps, l.body.Pairwise (· < ·)
  postClicks_sorted : ∀ n ∈ nodes, n.postClicks.Pairwise (· < ·)
  /-- What has follow-ups is a click on a row. -/
  click_of_postClicks : ∀ (k : Nat) (n : Node α), nodes[k]? = some n → n.postClicks ≠ [] →
    n.kind = .click ∧ n.relative = true ∧ ∃ l ∈ loopsOf steps, k ∈ l.body
  /-- What follows up is on the page, and has no follow-ups itself. -/
  followsUp : ∀ (k : Nat) (n : Node α), nodes[k]? = some n → ∀ j ∈ n.postClicks,
    FollowsUp actions steps k j
      ∧ ∃ m, nodes[j]? = some m ∧ m.relative = false ∧ m.postClicks = []
  locator_eq : ∀ (k : Nat) (n : Node α), nodes[k]? = some n → n.relative = false →
    (work actions)[k]?.map Action.locator = some n.locator

/-! ## Loops grow -/

/-- Loops keep their place, their table and their nodes. -/
def Grows (before after : List Loop) : Prop :=
  ∀ (i : Nat) (l : Loop), before[i]? = some l →
    ∃ l' : Loop, after[i]? = some l' ∧ l'.subject = l.subject ∧ l.body ⊆ l'.body

theorem Grows.refl (ls : List Loop) : Grows ls ls :=
  fun _ l h => ⟨l, h, rfl, List.Subset.refl _⟩

theorem Grows.append (ls : List Loop) (l : Loop) : Grows ls (ls ++ [l]) := by
  intro i l' h
  refine ⟨l', ?_, rfl, List.Subset.refl _⟩
  obtain ⟨hi, -⟩ := List.getElem?_eq_some_iff.1 h
  rw [List.getElem?_append_left hi, h]

/-- The last loop may get more nodes, over the same table. -/
theorem Grows.last (ls : List Loop) {l l' : Loop} (hsubject : l'.subject = l.subject)
    (hbody : l.body ⊆ l'.body) : Grows (ls ++ [l]) (ls ++ [l']) := by
  intro i k h
  by_cases hi : i < ls.length
  · rw [List.getElem?_append_left hi] at h
    exact ⟨k, by rw [List.getElem?_append_left hi, h], rfl, List.Subset.refl _⟩
  · rw [List.getElem?_append_right (by omega), List.getElem?_singleton] at h
    split at h
    · next hlast =>
      obtain rfl := Option.some.inj h
      refine ⟨l', ?_, hsubject, hbody⟩
      rw [List.getElem?_append_right (by omega), List.getElem?_singleton, if_pos hlast]
    · simp at h

/-- A body stays the body of a loop, or part of it. -/
theorem Grows.exists_mem_body {before after : List Loop} (h : Grows before after) {k : Nat}
    (hk : ∃ l ∈ before, k ∈ l.body) : ∃ l ∈ after, k ∈ l.body := by
  obtain ⟨l, hl, hk⟩ := hk
  obtain ⟨i, hi⟩ := List.mem_iff_getElem?.1 hl
  obtain ⟨l', hi', -, hbody⟩ := h i l hi
  exact ⟨l', List.mem_iff_getElem?.2 ⟨i, hi'⟩, hbody hk⟩

/-- A follow-up stays one in a log that grows. -/
theorem FollowsUp.append {actions : List (Action α)} {steps steps' : List Step} {k j : Nat}
    (h : FollowsUp actions steps k j) (hgrows : Grows (loopsOf steps) (loopsOf steps'))
    (a : Action α) : FollowsUp (actions ++ [a]) steps' k j := by
  obtain ⟨before, b, after, l, rfl, hj, hkind, hl, hk, hlatest, hpath⟩ := h
  obtain ⟨l', hl', hsubject, hbody⟩ := hgrows _ l hl
  refine ⟨before, b, after ++ [a], l', by simp, hj, hkind, hl', hbody hk, ?_, ?_⟩
  · rw [hsubject]
    exact hlatest
  · rw [hsubject]
    exact hpath

/-- The latest click stays it, up to the end of the loop and to another click on a row. -/
theorem LatestClick.append {actions : List (Action α)} {subject : String} {k : Nat}
    (h : LatestClick actions subject k) {a : Action α} (hend : a.kind ≠ .tableLoopEnd)
    (hclick : a.kind = .click → Path.relativeTo? subject a.locator = none) :
    LatestClick (actions ++ [a]) subject k := by
  obtain ⟨before, click, between, rfl, hk, hkind, hopen, hpath, hends, hclicks⟩ := h
  refine ⟨before, click, between ++ [a], by simp, hk, hkind, hopen, hpath, ?_, ?_⟩
  · intro b hb
    rcases List.mem_append.1 hb with hb | hb
    · exact hends b hb
    · rw [List.mem_singleton.1 hb]
      exact hend
  · intro b hb
    rcases List.mem_append.1 hb with hb | hb
    · exact hclicks b hb
    · rw [List.mem_singleton.1 hb]
      exact hclick

/-! ## What is conserved -/

section
variable {actions : List (Action α)} {nodes : List (Node α)} {steps : List Step}

/-- There are as many nodes as actions that are no bounds. -/
theorem Conserves.length_eq (h : Conserves actions nodes steps) :
    nodes.length = (work actions).length := by
  simpa using congrArg List.length h.nodes_eq

theorem mem_visits_of_mem_singles {k : Nat} (hk : k ∈ singles steps) : k ∈ visits nodes steps := by
  obtain ⟨step, hstep, hnode⟩ := List.mem_filterMap.1 hk
  cases step with
  | node i =>
    obtain rfl := Option.some.inj hnode
    exact List.mem_flatMap.2 ⟨_, hstep, List.mem_singleton.2 rfl⟩
  | loop l => simp [Step.node?] at hnode

theorem mem_visits_of_mem_body {l : Loop} (hl : l ∈ loopsOf steps) {k : Nat} (hk : k ∈ l.body) :
    k ∈ visits nodes steps := by
  obtain ⟨step, hstep, hloop⟩ := List.mem_filterMap.1 hl
  cases step with
  | node i => simp [Step.loop?] at hloop
  | loop l' =>
    obtain rfl := Option.some.inj hloop
    exact List.mem_flatMap.2 ⟨_, hstep, List.mem_flatMap.2 ⟨k, hk, List.mem_cons_self ..⟩⟩

/-- Steps visit nodes only. -/
theorem Conserves.lt_length (h : Conserves actions nodes steps) {k : Nat}
    (hk : k ∈ visits nodes steps) : k < nodes.length := by
  rw [h.length_eq]
  exact List.mem_range.1 (h.visits_perm.mem_iff.1 hk)

/-- **A bound** changes the loops at most, and adds no node to them. -/
theorem Conserves.bound (h : Conserves actions nodes steps) {a : Action α}
    (ha : a.kind.isBoundary = true) {steps' : List Step}
    (hvisits : visits nodes steps' = visits nodes steps) (hsingles : singles steps' = singles steps)
    (hbodies : ∀ l ∈ loopsOf steps', l.body.Pairwise (· < ·))
    (hgrows : Grows (loopsOf steps) (loopsOf steps')) :
    Conserves (actions ++ [a]) nodes steps' := by
  have hwork : work (actions ++ [a]) = work actions := by
    rw [work_append, work_singleton_of_bound ha, List.append_nil]
  refine ⟨?_, ?_, ?_, hbodies, h.postClicks_sorted, ?_, ?_, ?_⟩
  · rw [hwork]
    exact h.nodes_eq
  · rw [hwork, hvisits]
    exact h.visits_perm
  · rw [hsingles]
    exact h.singles_sorted
  · intro k n hn hne
    obtain ⟨hkind, hrelative, hbody⟩ := h.click_of_postClicks k n hn hne
    exact ⟨hkind, hrelative, hgrows.exists_mem_body hbody⟩
  · intro k n hn j hj
    obtain ⟨hfollows, hnode⟩ := h.followsUp k n hn j hj
    exact ⟨hfollows.append hgrows a, hnode⟩
  · rw [hwork]
    exact h.locator_eq

/-- The nodes with one more at the end, which follows up on the one that is given, if any. -/
def grown (nodes : List (Node α)) (n : Node α) : Option Nat → List (Node α)
  | none => nodes ++ [n]
  | some click => (nodes ++ [n]).modify click fun m =>
      { m with postClicks := m.postClicks ++ [nodes.length] }

/-- The new node is the last one, and the others are as before but for the new follow-up. -/
theorem getElem?_grown {nodes : List (Node α)} {n : Node α} {owner : Option Nat}
    (howner : ∀ click ∈ owner, click < nodes.length) {k : Nat} {m : Node α} :
    (grown nodes n owner)[k]? = some m
      ↔ k = nodes.length ∧ m = n ∨ ∃ m₀, nodes[k]? = some m₀ ∧ m = { m₀ with
        postClicks := m₀.postClicks ++ if k ∈ owner then [nodes.length] else [] } := by
  have happend : ∀ m, (nodes ++ [n])[k]? = some m
      ↔ k = nodes.length ∧ m = n ∨ nodes[k]? = some m := by
    intro m
    rcases Nat.lt_trichotomy k nodes.length with hk | rfl | hk
    · rw [List.getElem?_append_left hk]
      exact ⟨.inr, fun h => h.resolve_left fun h => by omega⟩
    · simp [eq_comm]
    · rw [List.getElem?_eq_none (by simp; omega), List.getElem?_eq_none (by omega)]
      exact ⟨fun h => by simp at h, fun h => by rcases h with h | h <;> [omega; simp at h]⟩
  cases owner with
  | none => simp [grown, happend]
  | some click =>
    have hclick := howner click rfl
    simp only [grown, List.getElem?_modify, Option.map_eq_map, Option.map_eq_some_iff, happend]
    constructor
    · rintro ⟨m', ⟨rfl, rfl⟩ | hm', rfl⟩
      · exact .inl ⟨rfl, if_neg (by omega)⟩
      · refine .inr ⟨m', hm', ?_⟩
        by_cases hk : click = k <;> simp [hk]
    · rintro (⟨rfl, rfl⟩ | ⟨m₀, hm₀, rfl⟩)
      · exact ⟨_, .inl ⟨rfl, rfl⟩, if_neg (by omega)⟩
      · refine ⟨m₀, .inr hm₀, ?_⟩
        by_cases hk : click = k <;> simp [hk]

/-- A follow-up changes nothing else about its click. -/
theorem map_grown {β : Type} {nodes : List (Node α)} {n : Node α} {owner : Option Nat}
    {f : Node α → β} (hf : ∀ m postClicks, f { m with postClicks } = f m) :
    (grown nodes n owner).map f = nodes.map f ++ [f n] := by
  cases owner with
  | none => simp [grown]
  | some click =>
    have hmodify : (grown nodes n (some click)).map f = (nodes ++ [n]).map f := by
      refine List.ext_getElem? fun k => ?_
      rw [grown, List.getElem?_map, List.getElem?_map, List.getElem?_modify]
      cases (nodes ++ [n])[k]? with
      | none => rfl
      | some m => by_cases hk : click = k <;> simp [hk, hf]
    rw [hmodify, List.map_append, List.map_singleton]

/-- **A node** is added, and visited in one place more. -/
theorem Conserves.add (h : Conserves actions nodes steps) {a : Action α}
    (ha : a.kind.isBoundary = false) {locator : String} {relative : Bool}
    (hlocator : relative = false → locator = a.locator) {steps' : List Step} {owner : Option Nat}
    (hvisits : (visits (grown nodes (nodeOf a locator relative) owner) steps').Perm
      (visits nodes steps ++ [nodes.length]))
    (hsingles : (singles steps').Pairwise (· < ·))
    (hbodies : ∀ l ∈ loopsOf steps', l.body.Pairwise (· < ·))
    (hgrows : Grows (loopsOf steps) (loopsOf steps'))
    (howner : ∀ click ∈ owner, relative = false
      ∧ FollowsUp (actions ++ [a]) steps' click nodes.length
      ∧ ∃ m, nodes[click]? = some m ∧ m.kind = .click ∧ m.relative = true) :
    Conserves (actions ++ [a]) (grown nodes (nodeOf a locator relative) owner) steps' := by
  have hwork : work (actions ++ [a]) = work actions ++ [a] := by
    rw [work_append, work_singleton ha]
  have hlength := h.length_eq
  have hlt : ∀ click ∈ owner, click < nodes.length := by
    intro click hclick
    obtain ⟨-, -, m, hm, -⟩ := howner click hclick
    exact (List.getElem?_eq_some_iff.1 hm).1
  have hget := fun k m => @getElem?_grown α nodes (nodeOf a locator relative) owner hlt k m
  refine ⟨?_, ?_, hsingles, hbodies, ?_, ?_, ?_, ?_⟩
  · rw [hwork, map_grown fun _ _ => rfl, List.map_append, h.nodes_eq]
    rfl
  · rw [hwork, List.length_append, List.length_singleton, List.range_succ]
    refine hvisits.trans ?_
    rw [hlength]
    exact h.visits_perm.append_right _
  · -- all earlier follow-ups are nodes, and the new node comes after them
    intro m hm
    obtain ⟨k, hk⟩ := List.mem_iff_getElem?.1 hm
    rcases (hget k m).1 hk with ⟨-, rfl⟩ | ⟨m₀, hm₀, rfl⟩
    · exact List.Pairwise.nil
    · have hsorted := h.postClicks_sorted m₀ (List.mem_iff_getElem?.2 ⟨k, hm₀⟩)
      rw [List.pairwise_append]
      refine ⟨hsorted, by split <;> simp, ?_⟩
      intro i hi j hj
      obtain ⟨-, m, hm, -⟩ := h.followsUp k m₀ hm₀ i hi
      have hi := (List.getElem?_eq_some_iff.1 hm).1
      split at hj
      · rw [List.mem_singleton.1 hj]
        exact hi
      · simp at hj
  · intro k m hm hne
    rcases (hget k m).1 hm with ⟨-, rfl⟩ | ⟨m₀, hm₀, rfl⟩
    · exact absurd rfl hne
    · by_cases hk : k ∈ owner
      · obtain ⟨-, ⟨_, _, _, l, -, -, -, hl, hbody, -⟩, m, hm, hkind, hrelative⟩ := howner k hk
        obtain rfl := Option.some.inj (hm.symm.trans hm₀)
        exact ⟨hkind, hrelative, l, List.mem_iff_getElem?.2 ⟨_, hl⟩, hbody⟩
      · rw [if_neg hk, List.append_nil] at hne
        obtain ⟨hkind, hrelative, hbody⟩ := h.click_of_postClicks k m₀ hm₀ hne
        exact ⟨hkind, hrelative, hgrows.exists_mem_body hbody⟩
  · intro k m hm j hj
    rcases (hget k m).1 hm with ⟨-, rfl⟩ | ⟨m₀, hm₀, rfl⟩
    · simp [nodeOf] at hj
    · rcases List.mem_append.1 hj with hj | hj
      · obtain ⟨hfollows, m, hm, hrelative, hnone⟩ := h.followsUp k m₀ hm₀ j hj
        refine ⟨hfollows.append hgrows a, m, (hget j m).2 (.inr ⟨m, hm, ?_⟩), hrelative, hnone⟩
        -- a follow-up is no click on a row, so it gets no follow-up
        have hj : j ∉ owner := by
          intro hj
          obtain ⟨-, -, m', hm', -, hrelative'⟩ := howner j hj
          obtain rfl := Option.some.inj (hm.symm.trans hm')
          simp [hrelative] at hrelative'
        rw [if_neg hj, List.append_nil]
      · by_cases hk : k ∈ owner
        · rw [if_pos hk, List.mem_singleton] at hj
          obtain ⟨hrelative, hfollows, -⟩ := howner k hk
          rw [hj]
          exact ⟨hfollows, _, (hget _ _).2 (.inl ⟨rfl, rfl⟩), hrelative, rfl⟩
        · simp [hk] at hj
  · intro k m hm hrelative
    rw [hwork]
    rcases (hget k m).1 hm with ⟨rfl, rfl⟩ | ⟨m₀, hm₀, rfl⟩
    · rw [hlength, List.getElem?_append_right (Nat.le_refl _), Nat.sub_self]
      exact congrArg some (hlocator hrelative).symm
    · have hk := (List.getElem?_eq_some_iff.1 hm₀).1
      rw [List.getElem?_append_left (by omega)]
      exact h.locator_eq k m₀ hm₀ hrelative

/-! ## Where a node is added -/

/-- A new node has no follow-ups, and is one to at most one of the others. -/
theorem followUps_grown {n : Node α} (hn : n.postClicks = []) {owner : Option Nat}
    (howner : ∀ click ∈ owner, click < nodes.length) (k : Nat) :
    followUps (grown nodes n owner) k
      = followUps nodes k ++ if k ∈ owner then [nodes.length] else [] := by
  have hget := fun m => @getElem?_grown α nodes n owner howner k m
  unfold followUps
  cases hk : nodes[k]? with
  | some m₀ => rw [(hget _).2 (.inr ⟨m₀, hk, rfl⟩)]; rfl
  | none =>
    have howned : k ∉ owner := by
      intro hmem
      rw [List.getElem?_eq_none_iff] at hk
      exact absurd (howner k hmem) (by omega)
    rw [if_neg howned]
    cases hm : (grown nodes n owner)[k]? with
    | none => rfl
    | some m =>
      rcases (hget m).1 hm with ⟨-, rfl⟩ | ⟨m₀, hm₀, -⟩
      · exact hn
      · simp [hk] at hm₀

/-- The steps that do not visit the click are visited as before. -/
theorem visits_grown {n : Node α} (hn : n.postClicks = []) {owner : Option Nat}
    (howner : ∀ click ∈ owner, click < nodes.length)
    (hsteps : ∀ click ∈ owner, click ∉ visits nodes steps) :
    visits (grown nodes n owner) steps = visits nodes steps := by
  refine List.flatMap_congr fun step hstep => ?_
  cases step with
  | node k => rfl
  | loop l =>
    refine List.flatMap_congr fun k hk => ?_
    have hk : k ∉ owner := fun hmem => hsteps k hmem
      (mem_visits_of_mem_body (List.mem_filterMap.2 ⟨_, hstep, rfl⟩) hk)
    rw [followUps_grown hn howner, if_neg hk, List.append_nil]

/-- Where one member of a list brings in more, the list does. -/
theorem flatMap_perm_append {f g : Nat → List Nat} {l extra : List Nat} {k : Nat} (hl : l.Nodup)
    (hk : k ∈ l) (hfk : f k = g k ++ extra) (hf : ∀ i ∈ l, i ≠ k → f i = g i) :
    (l.flatMap f).Perm (l.flatMap g ++ extra) := by
  obtain ⟨s, t, rfl⟩ := List.append_of_mem hk
  have hks : k ∉ s := fun hi => List.disjoint_of_nodup_append hl hi (List.mem_cons_self ..)
  have hkt : k ∉ t := (List.nodup_cons.1 hl.of_append_right).1
  have hs : s.flatMap f = s.flatMap g := by
    refine List.flatMap_congr fun i hi => hf i (by simp [hi]) ?_
    rintro rfl
    exact hks hi
  have ht : t.flatMap f = t.flatMap g := by
    refine List.flatMap_congr fun i hi => hf i (by simp [hi]) ?_
    rintro rfl
    exact hkt hi
  rw [List.flatMap_append, List.flatMap_append, List.flatMap_cons, List.flatMap_cons, hs, ht, hfk,
    List.append_assoc, List.append_assoc, List.append_assoc]
  exact (List.perm_append_comm.append_left _).append_left _

theorem visits_append_step (nodes : List (Node α)) (steps : List Step) (step : Step) :
    visits nodes (steps ++ [step]) = visits nodes steps ++ stepVisits nodes step := by
  simp [visits]

@[simp] theorem singles_append_node (steps : List Step) (k : Nat) :
    singles (steps ++ [.node k]) = singles steps ++ [k] := by
  simp [singles, Step.node?]

@[simp] theorem singles_append_loop (steps : List Step) (l : Loop) :
    singles (steps ++ [.loop l]) = singles steps := by
  simp [singles, Step.node?]

@[simp] theorem loopsOf_append_node (steps : List Step) (k : Nat) :
    loopsOf (steps ++ [.node k]) = loopsOf steps := by
  simp [loopsOf, Step.loop?]

@[simp] theorem loopsOf_append_loop (steps : List Step) (l : Loop) :
    loopsOf (steps ++ [.loop l]) = loopsOf steps ++ [l] := by
  simp [loopsOf, Step.loop?]

/-- A list of nodes stays sorted with a new node at its end. -/
theorem pairwise_append_length {ks : List Nat} (hks : ks.Pairwise (· < ·))
    (hlt : ∀ k ∈ ks, k < nodes.length) : (ks ++ [nodes.length]).Pairwise (· < ·) := by
  rw [List.pairwise_append]
  refine ⟨hks, List.pairwise_singleton _ _, ?_⟩
  intro i hi j hj
  rw [List.mem_singleton.1 hj]
  exact hlt i hi

theorem Conserves.addStep (h : Conserves actions nodes steps) {a : Action α}
    (ha : a.kind.isBoundary = false) :
    Conserves (actions ++ [a]) (grown nodes (nodeOf a a.locator false) none)
      (steps ++ [.node nodes.length]) := by
  have hvisits :=
    @visits_grown α nodes steps (nodeOf a a.locator false) rfl none (by simp) (by simp)
  refine h.add ha (fun _ => rfl) ?_ ?_ ?_ ?_ (by simp)
  · rw [visits_append_step, hvisits]
    exact .refl _
  · rw [singles_append_node]
    exact pairwise_append_length h.singles_sorted
      fun k hk => h.lt_length (mem_visits_of_mem_singles hk)
  · rw [loopsOf_append_node]
    exact h.bodies_sorted
  · rw [loopsOf_append_node]
    exact .refl _

variable {l : Loop}

theorem stepVisits_loop (nodes : List (Node α)) (l : Loop) :
    stepVisits nodes (.loop l) = l.body.flatMap fun k => k :: followUps nodes k := rfl

/-- A node joins the body of the last loop. -/
theorem Conserves.addToBody (h : Conserves actions nodes (steps ++ [.loop l])) {a : Action α}
    (ha : a.kind.isBoundary = false) {locator : String} {relative : Bool}
    (hlocator : relative = false → locator = a.locator) {l' : Loop}
    (hsubject : l'.subject = l.subject) (hbody : l'.body = l.body ++ [nodes.length]) :
    Conserves (actions ++ [a]) (grown nodes (nodeOf a locator relative) none)
      (steps ++ [.loop l']) := by
  have hold := fun steps => @visits_grown α nodes steps (nodeOf a locator relative) rfl none
    (by simp) (by simp)
  have hnew : followUps (grown nodes (nodeOf a locator relative) none) nodes.length = [] := by
    simp [followUps, grown, nodeOf]
  have hlast : stepVisits (grown nodes (nodeOf a locator relative) none) (.loop l')
      = stepVisits nodes (.loop l) ++ [nodes.length] := by
    have hbefore := hold [.loop l]
    rw [visits, visits, List.flatMap_singleton, List.flatMap_singleton] at hbefore
    rw [← hbefore, stepVisits_loop, stepVisits_loop, hbody, List.flatMap_append,
      List.flatMap_singleton, hnew]
  have hmem : l ∈ loopsOf (steps ++ [.loop l]) := by simp
  refine h.add ha hlocator ?_ ?_ ?_ ?_ (by simp)
  · rw [visits_append_step, visits_append_step, hold steps, hlast, List.append_assoc]
  · rw [singles_append_loop, ← singles_append_loop steps l]
    exact h.singles_sorted
  · intro k hk
    rw [loopsOf_append_loop] at hk
    rcases List.mem_append.1 hk with hk | hk
    · exact h.bodies_sorted k (by simp [hk])
    · rw [List.mem_singleton.1 hk, hbody]
      exact pairwise_append_length (h.bodies_sorted l hmem)
        fun k hk => h.lt_length (mem_visits_of_mem_body hmem hk)
  · rw [loopsOf_append_loop, loopsOf_append_loop]
    exact .last _ hsubject (by simp [hbody])

/-- A node follows up on a click in the body of the last loop. -/
theorem Conserves.addFollowUp (h : Conserves actions nodes (steps ++ [.loop l])) {a : Action α}
    (ha : a.kind.isBoundary = false) {click : Nat} (hclick : click ∈ l.body)
    (hfollows : FollowsUp (actions ++ [a]) (steps ++ [.loop l]) click nodes.length)
    (hnode : ∃ m, nodes[click]? = some m ∧ m.kind = .click ∧ m.relative = true) :
    Conserves (actions ++ [a]) (grown nodes (nodeOf a a.locator false) (some click))
      (steps ++ [.loop l]) := by
  have hmem : l ∈ loopsOf (steps ++ [.loop l]) := by simp
  have howner : ∀ k ∈ some click, k < nodes.length := by
    rintro k ⟨⟩
    exact h.lt_length (mem_visits_of_mem_body hmem hclick)
  have hnodup : (visits nodes (steps ++ [.loop l])).Nodup :=
    h.visits_perm.nodup_iff.2 List.nodup_range
  rw [visits_append_step] at hnodup
  -- the click is in no other loop, so the steps before it are visited as before
  have hbefore : visits (grown nodes (nodeOf a a.locator false) (some click)) steps
      = visits nodes steps := by
    refine visits_grown rfl howner ?_
    rintro k ⟨⟩ hk
    exact List.disjoint_of_nodup_append hnodup hk
      (List.mem_flatMap.2 ⟨click, hclick, List.mem_cons_self ..⟩)
  have hlast : (stepVisits (grown nodes (nodeOf a a.locator false) (some click)) (.loop l)).Perm
      (stepVisits nodes (.loop l) ++ [nodes.length]) := by
    have hfollowUps := fun k =>
      @followUps_grown α nodes (nodeOf a a.locator false) rfl (some click) howner k
    refine flatMap_perm_append ((h.bodies_sorted l hmem).imp Nat.ne_of_lt) hclick ?_ ?_
    · rw [hfollowUps, if_pos (Option.mem_some_self click), List.cons_append]
    · intro k _ hk
      have hk : k ∉ some click := by
        rintro ⟨⟩
        exact hk rfl
      rw [hfollowUps, if_neg hk, List.append_nil]
  refine h.add ha (fun _ => rfl) ?_ h.singles_sorted h.bodies_sorted
    (.refl _) ?_
  · rw [visits_append_step, visits_append_step, hbefore, List.append_assoc]
    exact hlast.append_left _
  · rintro k ⟨⟩
    exact ⟨rfl, hfollows, hnode⟩

end

/-! ## Drafts -/

/-- The steps of a draft in which the open loop has ended. -/
def Draft.steps (d : Draft α) : List Step :=
  d.plan.steps ++ d.loop.toList.map fun l => .loop l.close

/-- What has been planned conserves the actions so far, and the open loop knows its latest click. -/
structure Draft.Sound (actions : List (Action α)) (d : Draft α) : Prop where
  conserves : Conserves actions d.plan.nodes d.steps
  follows : d.Follows (outline actions)
  latest : ∀ l ∈ d.loop, ∀ k ∈ l.currentClick, LatestClick actions l.subject k ∧ k ∈ l.body
    ∧ ∃ n, d.plan.nodes[k]? = some n ∧ n.kind = .click ∧ n.relative = true

namespace Draft

variable {actions : List (Action α)} {d : Draft α} {l : OpenLoop}

theorem steps_of_none (hloop : d.loop = none) : d.steps = d.plan.steps := by
  simp [steps, hloop]

theorem steps_of_some (hloop : d.loop = some l) : d.steps = d.plan.steps ++ [.loop l.close] := by
  simp [steps, hloop]

/-- What is added to a row is one node, the last of the body. -/
theorem exists_addToRow_eq (d : Draft α) (l : OpenLoop) (a : Action α) (path : String) :
    ∃ rows within, d.addToRow l a path = { d with
      plan := d.plan.addNode (nodeOf a within true)
      loop := some { l with
        rowSelector := l.rowSelector.or rows
        body := l.body ++ [d.plan.nodes.length]
        currentClick := if a.kind = .click then some d.plan.nodes.length else l.currentClick } } :=
  ⟨_, _, rfl⟩

theorem Sound.conserves_of_none (h : d.Sound actions) (hloop : d.loop = none) :
    Conserves actions d.plan.nodes d.plan.steps := by
  rw [← steps_of_none hloop]
  exact h.conserves

theorem Sound.conserves_of_some (h : d.Sound actions) (hloop : d.loop = some l) :
    Conserves actions d.plan.nodes (d.plan.steps ++ [.loop l.close]) := by
  rw [← steps_of_some hloop]
  exact h.conserves

/-- A bound that leaves the bodies of the loops alone. -/
theorem Sound.conserves_bound (h : d.Sound actions) {a : Action α} {kind : Kind}
    (ha : a.kind = kind) (hkind : kind.isBoundary = true) (hloop : d.loop = some l) {l' : Loop}
    (hsubject : l'.subject = l.subject) (hbody : l'.body = l.body) :
    Conserves (actions ++ [a]) d.plan.nodes (d.plan.steps ++ [.loop l']) := by
  have hconserves := h.conserves_of_some hloop
  refine hconserves.bound (by rw [ha]; exact hkind) ?_ ?_ ?_ ?_
  · rw [visits_append_step, visits_append_step, stepVisits_loop, stepVisits_loop, hbody]
    rfl
  · rw [singles_append_loop, singles_append_loop]
  · intro k hk
    rw [loopsOf_append_loop] at hk
    rcases List.mem_append.1 hk with hk | hk
    · exact hconserves.bodies_sorted k (by simp [hk])
    · rw [List.mem_singleton.1 hk, hbody]
      exact hconserves.bodies_sorted l.close (by simp)
  · rw [loopsOf_append_loop, loopsOf_append_loop]
    exact .last _ hsubject (by rw [hbody]; exact List.Subset.refl _)

/-- A loop that has just begun visits nothing. -/
theorem Sound.conserves_opened (h : d.Sound actions) {a : Action α}
    (hkind : a.kind = .tableLoopStart) (hloop : d.loop = none) {l' : Loop} (hbody : l'.body = []) :
    Conserves (actions ++ [a]) d.plan.nodes (d.plan.steps ++ [.loop l']) := by
  have hconserves := h.conserves_of_none hloop
  refine hconserves.bound (by rw [hkind]; rfl) ?_ ?_ ?_ ?_
  · rw [visits_append_step, stepVisits_loop, hbody, List.flatMap_nil, List.append_nil]
  · rw [singles_append_loop]
  · intro k hk
    rw [loopsOf_append_loop] at hk
    rcases List.mem_append.1 hk with hk | hk
    · exact hconserves.bodies_sorted k hk
    · rw [List.mem_singleton.1 hk, hbody]
      exact .nil
  · rw [loopsOf_append_loop]
    exact .append _ _

/-- The latest click stays it, as long as the action is neither the end of the loop nor another
click on a row. -/
theorem Sound.latest_append (h : d.Sound actions) {a : Action α} (hend : a.kind ≠ .tableLoopEnd)
    (hloop : d.loop = some l)
    (hclick : a.kind = .click → Path.relativeTo? l.subject a.locator = none) :
    ∀ k ∈ l.currentClick, LatestClick (actions ++ [a]) l.subject k ∧ k ∈ l.body
      ∧ ∃ n, d.plan.nodes[k]? = some n ∧ n.kind = .click ∧ n.relative = true := by
  intro k hk
  obtain ⟨hlatest, hrest⟩ := h.latest l hloop k hk
  exact ⟨hlatest.append hend hclick, hrest⟩

theorem ne_tableLoopEnd {a : Action α} (hkind : a.kind.isBoundary = false) :
    a.kind ≠ .tableLoopEnd := by
  intro hend
  rw [hend] at hkind
  exact absurd hkind (by decide)

/-- A click on a row is the latest one from then on. -/
theorem Sound.latestClick (h : d.Sound actions) {a : Action α} {path : String}
    (hclick : a.kind = .click) (hloop : d.loop = some l)
    (hpath : Path.relativeTo? l.subject a.locator = some path) :
    LatestClick (actions ++ [a]) l.subject d.plan.nodes.length := by
  refine ⟨actions, a, [], rfl, ?_, hclick, ?_, ?_, by simp, by simp⟩
  · exact h.conserves.length_eq.symm
  · rw [← h.follows.opened, hloop]
    rfl
  · rw [hpath]
    rfl

/-- What is done beside the table follows up on the latest click. -/
theorem Sound.followsUp (h : d.Sound actions) {a : Action α} (hkind : a.kind.isBoundary = false)
    (hloop : d.loop = some l) (hpath : Path.relativeTo? l.subject a.locator = none) {click : Nat}
    (hcurrent : l.currentClick = some click) :
    FollowsUp (actions ++ [a]) (d.plan.steps ++ [.loop l.close]) click d.plan.nodes.length := by
  obtain ⟨hlatest, hbody, -⟩ := h.latest l hloop click hcurrent
  have hclosed : (outline actions).closed.length = (loopsOf d.plan.steps).length := by
    rw [← h.follows.closed, List.length_map]
    rfl
  refine ⟨actions, a, [], l.close, rfl, ?_, hkind, ?_, hbody, hlatest, hpath⟩
  · exact h.conserves.length_eq.symm
  · rw [loopsOf_append_loop, hclosed, List.getElem?_append_right (Nat.le_refl _), Nat.sub_self]
    rfl

/-- What is recorded on the row joins the body of the open loop. -/
theorem Sound.inRow (h : d.Sound actions) {a : Action α} {path : String}
    (hkind : a.kind.isBoundary = false) (hloop : d.loop = some l)
    (hpath : Path.relativeTo? l.subject a.locator = some path)
    (hfollows : (d.addToRow l a path).Follows (outline (actions ++ [a]))) :
    (d.addToRow l a path).Sound (actions ++ [a]) := by
  obtain ⟨rows, within, hrow⟩ := d.exists_addToRow_eq l a path
  rw [hrow] at hfollows ⊢
  refine ⟨?_, hfollows, ?_⟩
  · rw [steps_of_some rfl]
    exact (h.conserves_of_some hloop).addToBody hkind (by simp) rfl rfl
  · rintro l' ⟨⟩ k hk
    by_cases hclick : a.kind = .click
    · obtain rfl : d.plan.nodes.length = k := by simpa [hclick] using hk
      have hlatest := h.latestClick hclick hloop hpath
      refine ⟨hlatest, ?_, nodeOf a within true, ?_, hclick, rfl⟩
      · exact List.mem_append_right _ (List.mem_singleton.2 rfl)
      · simp [addNode]
    · -- anything else on the row leaves the latest click as it is, and its node in place
      have hk : k ∈ l.currentClick := by simpa [hclick] using hk
      obtain ⟨hlatest, hbody, n, hn, hnode⟩ :=
        h.latest_append (ne_tableLoopEnd hkind) hloop (fun h => absurd h hclick) k hk
      obtain ⟨hlt, -⟩ := List.getElem?_eq_some_iff.1 hn
      refine ⟨hlatest, List.mem_append_left _ hbody, n, ?_, hnode⟩
      exact (List.getElem?_append_left hlt).trans hn

/-- What is recorded beside the table follows up on the latest click, or joins the body while there
is none. -/
theorem Sound.beside (h : d.Sound actions) {a : Action α} (hkind : a.kind.isBoundary = false)
    (hloop : d.loop = some l) (hpath : Path.relativeTo? l.subject a.locator = none)
    (hfollows : (d.addBeside l a).Follows (outline (actions ++ [a]))) :
    (d.addBeside l a).Sound (actions ++ [a]) := by
  have hconserves := h.conserves_of_some hloop
  unfold addBeside at hfollows ⊢
  cases hcurrent : l.currentClick with
  | none =>
    simp only [hcurrent] at hfollows ⊢
    refine ⟨?_, hfollows, ?_⟩
    · rw [steps_of_some rfl]
      exact hconserves.addToBody hkind (fun _ => rfl) rfl rfl
    · rintro l' ⟨⟩ k hk
      simp at hk
  | some click =>
    simp only [hcurrent] at hfollows ⊢
    obtain ⟨-, hbody, hnode⟩ := h.latest l hloop click hcurrent
    refine ⟨?_, hfollows, ?_⟩
    · rw [steps_of_some rfl]
      exact hconserves.addFollowUp hkind hbody (h.followsUp hkind hloop hpath hcurrent) hnode
    · rintro l' ⟨⟩ k hk
      obtain ⟨hlatest, hbody, n, hn, hkindn, hrelative⟩ :=
        h.latest_append (ne_tableLoopEnd hkind) hloop (fun _ => hpath) k hk
      have howner : ∀ i ∈ some click, i < d.plan.nodes.length := by
        rintro i ⟨⟩
        obtain ⟨m, hm, -⟩ := hnode
        exact (List.getElem?_eq_some_iff.1 hm).1
      -- the click gets one more follow-up, and is the same otherwise
      exact ⟨hlatest, hbody, _, (getElem?_grown howner).2 (.inr ⟨n, hn, rfl⟩), hkindn, hrelative⟩

/-- **One action.** It takes sound drafts to sound drafts. -/
theorem Sound.placed (h : d.Sound actions) {a : Action α} {d' : Draft α} (hplaced : d.Placed a d') :
    d'.Sound (actions ++ [a]) := by
  have hfollows : d'.Follows (outline (actions ++ [a])) := by
    rw [outline_append]
    exact h.follows.placed hplaced
  cases hplaced with
  | nested l notice hkind hloop =>
    refine ⟨?_, hfollows, ?_⟩
    · rw [steps_of_some (show (d.skip notice).loop = some l from hloop)]
      exact h.conserves_bound hkind rfl hloop rfl rfl
    · intro l' hl'
      obtain rfl := Option.some.inj (hloop.symm.trans hl')
      exact h.latest_append (by simp [hkind]) hloop (by simp [hkind])
  | stray notice hkind hloop =>
    have hbound : a.kind.isBoundary = true := by
      rcases hkind with hkind | hkind <;> rw [hkind] <;> rfl
    refine ⟨?_, hfollows, ?_⟩
    · exact h.conserves.bound hbound rfl rfl h.conserves.bodies_sorted (.refl _)
    · intro l hl
      rw [show (d.skip notice).loop = none from hloop] at hl
      simp at hl
  | opened hkind hloop =>
    refine ⟨?_, hfollows, ?_⟩
    · rw [steps_of_some rfl]
      exact h.conserves_opened hkind hloop rfl
    · rintro l ⟨⟩ k hk
      simp at hk
  | paginated l hkind hloop =>
    refine ⟨?_, hfollows, ?_⟩
    · rw [steps_of_some rfl]
      exact h.conserves_bound hkind rfl hloop rfl rfl
    · rintro l' ⟨⟩
      have hlatest := h.latest_append (a := a) (by simp [hkind]) hloop (by simp [hkind])
      exact hlatest
  | closed l hkind hloop =>
    refine ⟨?_, hfollows, by simp [closeLoop]⟩
    rw [steps_of_none rfl]
    exact h.conserves_bound hkind rfl hloop rfl rfl
  | single hkind hloop =>
    refine ⟨?_, hfollows, ?_⟩
    · rw [steps_of_none (by exact hloop)]
      exact (h.conserves_of_none hloop).addStep hkind
    · intro l hl
      rw [show d.loop = none from hloop] at hl
      simp at hl
  | inRow l path hkind hloop hpath => exact h.inRow hkind hloop hpath hfollows
  | beside l hkind hloop hpath => exact h.beside hkind hloop hpath hfollows

/-- The draft of a log is sound. The induction is on the log from its end. -/
theorem sound_foldl_add (actions : List (Action α)) (baseUrl : α) :
    (actions.foldl add { plan := { baseUrl } }).Sound actions := by
  induction actions using List.reverseRecOn with
  | nil =>
    refine ⟨⟨rfl, .refl _, .nil, by simp [steps, loopsOf], by simp, by simp, by simp, by simp⟩,
      ⟨rfl, rfl, rfl⟩, by simp⟩
  | append_singleton before a ih =>
    rw [List.foldl_append]
    obtain ⟨hconserves, ⟨hclosed, hopened, hskipped⟩, hlatest⟩ := ih.placed (placed_place _
      (before.foldl add { plan := { baseUrl } }).plan.actionCount a)
    exact ⟨hconserves, ⟨hclosed, hopened, hskipped⟩, hlatest⟩

/-- Every action is counted. -/
theorem actionCount_foldl_add (actions : List (Action α)) (d : Draft α) :
    (actions.foldl add d).plan.actionCount = d.plan.actionCount + actions.length := by
  induction actions generalizing d with
  | nil => rfl
  | cons a rest ih =>
    have hadd : (d.add a).plan.actionCount = d.plan.actionCount + 1 := rfl
    rw [List.foldl_cons, ih, hadd, List.length_cons]
    omega

/-- The plan of a draft has its nodes, and its steps with the open loop ended. -/
theorem finish_frame (d : Draft α) : d.finish.1.nodes = d.plan.nodes
    ∧ d.finish.1.steps = d.steps ∧ d.finish.1.actionCount = d.plan.actionCount := by
  unfold finish
  split
  · next hloop => exact ⟨rfl, (steps_of_none hloop).symm, rfl⟩
  · next l hloop => exact ⟨rfl, (steps_of_some hloop).symm, rfl⟩

end Draft

/-- **Plans conserve their actions.** Every action is counted. Every action that does something
becomes a node, which is visited exactly once; those on no row keep their locators, and those that
follow up on a click came after it, while it was the latest one on the rows of the loop that was
open. All others are bounds in place, or bounds that were left out. -/
theorem conserves_ofActions (actions : List (Action α)) (baseUrl : α) :
    let plan := (ofActions actions baseUrl).1
    Conserves actions plan.nodes plan.steps ∧ plan.actionCount = actions.length
      ∧ plan.skipped + (outline actions).accepted + (work actions).length = actions.length := by
  have hsound := Draft.sound_foldl_add actions baseUrl
  obtain ⟨hnodes, hsteps, hcount⟩ := (actions.foldl Draft.add { plan := { baseUrl } }).finish_frame
  refine ⟨?_, ?_, ?_⟩
  · rw [ofActions, hnodes, hsteps]
    exact hsound.conserves
  · rw [ofActions, hcount, Draft.actionCount_foldl_add]
    exact Nat.zero_add _
  · have htotal := accepted_add_skipped_add_length_work actions
    rw [(ofActions_outline actions baseUrl).1]
    omega

end Plan

end Retrace
