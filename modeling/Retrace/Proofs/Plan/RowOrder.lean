/-
The order in which a loop performs what was recorded for its row.

A row performs the body of its loop, and each click of the body with what follows up on it right
behind it. What was recorded beside the table follows up on the latest click on the row, also if the
row was gone on with in between; then it comes before what was recorded earlier. This is the only
way in which a row gets out of order: a row is performed in the order of the log exactly if nothing
beside the table was recorded while the row was gone on with after its latest click
(`Stretch.Steady`). The equivalence holds for every loop of every log by itself
(`rows_inOrder_iff_steady`), and there are logs with a row that is out of order
(`not_inOrder_returnedToRow`).

The loops of a log are found without a plan, each with the actions that were recorded while it was
open (`stretches`). The argument goes along a log that grows at its end. New nodes come last in the
table of nodes, so a row stays in order if the new node is visited last, and gets out of order if it
is not.
-/
import Retrace.Proofs.Plan.Conservation

set_option autoImplicit false

namespace Retrace

variable {α : Type}

/-! ## The loops of a log -/

/-- A loop of a log: its table, and what was recorded while it was open, without the bounds. -/
structure Stretch (α : Type) where
  subject : String
  work : List (Action α) := []

namespace Stretch

def add (s : Stretch α) (a : Action α) : Stretch α := { s with work := s.work ++ [a] }

/-- Was the action recorded in the table? -/
def isOnRow (s : Stretch α) (a : Action α) : Bool := (Path.relativeTo? s.subject a.locator).isSome

/-- What was recorded in the table. -/
def onRow (s : Stretch α) : List (Action α) := s.work.filter s.isOnRow

/-- A click on the row has come, and something else on the row has come since the latest one. -/
def Resumed (s : Stretch α) : Prop :=
  (∃ a ∈ s.onRow, a.kind = .click) ∧ ∀ a ∈ s.onRow.getLast?, a.kind ≠ .click

/-- Nothing beside the table comes while the row is gone on with after its latest click. -/
def Steady (s : Stretch α) : Prop :=
  ∀ before a, before ++ [a] <+: s.work → s.isOnRow a = false →
    ¬ ({ s with work := before } : Stretch α).Resumed

variable {s : Stretch α} {a : Action α}

theorem steady_nil (subject : String) : ({ subject } : Stretch α).Steady := by
  intro before a h
  simp at h

/-- Only the new action has to be looked at. -/
theorem steady_add : (s.add a).Steady ↔ s.Steady ∧ (s.isOnRow a = false → ¬ s.Resumed) := by
  constructor
  · intro h
    refine ⟨fun before b hprefix => h before b ?_, h s.work a List.prefix_rfl⟩
    exact hprefix.trans (List.prefix_append _ _)
  · rintro ⟨hsteady, hlast⟩ before b hprefix
    rcases List.prefix_concat_iff.1 hprefix with heq | hprefix
    · obtain ⟨rfl, hb⟩ := List.append_inj' heq rfl
      obtain rfl : b = a := by simpa using hb
      exact hlast
    · exact hsteady before b hprefix

theorem onRow_add : (s.add a).onRow = s.onRow ++ [a].filter s.isOnRow := List.filter_append ..

theorem onRow_add_of_isOnRow (h : s.isOnRow a = true) : (s.add a).onRow = s.onRow ++ [a] := by
  rw [onRow_add, List.filter_singleton, h]
  rfl

theorem onRow_add_of_not_isOnRow (h : s.isOnRow a = false) : (s.add a).onRow = s.onRow := by
  rw [onRow_add, List.filter_singleton, h]
  exact List.append_nil _

end Stretch

/-- The loops of a log that have ended, and the one that is open. -/
structure Stretches (α : Type) where
  ended : List (Stretch α) := []
  current : Option (Stretch α) := none

/-- Bounds that are out of place change nothing, and what is recorded outside of loops belongs to
none. -/
def Stretches.step (s : Stretches α) (a : Action α) : Stretches α :=
  match a.kind, s.current with
  | .tableLoopStart, none => { s with current := some { subject := a.locator } }
  | .tableLoopEnd, some opened => { ended := s.ended ++ [opened], current := none }
  | .tableLoopStart, some _ | .tableLoopEnd, none | .tablePaginationNext, _ => s
  | .click, current | .input, current | .select, current | .label, current =>
    { s with current := current.map (·.add a) }

/-- The loops of a log, in order. One that is still open at the end is the last one. -/
def stretches (actions : List (Action α)) : List (Stretch α) :=
  let s := actions.foldl Stretches.step {}
  s.ended ++ s.current.toList

theorem Stretches.step_of_work {a : Action α} (h : a.kind.isBoundary = false) (s : Stretches α) :
    s.step a = { s with current := s.current.map (·.add a) } := by
  unfold step
  cases hkind : a.kind <;> simp_all [Kind.isBoundary]

namespace Plan

/-! ## Where a new node is visited -/

section Rows

variable {nodes : List (Node α)} {n : Node α} {l : Loop}

/-- A new node at the end leaves a list of nodes in order, or out of order. -/
theorem pairwise_append_length_iff {ks : List Nat} (hlt : ∀ k ∈ ks, k < nodes.length) :
    (ks ++ [nodes.length]).Pairwise (· < ·) ↔ ks.Pairwise (· < ·) :=
  ⟨fun h => (List.pairwise_append.1 h).1, fun h => pairwise_append_length h hlt⟩

/-- A row is performed as before, if what the new node follows up on is not in its body. -/
theorem stepVisits_grown (hn : n.postClicks = []) {owner : Option Nat}
    (howner : ∀ click ∈ owner, click < nodes.length) (hbody : ∀ click ∈ owner, click ∉ l.body) :
    stepVisits (grown nodes n owner) (.loop l) = stepVisits nodes (.loop l) := by
  refine List.flatMap_congr fun k hk => ?_
  have hk : k ∉ owner := fun hmem => hbody k hmem hk
  rw [followUps_grown hn howner, if_neg hk, List.append_nil]

/-- The node that joins a body is visited last. -/
theorem stepVisits_grown_body (hn : n.postClicks = []) {l' : Loop}
    (hbody : l'.body = l.body ++ [nodes.length]) :
    stepVisits (grown nodes n none) (.loop l') = stepVisits nodes (.loop l) ++ [nodes.length] := by
  have hold := @stepVisits_grown α nodes n l hn none (by simp) (by simp)
  have hnew : followUps (grown nodes n none) nodes.length = [] := by simp [followUps, grown, hn]
  rw [stepVisits_loop, hbody, List.flatMap_append, List.flatMap_singleton, hnew,
    ← stepVisits_loop (grown nodes n none) l, hold]

/-- What follows up on the last node of a body is visited last. -/
theorem stepVisits_grown_last (hn : n.postClicks = []) {outer : List Nat} {click : Nat}
    (hclick : click < nodes.length) (hbody : l.body = outer ++ [click]) (hnew : click ∉ outer) :
    stepVisits (grown nodes n (some click)) (.loop l)
      = stepVisits nodes (.loop l) ++ [nodes.length] := by
  have howner : ∀ k ∈ some click, k < nodes.length := by
    rintro k ⟨⟩
    exact hclick
  have hfollowUps := fun k => @followUps_grown α nodes n hn (some click) howner k
  have houter : outer.flatMap (fun k => k :: followUps (grown nodes n (some click)) k)
      = outer.flatMap fun k => k :: followUps nodes k := by
    refine List.flatMap_congr fun k hk => ?_
    have hk : k ∉ some click := by
      rintro ⟨⟩
      exact hnew hk
    rw [hfollowUps, if_neg hk, List.append_nil]
  have hlast : followUps (grown nodes n (some click)) click
      = followUps nodes click ++ [nodes.length] := by
    rw [hfollowUps, if_pos (Option.mem_some_self click)]
  rw [stepVisits_loop, stepVisits_loop, hbody, List.flatMap_append, List.flatMap_append, houter,
    List.flatMap_singleton, List.flatMap_singleton, hlast]
  simp

/-- What follows up on an earlier node of a body comes before older nodes. -/
theorem not_pairwise_stepVisits_grown (hn : n.postClicks = []) {outer inner : List Nat}
    {click : Nat} (hclick : click < nodes.length) (hbody : l.body = outer ++ click :: inner)
    (hinner : inner ≠ []) (hlt : ∀ k ∈ inner, k < nodes.length) :
    ¬ (stepVisits (grown nodes n (some click)) (.loop l)).Pairwise (· < ·) := by
  have howner : ∀ k ∈ some click, k < nodes.length := by
    rintro k ⟨⟩
    exact hclick
  have hlast : followUps (grown nodes n (some click)) click
      = followUps nodes click ++ [nodes.length] := by
    rw [followUps_grown hn howner, if_pos (Option.mem_some_self click)]
  obtain ⟨k, more, rfl⟩ := List.exists_cons_of_ne_nil hinner
  have hk := hlt k (by simp)
  intro hsorted
  rw [stepVisits_loop, hbody, List.flatMap_append, List.flatMap_cons, hlast] at hsorted
  -- the new node stands before `k`, which is older
  have hbefore := (List.pairwise_append.1 (List.pairwise_append.1 hsorted).2.1).2.2
  have hnew := hbefore nodes.length (by simp) k (by simp)
  omega

end Rows

/-! ## The order of a row -/

/-- The loop of a plan goes over the table of the stretch, and performs its row in the order of the
log exactly if the stretch is steady. -/
structure Performs (nodes : List (Node α)) (s : Stretch α) (l : Loop) : Prop where
  subject : l.subject = s.subject
  inOrder : (stepVisits nodes (.loop l)).Pairwise (· < ·) ↔ s.Steady

/-- The open loop has the stretch so far, and its body ends with the latest click until the row is
gone on with. -/
structure Underway (nodes : List (Node α)) (s : Stretch α) (l : OpenLoop) : Prop
    extends Performs nodes s l.close where
  clicked : (∃ a ∈ s.onRow, a.kind = .click) ↔ ∃ click, l.currentClick = some click
  resumed : ∀ click ∈ l.currentClick, s.Resumed ↔ l.body.getLast? ≠ some click

section

variable {nodes : List (Node α)} {n : Node α} {s : Stretch α} {l : OpenLoop} {a : Action α}

theorem underway_opened (nodes : List (Node α)) (subject : String) :
    Underway nodes { subject } { subject } where
  subject := rfl
  inOrder := iff_of_true .nil (Stretch.steady_nil subject)
  clicked := by simp [Stretch.onRow]
  resumed := by simp

/-- A loop that has ended is performed as before. -/
theorem Performs.grown {l : Loop} (h : Performs nodes s l) (hn : n.postClicks = [])
    {owner : Option Nat} (howner : ∀ click ∈ owner, click < nodes.length)
    (hbody : ∀ click ∈ owner, click ∉ l.body) : Performs (grown nodes n owner) s l where
  subject := h.subject
  inOrder := by
    rw [stepVisits_grown hn howner hbody]
    exact h.inOrder

theorem forall₂_performs_grown {ended : List (Stretch α)} {loops : List Loop}
    (h : List.Forall₂ (Performs nodes) ended loops) (hn : n.postClicks = []) (owner : Option Nat)
    (howner : ∀ click ∈ owner, click < nodes.length)
    (hbody : ∀ click ∈ owner, ∀ l ∈ loops, click ∉ l.body) :
    List.Forall₂ (Performs (Plan.grown nodes n owner)) ended loops := by
  induction h with
  | nil => exact .nil
  | cons hfirst _ ih =>
    refine .cons (hfirst.grown hn howner fun click hclick => ?_) (ih fun click hclick l hl => ?_)
    · exact hbody click hclick _ (List.mem_cons_self ..)
    · exact hbody click hclick l (List.mem_cons_of_mem _ hl)

/-- What is recorded on the row is performed last, and a click is the latest one from then on. -/
theorem Underway.inRow (h : Underway nodes s l) (hn : n.postClicks = [])
    (hlt : ∀ k ∈ stepVisits nodes (.loop l.close), k < nodes.length)
    (hcurrent : ∀ click ∈ l.currentClick, click < nodes.length) (ha : s.isOnRow a = true)
    {l' : OpenLoop} (hsubject : l'.subject = l.subject) (hbody : l'.body = l.body ++ [nodes.length])
    (hclick : l'.currentClick = if a.kind = .click then some nodes.length else l.currentClick) :
    Underway (grown nodes n none) (s.add a) l' where
  subject := hsubject.trans h.subject
  inOrder := by
    have hvisits := @stepVisits_grown_body α nodes n l.close hn l'.close hbody
    rw [hvisits, pairwise_append_length_iff hlt, Stretch.steady_add, h.inOrder]
    simp [ha]
  clicked := by
    rw [Stretch.onRow_add_of_isOnRow ha, hclick]
    by_cases hkind : a.kind = .click
    · simp [hkind]
    · rw [if_neg hkind, ← h.clicked]
      simp [hkind]
  resumed := by
    intro click hmem
    rw [hclick] at hmem
    rw [Stretch.Resumed, Stretch.onRow_add_of_isOnRow ha, hbody, List.getLast?_concat,
      List.getLast?_concat]
    by_cases hkind : a.kind = .click
    · obtain rfl : nodes.length = click := by simpa [hkind] using hmem
      simp [hkind]
    · rw [if_neg hkind] at hmem
      have hold := hcurrent click hmem
      -- there is a click, and now another action comes behind it
      obtain ⟨b, hb, hbkind⟩ := h.clicked.2 ⟨click, hmem⟩
      refine iff_of_true ⟨⟨b, List.mem_append_left _ hb, hbkind⟩, ?_⟩ ?_
      · rintro c ⟨⟩
        exact hkind
      · intro heq
        have heq := Option.some.inj heq
        omega

/-- What is recorded beside the table before any click on the row is performed last. -/
theorem Underway.besideFirst (h : Underway nodes s l) (hn : n.postClicks = [])
    (hlt : ∀ k ∈ stepVisits nodes (.loop l.close), k < nodes.length)
    (hcurrent : l.currentClick = none) (ha : s.isOnRow a = false) {l' : OpenLoop}
    (hsubject : l'.subject = l.subject) (hbody : l'.body = l.body ++ [nodes.length])
    (hclick : l'.currentClick = none) : Underway (grown nodes n none) (s.add a) l' where
  subject := hsubject.trans h.subject
  inOrder := by
    have hvisits := @stepVisits_grown_body α nodes n l.close hn l'.close hbody
    have hresumed : ¬ s.Resumed := by
      intro hresumed
      obtain ⟨click, hsome⟩ := h.clicked.1 hresumed.1
      simp [hcurrent] at hsome
    rw [hvisits, pairwise_append_length_iff hlt, Stretch.steady_add, h.inOrder]
    simp [hresumed]
  clicked := by
    rw [Stretch.onRow_add_of_not_isOnRow ha, h.clicked, hcurrent, hclick]
  resumed := by
    intro click hmem
    simp [hclick] at hmem

/-- What is recorded beside the table behind a click follows up on the click. That is last if the
row was not gone on with, and else comes before something older. -/
theorem Underway.beside (h : Underway nodes s l) (hn : n.postClicks = [])
    (hlt : ∀ k ∈ stepVisits nodes (.loop l.close), k < nodes.length) (hbody : l.body.Nodup)
    {click : Nat} (hcurrent : l.currentClick = some click) (hmem : click ∈ l.body)
    (ha : s.isOnRow a = false) : Underway (grown nodes n (some click)) (s.add a) l where
  subject := h.subject
  inOrder := by
    have hbodylt : ∀ k ∈ l.body, k < nodes.length := fun k hk =>
      hlt k (List.mem_flatMap.2 ⟨k, hk, List.mem_cons_self ..⟩)
    have hclick := hbodylt click hmem
    obtain ⟨outer, inner, hsplit⟩ := List.append_of_mem hmem
    have hresumed := h.resumed click hcurrent
    rw [Stretch.steady_add]
    by_cases hinner : inner = []
    · subst hinner
      have hnew : click ∉ outer := by
        intro hk
        rw [hsplit] at hbody
        exact List.disjoint_of_nodup_append hbody hk (List.mem_singleton.2 rfl)
      have hvisits := @stepVisits_grown_last α nodes n l.close hn outer click hclick hsplit hnew
      have hnot : ¬ s.Resumed := by
        rw [hresumed, hsplit, List.getLast?_concat]
        exact not_not.2 rfl
      rw [hvisits, pairwise_append_length_iff hlt, h.inOrder]
      simp [hnot]
    · -- the body goes on behind the click, so the click is not its last node
      have hunsorted := @not_pairwise_stepVisits_grown α nodes n l.close hn outer inner click hclick
        hsplit hinner fun k hk => hbodylt k (by simp [hsplit, hk])
      have hres : s.Resumed := by
        rw [hresumed, hsplit]
        intro hlast
        have hin : click ∈ inner := by
          rw [List.getLast?_append_cons, List.getLast?_cons_of_ne_nil hinner] at hlast
          exact List.mem_of_getLast? hlast
        rw [hsplit] at hbody
        exact (List.nodup_cons.1 hbody.of_append_right).1 hin
      exact iff_of_false hunsorted fun hsteady => hsteady.2 ha hres
  clicked := by
    rw [Stretch.onRow_add_of_not_isOnRow ha]
    exact h.clicked
  resumed := by
    intro k hk
    rw [Stretch.Resumed, Stretch.onRow_add_of_not_isOnRow ha]
    exact h.resumed k hk

end

/-! ## One action -/

/-- The loops of the draft are those of the stretches so far. -/
structure Draft.MatchesStretches (d : Draft α) (s : Stretches α) : Prop where
  ended : List.Forall₂ (Performs d.plan.nodes) s.ended (loopsOf d.plan.steps)
  current : Option.Rel (Underway d.plan.nodes) s.current d.loop

namespace Draft

variable {actions : List (Action α)} {d d' : Draft α} {l : OpenLoop} {s : Stretches α}
  {a : Action α}

/-- All that the open loop visits are nodes. -/
theorem Sound.lt_length (h : d.Sound actions) (hloop : d.loop = some l) :
    ∀ k ∈ stepVisits d.plan.nodes (.loop l.close), k < d.plan.nodes.length := by
  intro k hk
  apply (h.conserves_of_some hloop).lt_length
  rw [visits_append_step]
  exact List.mem_append_right _ hk

theorem Sound.mem_body (h : d.Sound actions) (hloop : d.loop = some l) :
    ∀ click ∈ l.currentClick, click ∈ l.body :=
  fun click hclick => (h.latest l hloop click hclick).2.1

theorem Sound.current_lt_length (h : d.Sound actions) (hloop : d.loop = some l) :
    ∀ click ∈ l.currentClick, click < d.plan.nodes.length := by
  intro click hclick
  apply h.lt_length hloop
  exact List.mem_flatMap.2 ⟨click, h.mem_body hloop click hclick, List.mem_cons_self ..⟩

/-- The latest click of the open loop is in no loop that has ended. -/
theorem Sound.current_not_mem_body (h : d.Sound actions) (hloop : d.loop = some l) :
    ∀ click ∈ l.currentClick, ∀ l' ∈ loopsOf d.plan.steps, click ∉ l'.body := by
  intro click hclick l' hl' hmem
  have hnodup := (h.conserves_of_some hloop).visits_perm.nodup_iff.2 List.nodup_range
  rw [visits_append_step] at hnodup
  refine List.disjoint_of_nodup_append hnodup (mem_visits_of_mem_body hl' hmem) ?_
  exact List.mem_flatMap.2 ⟨click, h.mem_body hloop click hclick, List.mem_cons_self ..⟩

namespace MatchesStretches

theorem current_eq_none (h : d.MatchesStretches s) (hloop : d.loop = none) : s.current = none := by
  have hcurrent := h.current
  rw [hloop] at hcurrent
  cases hs : s.current with
  | none => rfl
  | some st =>
    rw [hs] at hcurrent
    cases hcurrent

/-- The open loop of a draft is the stretch that has not ended. -/
theorem exists_underway (h : d.MatchesStretches s) (hloop : d.loop = some l) :
    ∃ st, s.current = some st ∧ Underway d.plan.nodes st l := by
  have hcurrent := h.current
  rw [hloop] at hcurrent
  cases hs : s.current with
  | none =>
    rw [hs] at hcurrent
    cases hcurrent
  | some st =>
    rw [hs] at hcurrent
    cases hcurrent with
    | some hopen => exact ⟨st, rfl, hopen⟩

/-- An action that is left out belongs to no stretch. -/
theorem skipped (h : d.MatchesStretches s) (hstep : s.step a = s) (notice : Notice) :
    (d.skip notice).MatchesStretches (s.step a) := by
  rw [hstep]
  exact ⟨h.ended, h.current⟩

theorem opened (h : d.MatchesStretches s) (hkind : a.kind = .tableLoopStart)
    (hloop : d.loop = none) :
    ({ d with loop := some { subject := a.locator } } : Draft α).MatchesStretches (s.step a) := by
  rw [Stretches.step, hkind, h.current_eq_none hloop]
  exact ⟨h.ended, .some (underway_opened _ a.locator)⟩

theorem paginated (h : d.MatchesStretches s) (hkind : a.kind = .tablePaginationNext)
    (hloop : d.loop = some l) (pagination : Option String) :
    ({ d with loop := some { l with pagination } } : Draft α).MatchesStretches (s.step a) := by
  obtain ⟨st, hst, hopen⟩ := h.exists_underway hloop
  rw [Stretches.step, hkind]
  refine ⟨h.ended, ?_⟩
  rw [hst]
  exact .some ⟨⟨hopen.subject, hopen.inOrder⟩, hopen.clicked, hopen.resumed⟩

/-- The open stretch ends with its loop. -/
theorem closed (h : d.MatchesStretches s) (hkind : a.kind = .tableLoopEnd)
    (hloop : d.loop = some l) : (d.closeLoop l).MatchesStretches (s.step a) := by
  obtain ⟨st, hst, hopen⟩ := h.exists_underway hloop
  rw [Stretches.step, hkind, hst]
  refine ⟨?_, .none⟩
  have hloops : loopsOf (d.closeLoop l).plan.steps = loopsOf d.plan.steps ++ [l.close] :=
    loopsOf_append_loop ..
  rw [hloops]
  exact List.rel_append h.ended (.cons hopen.toPerforms .nil)

/-- Outside of loops, what was recorded is a step by itself. -/
theorem single (h : d.MatchesStretches s) (hkind : a.kind.isBoundary = false)
    (hloop : d.loop = none) : ({ d with
      plan := (d.plan.addNode (nodeOf a a.locator false)).addStep (.node d.plan.nodes.length) }
        : Draft α).MatchesStretches (s.step a) := by
  rw [Stretches.step_of_work hkind, h.current_eq_none hloop]
  refine ⟨?_, by rw [hloop]; exact .none⟩
  have hgrown := forall₂_performs_grown h.ended (n := nodeOf a a.locator false) rfl none
    (by simp) (by simp)
  have hloops : loopsOf (d.plan.steps ++ [.node d.plan.nodes.length]) = loopsOf d.plan.steps :=
    loopsOf_append_node ..
  rw [← hloops] at hgrown
  exact hgrown

/-- What was recorded in the table joins the row. -/
theorem inRow (h : d.MatchesStretches s) (hsound : d.Sound actions)
    (hkind : a.kind.isBoundary = false) (hloop : d.loop = some l) {path : String}
    (hpath : Path.relativeTo? l.subject a.locator = some path) :
    (d.addToRow l a path).MatchesStretches (s.step a) := by
  obtain ⟨st, hst, hopen⟩ := h.exists_underway hloop
  obtain ⟨rows, within, hrow⟩ := d.exists_addToRow_eq l a path
  rw [hrow, Stretches.step_of_work hkind, hst]
  have hgrown := forall₂_performs_grown h.ended (n := nodeOf a within true) rfl none
    (by simp) (by simp)
  refine ⟨hgrown, .some (hopen.inRow rfl (hsound.lt_length hloop)
    (hsound.current_lt_length hloop) ?_ rfl rfl rfl)⟩
  rw [Stretch.isOnRow, ← hopen.subject]
  exact Option.isSome_iff_exists.2 ⟨path, hpath⟩

/-- What was recorded beside the table joins the row, or follows up on the latest click if there is
one. -/
theorem beside (h : d.MatchesStretches s) (hsound : d.Sound actions)
    (hkind : a.kind.isBoundary = false) (hloop : d.loop = some l)
    (hpath : Path.relativeTo? l.subject a.locator = none) :
    (d.addBeside l a).MatchesStretches (s.step a) := by
  obtain ⟨st, hst, hopen⟩ := h.exists_underway hloop
  have ha : st.isOnRow a = false := by
    have hpath : Path.relativeTo? st.subject a.locator = none := hopen.subject ▸ hpath
    rw [Stretch.isOnRow, hpath]
    rfl
  have hlt := hsound.lt_length hloop
  rw [Stretches.step_of_work hkind, hst]
  unfold addBeside
  cases hclick : l.currentClick with
  | none =>
    have hgrown := forall₂_performs_grown h.ended (n := nodeOf a a.locator false) rfl none
      (by simp) (by simp)
    exact ⟨hgrown, .some (hopen.besideFirst rfl hlt hclick ha rfl rfl rfl)⟩
  | some click =>
    have hlatest := hsound.current_lt_length hloop
    have hbodies := hsound.current_not_mem_body hloop
    have hbody := hsound.mem_body hloop click hclick
    have hnodup : l.body.Nodup :=
      ((hsound.conserves_of_some hloop).bodies_sorted l.close (by simp)).imp Nat.ne_of_lt
    rw [hclick] at hlatest hbodies
    have hgrown := forall₂_performs_grown h.ended (n := nodeOf a a.locator false) rfl
      (some click) hlatest hbodies
    exact ⟨hgrown, .some (hopen.beside rfl hlt hnodup hclick hbody ha)⟩

/-- **One action.** What is planned of it goes with the stretches. -/
theorem placed (h : d.MatchesStretches s) (hsound : d.Sound actions) (hplaced : d.Placed a d') :
    d'.MatchesStretches (s.step a) := by
  cases hplaced with
  | nested l notice hkind hloop =>
    obtain ⟨st, hst, -⟩ := h.exists_underway hloop
    exact h.skipped (by simp [Stretches.step, hkind, hst]) notice
  | stray notice hkind hloop =>
    have hnone := h.current_eq_none hloop
    refine h.skipped ?_ notice
    rcases hkind with hkind | hkind
    · simp [Stretches.step, hkind]
    · simp [Stretches.step, hkind, hnone]
  | opened hkind hloop => exact h.opened hkind hloop
  | paginated l hkind hloop => exact h.paginated hkind hloop _
  | closed l hkind hloop => exact h.closed hkind hloop
  | single hkind hloop => exact h.single hkind hloop
  | inRow l path hkind hloop hpath => exact h.inRow hsound hkind hloop hpath
  | beside l hkind hloop hpath => exact h.beside hsound hkind hloop hpath

end MatchesStretches

/-- The induction is on the log from its end. -/
theorem matchesStretches_foldl_add (actions : List (Action α)) (baseUrl : α) :
    (actions.foldl add { plan := { baseUrl } }).MatchesStretches
      (actions.foldl Stretches.step {}) := by
  induction actions using List.reverseRecOn with
  | nil => exact ⟨.nil, .none⟩
  | append_singleton before a ih =>
    rw [List.foldl_append, List.foldl_append]
    obtain ⟨hended, hcurrent⟩ := ih.placed (sound_foldl_add before baseUrl) (placed_place _
      (before.foldl add { plan := { baseUrl } }).plan.actionCount a)
    -- counting the action changes neither nodes nor steps
    exact ⟨hended, hcurrent⟩

end Draft

/-! ## The order of rows -/

/-- **A row is performed in the order of the log exactly if its loop is steady.** The loops of a
plan are those of the log, one by one. The nodes that a row visits, each click with what follows up
on it, are in the order in which they were recorded exactly if nothing beside the table was recorded
while the row was gone on with after its latest click. -/
theorem rows_inOrder_iff_steady (actions : List (Action α)) (baseUrl : α) :
    let plan := (ofActions actions baseUrl).1
    List.Forall₂ (fun s l => l.subject = s.subject
        ∧ ((stepVisits plan.nodes (.loop l)).Pairwise (· < ·) ↔ s.Steady))
      (stretches actions) plan.loops := by
  obtain ⟨hended, hcurrent⟩ := Draft.matchesStretches_foldl_add actions baseUrl
  obtain ⟨hnodes, hsteps, -⟩ :=
    (actions.foldl Draft.add { plan := { baseUrl } }).finish_frame
  dsimp only
  have hloops : (ofActions actions baseUrl).1.loops
      = loopsOf (actions.foldl Draft.add { plan := { baseUrl } }).steps := by
    rw [ofActions, loops, hsteps]
    rfl
  rw [hloops, ofActions, hnodes, stretches]
  generalize actions.foldl Draft.add { plan := { baseUrl } } = d at hended hcurrent ⊢
  generalize actions.foldl Stretches.step {} = s at hended hcurrent ⊢
  obtain ⟨plan, loop, notices⟩ := d
  obtain ⟨ended, current⟩ := s
  -- the loop that is open at the end is the last one on both sides
  have hall : List.Forall₂ (Performs plan.nodes) (ended ++ current.toList)
      (loopsOf (⟨plan, loop, notices⟩ : Draft α).steps) := by
    cases hcurrent with
    | none =>
      rw [Draft.steps_of_none rfl, Option.toList_none, List.append_nil]
      exact hended
    | some hopen =>
      rw [Draft.steps_of_some rfl, loopsOf_append_loop, Option.toList_some]
      exact List.rel_append hended (.cons hopen.toPerforms .nil)
  exact hall.imp fun s l h => ⟨h.subject, h.inOrder⟩

/-- The link of a row is followed, the title of the page behind it is noted, then the age in the
row, and then the heading of the page of the table. -/
def returnedToRow : List (Action String) :=
  [{ kind := .tableLoopStart, locator := "table" },
    { kind := .click, locator := "table > tr > td > a" },
    { kind := .label, locator := "#title", label := some "Title" },
    { kind := .label, locator := "table > tr > td.age", label := some "Age" },
    { kind := .label, locator := "h1", label := some "Heading" },
    { kind := .tableLoopEnd, locator := "table" }]

/-- The heading is noted with the title, on the page behind the link and before the age. -/
theorem not_inOrder_returnedToRow :
    ¬ ∀ l ∈ (ofActions returnedToRow "").1.loops,
      (stepVisits (ofActions returnedToRow "").1.nodes (.loop l)).Pairwise (· < ·) := by
  decide +kernel

/-- The row is performed in this order. -/
example : (ofActions returnedToRow "").1.loops.map
    (fun l => stepVisits (ofActions returnedToRow "").1.nodes (.loop l)) = [[0, 1, 3, 2]] := by
  decide +kernel

end Plan

end Retrace
