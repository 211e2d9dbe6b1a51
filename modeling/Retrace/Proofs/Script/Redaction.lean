/-
Recorded text does not change the code of a script.

Two plans that differ in the contents of their texts only are the same once every text is redacted:
what is left of it then is whether there is any (`Plan.redacted`). The scripts of two such plans are
made side by side. Whether a text is empty decides about the code in a few places, and its contents
nowhere; so the two scripts are made of the same lines, but for the recorded texts in them
(`map_erased_ofPlan`). As every script is laid out well, what is read as code in their texts is the
same too (`sameCode_of_redacted_eq`).
-/
import Retrace.Proofs.Script.Layout

set_option autoImplicit false

namespace Retrace

open Script

/-! ## Redacted plans -/

namespace Text

/-- Whether the text is empty is all that is left of it. -/
def redacted (s : String) : String := if s = "" then "" else "x"

/-- An empty text is as good as none. -/
def redacted? (s : Option String) : Option String := (s.filter (· != "")).map redacted

/-- That a text is empty can be told from its redacted form. -/
theorem eq_empty_iff_of_redacted {s t : String} (h : redacted s = redacted t) :
    s = "" ↔ t = "" := by
  unfold redacted at h
  split at h <;> split at h <;> simp_all

end Text

def Node.redacted (n : Node String) : Node String :=
  { n with
    locator := Text.redacted n.locator
    value := Text.redacted? n.value
    label := Text.redacted? n.label }

def Loop.redacted (l : Loop) : Loop :=
  { l with
    subject := Text.redacted l.subject
    pagination := Text.redacted? l.pagination
    rowSelector := Text.redacted l.rowSelector }

def Step.redacted : Step → Step
  | .node k => .node k
  | .loop l => .loop l.redacted

/-- The plan without the contents of its texts. -/
def Plan.redacted (plan : Plan String) : Plan String :=
  { plan with
    baseUrl := Text.redacted plan.baseUrl
    nodes := plan.nodes.map Node.redacted
    steps := plan.steps.map Step.redacted }

/-- The nodes that the plan refers to are there. -/
structure Plan.InRange (plan : Plan String) : Prop where
  single : ∀ k ∈ singles plan.steps, k < plan.nodes.length
  body : ∀ l ∈ plan.loops, ∀ k ∈ l.body, k < plan.nodes.length
  followUp : ∀ n ∈ plan.nodes, ∀ k ∈ n.postClicks, k < plan.nodes.length

namespace Script

/-! ## Two runs -/

/-- Lines without the texts that were recorded. -/
abbrev erase (b : Block) : Block := b.map Line.erased

theorem erase_nest {b c : Block} (h : erase b = erase c) (levels : Nat) :
    erase (b.map (Line.nest levels)) = erase (c.map (Line.nest levels)) := by
  simpa [Function.comp_def, Line.erased_nest] using congrArg (List.map (Line.nest levels)) h

/-- The lines of an action depend on its texts in their literals only. -/
theorem erase_actionLines {n m : Node String} (h : n.redacted = m.redacted) (scope : Scope)
    (sink : Sink) : erase (actionLines n scope sink) = erase (actionLines m scope sink) := by
  simp only [Node.redacted, Node.mk.injEq] at h
  obtain ⟨hkind, hlocator, -, -, hrelative, -⟩ := h
  have hlocate : (locateLine n scope).erased = (locateLine m scope).erased := by
    simp only [locateLine, hrelative, Text.eq_empty_iff_of_redacted hlocator]
    split <;> rfl
  have hact : (actLine n sink).erased = (actLine m sink).erased := by
    unfold actLine
    rw [hkind]
    cases m.kind <;> rfl
  simp only [erase, actionLines, List.map_cons, List.map_nil, hlocate, hact]

theorem erase_actionFunction (index : Nat) {n m : Node String} (h : n.redacted = m.redacted) :
    erase (actionFunction index n) = erase (actionFunction index m) := by
  have hkind : n.kind = m.kind := congrArg (·.kind) h
  have hlines := erase_nest (erase_actionLines h .page .fields) 1
  simp only [erase, actionFunction, List.map_append] at hlines ⊢
  rw [hlines, hkind]
  rfl

section
variable {p q : Plan String}

/-- Plans that are equal but for their texts have the same places. -/
theorem redacted_nodeAt (h : p.redacted = q.redacted) (k : Nat) :
    Node.redacted <$> nodeAt p k = Node.redacted <$> nodeAt q k := by
  have hnodes : p.nodes.map Node.redacted = q.nodes.map Node.redacted := congrArg (·.nodes) h
  have hk : p.nodes[k]?.map Node.redacted = q.nodes[k]?.map Node.redacted := by
    rw [← List.getElem?_map, ← List.getElem?_map, hnodes]
  unfold nodeAt
  cases hp : p.nodes[k]? with
  | none =>
    cases hq : q.nodes[k]? with
    | none => rfl
    | some m => simp [hp, hq] at hk
  | some n =>
    cases hq : q.nodes[k]? with
    | none => simp [hp, hq] at hk
    | some m =>
      rw [hp, hq] at hk
      exact congrArg Except.ok (Option.some.inj hk)

/-- **One node of a body.** -/
theorem erase_bodyLines (h : p.redacted = q.redacted) (k : Nat) :
    erase <$> bodyLines p k = erase <$> bodyLines q k := by
  refine map_bind_congr (redacted_nodeAt h k) fun n m hnm => ?_
  have hkind : n.kind = m.kind := congrArg (·.kind) hnm
  have hrelative : n.relative = m.relative := congrArg (·.relative) hnm
  have hpostClicks : n.postClicks = m.postClicks := congrArg (·.postClicks) hnm
  have hown := erase_actionLines hnm (if m.relative then .row else .page) .record
  rw [hkind, hrelative, hpostClicks]
  dsimp only
  split
  · have hafter : List.map Node.redacted <$> m.postClicks.mapM (nodeAt p)
        = List.map Node.redacted <$> m.postClicks.mapM (nodeAt q) :=
      map_mapM_congr (List.forall₂_same.2 fun j _ => redacted_nodeAt h j)
    refine map_bind_congr hafter fun ns ms hall => congrArg Except.ok ?_
    have hlines : erase (ns.flatMap (actionLines · .page .record))
        = erase (ms.flatMap (actionLines · .page .record)) := by
      rw [erase, erase, List.map_flatMap, List.map_flatMap]
      induction ns generalizing ms with
      | nil =>
        obtain rfl : ms = [] := by simpa using hall.symm
        rfl
      | cons n ns ih =>
        obtain ⟨m, ms, rfl, hm, hms⟩ := List.map_eq_cons_iff.1 hall.symm
        rw [List.flatMap_cons, List.flatMap_cons, ih ms hms.symm]
        exact congrArg (· ++ _) (erase_actionLines hm.symm .page .record)
    simp only [erase, List.map_append] at hown hlines ⊢
    rw [hown, hlines]
  · exact congrArg Except.ok hown

/-- **The pass over the rows.** -/
theorem erase_rowPass (h : p.redacted = q.redacted) {l m : Loop} (hl : l.redacted = m.redacted) :
    erase <$> rowPass p l = erase <$> rowPass q m := by
  have hbody : l.body = m.body := congrArg (·.body) hl
  have hbodies : List.map erase <$> l.body.mapM (bodyLines p)
      = List.map erase <$> m.body.mapM (bodyLines q) := by
    rw [hbody]
    exact map_mapM_congr (List.forall₂_same.2 fun k _ => erase_bodyLines h k)
  refine map_bind_congr hbodies fun bs cs hall => congrArg Except.ok ?_
  have hflatten : erase bs.flatten = erase cs.flatten := by
    rw [erase, erase, List.map_flatten, List.map_flatten]
    exact congrArg List.flatten hall
  have hrow := erase_nest hflatten 3
  simp only [erase, List.map_append] at hrow ⊢
  rw [hrow]

/-- Whether a loop goes over several pages can be told from the redacted one. -/
theorem isSome_nextControl? (l : Loop) :
    (nextControl? l).isSome = l.redacted.pagination.isSome := by
  simp [nextControl?, Loop.redacted, Text.redacted?]

/-- **The function of a loop.** -/
theorem erase_loopFunction (h : p.redacted = q.redacted) (index : Nat) {l m : Loop}
    (hl : l.redacted = m.redacted) :
    erase <$> loopFunction p index l = erase <$> loopFunction q index m := by
  refine map_bind_congr (erase_rowPass h hl) fun pass pass' hpass => ?_
  have hnest := erase_nest hpass
  have hcontrol : (nextControl? l).isSome = (nextControl? m).isSome := by
    rw [isSome_nextControl?, isSome_nextControl?, hl]
  dsimp only
  cases hnext : nextControl? l with
  | none =>
    have hnext' : nextControl? m = none := by simpa [hnext] using hcontrol
    rw [hnext']
    refine congrArg Except.ok ?_
    simp only [erase, List.map_append] at hnest ⊢
    rw [hnest]
    rfl
  | some control =>
    obtain ⟨control', hnext'⟩ :=
      Option.isSome_iff_exists.1 (hcontrol.symm.trans (by rw [hnext]; rfl))
    rw [hnext']
    refine congrArg Except.ok ?_
    simp only [erase, List.map_append] at hnest ⊢
    rw [hnest]
    rfl

/-- **The function of a step.** -/
theorem erase_stepFunction (h : p.redacted = q.redacted) (index : Nat) {s t : Step}
    (hst : s.redacted = t.redacted) :
    erase <$> stepFunction p index s = erase <$> stepFunction q index t := by
  cases s with
  | node k =>
    cases t with
    | node j =>
      obtain rfl := Step.node.inj hst
      exact map_bind_congr (redacted_nodeAt h k) fun n m hnm =>
        congrArg Except.ok (erase_actionFunction index hnm)
    | loop m => simp [Step.redacted] at hst
  | loop l =>
    cases t with
    | node j => simp [Step.redacted] at hst
    | loop m => exact erase_loopFunction h index (Step.loop.inj hst)

/-! ## The whole script -/

theorem map_erased_lines {s t : Script} (h : s.blocks.map erase = t.blocks.map erase) :
    s.lines.map Line.erased = t.lines.map Line.erased := by
  have hblocks : ∀ blocks : List Block,
      (List.intercalate [blank, blank] blocks).map Line.erased
        = List.intercalate [blank, blank] (blocks.map erase) := by
    intro blocks
    induction blocks with
    | nil => rfl
    | cons b rest ih =>
      by_cases hnil : rest = []
      · subst hnil
        simp
      · rw [List.intercalate_cons_of_ne_nil hnil, List.map_cons,
          List.intercalate_cons_of_ne_nil (by simpa using hnil), List.map_append, List.map_append,
          ih]
        rfl
  rw [Script.lines, Script.lines, List.map_append, List.map_append, hblocks, hblocks, h]

/-- The loops of a redacted plan are the redacted loops. -/
theorem loops_redacted (plan : Plan String) :
    plan.redacted.loops = plan.loops.map Loop.redacted := by
  unfold Plan.loops Plan.redacted
  rw [List.filterMap_map, List.map_filterMap]
  refine List.filterMap_congr fun step _ => ?_
  cases step <;> rfl

/-- Whether there is a control for the next page is no matter of its locator. -/
theorem hasPagination_eq (plan : Plan String) :
    hasPagination plan = plan.redacted.loops.any (·.pagination.isSome) := by
  rw [loops_redacted, List.any_map]
  exact List.any_congr rfl fun l => isSome_nextControl? l

theorem mapIdx_callLine (plan : Plan String) :
    plan.steps.mapIdx callLine = plan.redacted.steps.mapIdx callLine := by
  have hcall : ∀ (index : Nat) (step : Step),
      callLine index step = callLine index step.redacted := by
    intro index step
    cases step <;> rfl
  refine List.ext_getElem (by simp [Plan.redacted]) fun i hi hi' => ?_
  rw [List.getElem_mapIdx, List.getElem_mapIdx, hcall]
  simp only [Plan.redacted, List.getElem_map]

/-- **Two runs.** The scripts of plans that differ in the contents of their texts are made of the
same blocks, but for these texts. -/
theorem map_erase_ofPlan (settings : Settings) (h : p.redacted = q.redacted) (count : String) :
    (fun s : Script => s.blocks.map erase) <$> ofPlan settings p count
      = (fun s : Script => s.blocks.map erase) <$> ofPlan settings q count := by
  have hbase : Text.redacted p.baseUrl = Text.redacted q.baseUrl := congrArg (·.baseUrl) h
  have hsteps : p.steps.map Step.redacted = q.steps.map Step.redacted := congrArg (·.steps) h
  have hlength : p.steps.length = q.steps.length := by simpa using congrArg List.length hsteps
  have hloops : p.loops.map Loop.redacted = q.loops.map Loop.redacted := by
    rw [← loops_redacted, ← loops_redacted, h]
  have hloopCount : p.loops.length = q.loops.length := by simpa using congrArg List.length hloops
  have hempty : p.loops.isEmpty = q.loops.isEmpty := by simpa using congrArg List.isEmpty hloops
  have hpages : hasPagination p = hasPagination q := by rw [hasPagination_eq, hasPagination_eq, h]
  have hcalls : p.steps.mapIdx callLine = q.steps.mapIdx callLine := by
    rw [mapIdx_callLine p, mapIdx_callLine q, h]
  have hfunctions : List.map erase <$> ((p.steps.mapIdx fun i s => (i, s)).mapM fun e =>
        stepFunction p e.1 e.2)
      = List.map erase <$> ((q.steps.mapIdx fun i s => (i, s)).mapM fun e =>
        stepFunction q e.1 e.2) := by
    refine map_mapM_congr (List.forall₂_iff_get.2 ⟨by simpa using hlength, fun i hi hi' => ?_⟩)
    rw [List.get_eq_getElem, List.get_eq_getElem, List.getElem_mapIdx, List.getElem_mapIdx]
    refine erase_stepFunction h i ?_
    rw [List.length_mapIdx] at hi hi'
    have hi' : (p.steps.map Step.redacted)[i]? = (q.steps.map Step.redacted)[i]? := by rw [hsteps]
    simpa [hi, hlength ▸ hi] using hi'
  refine map_bind_congr hfunctions fun bs cs hblocks => congrArg Except.ok ?_
  simp only [List.map_append, List.map_cons, List.map_nil, hblocks, hempty, hpages, summary,
    hlength, hloopCount, runFunction, hcalls]
  rfl

/-! ## Scripts of plans in range -/

theorem exists_nodeAt {k : Nat} (hk : k < p.nodes.length) :
    ∃ n, nodeAt p k = .ok n ∧ n ∈ p.nodes :=
  ⟨p.nodes[k], nodeAt_of_getElem? (List.getElem?_eq_getElem hk), List.getElem_mem hk⟩

/-- A row is written if the places in it are those of nodes. -/
theorem exists_bodyLines_of_inRange (h : p.InRange) {k : Nat} (hk : k < p.nodes.length) :
    ∃ b, bodyLines p k = .ok b := by
  obtain ⟨n, hn, hmem⟩ := exists_nodeAt hk
  obtain ⟨after, hafter, -⟩ := exists_mapM_eq_ok (f := nodeAt p) (R := fun _ _ => True)
    (l := n.postClicks) fun j hj => by
      obtain ⟨m, hm, -⟩ := exists_nodeAt (h.followUp n hmem j hj)
      exact ⟨m, hm, trivial⟩
  rw [bodyLines, hn]
  simp only [bind, Except.bind, hafter]
  split <;> exact ⟨_, rfl⟩

theorem exists_stepFunction_of_inRange (h : p.InRange) (index : Nat) {step : Step}
    (hstep : step ∈ p.steps) : ∃ b, stepFunction p index step = .ok b := by
  cases step with
  | node k =>
    obtain ⟨n, hn, -⟩ := exists_nodeAt (h.single k (List.mem_filterMap.2 ⟨_, hstep, rfl⟩))
    rw [stepFunction, hn]
    exact ⟨_, rfl⟩
  | loop l =>
    have hl : l ∈ p.loops := List.mem_filterMap.2 ⟨_, hstep, rfl⟩
    obtain ⟨body, hbody, -⟩ := exists_mapM_eq_ok (f := bodyLines p) (R := fun _ _ => True)
      (l := l.body) fun k hk => by
        obtain ⟨b, hb⟩ := exists_bodyLines_of_inRange h (h.body l hl k hk)
        exact ⟨b, hb, trivial⟩
    rw [stepFunction, loopFunction, rowPass, hbody]
    simp only [bind, Except.bind, pure, Except.pure]
    split <;> exact ⟨_, rfl⟩

/-- A plan whose nodes are all there has a script. -/
theorem exists_ofPlan_of_inRange (settings : Settings) (h : p.InRange) (count : String) :
    ∃ s, ofPlan settings p count = .ok s := by
  obtain ⟨steps, hsteps, -⟩ := exists_mapM_eq_ok (R := fun _ _ => True)
    (l := p.steps.mapIdx fun i s => (i, s)) (f := fun a => stepFunction p a.1 a.2) fun a ha => by
      obtain ⟨i, hi, rfl⟩ := List.mem_mapIdx.1 ha
      obtain ⟨b, hb⟩ := exists_stepFunction_of_inRange h i (List.getElem_mem hi)
      exact ⟨b, hb, trivial⟩
  exact ⟨_, by rw [ofPlan, hsteps]; rfl⟩

theorem inRange_redacted (plan : Plan String) : plan.redacted.InRange ↔ plan.InRange := by
  have hsingles : Plan.singles plan.redacted.steps = Plan.singles plan.steps := by
    unfold Plan.singles Plan.redacted
    rw [List.filterMap_map]
    refine List.filterMap_congr fun step _ => ?_
    cases step <;> rfl
  have hlength : plan.redacted.nodes.length = plan.nodes.length := by simp [Plan.redacted]
  have hbody : (∀ l ∈ plan.redacted.loops, ∀ k ∈ l.body, k < plan.nodes.length)
      ↔ ∀ l ∈ plan.loops, ∀ k ∈ l.body, k < plan.nodes.length := by
    rw [loops_redacted, List.forall_mem_map]
    rfl
  have hfollowUp : (∀ n ∈ plan.redacted.nodes, ∀ k ∈ n.postClicks, k < plan.nodes.length)
      ↔ ∀ n ∈ plan.nodes, ∀ k ∈ n.postClicks, k < plan.nodes.length :=
    List.forall_mem_map
  constructor
  · rintro ⟨h, h', h''⟩
    rw [hlength] at h h' h''
    exact ⟨hsingles ▸ h, hbody.1 h', hfollowUp.1 h''⟩
  · rintro ⟨h, h', h''⟩
    refine ⟨?_, ?_, ?_⟩ <;> rw [hlength]
    · exact hsingles ▸ h
    · exact hbody.2 h'
    · exact hfollowUp.2 h''

/-- **Recorded text does not change the code of a script.** Two plans that differ in the contents of
their texts only have scripts of as many lines, and only line feeds break these. The lines are the
same but for the recorded texts in them, and each of these is read as the content of a literal or as
a remark. So what is read as code is the same, line by line. -/
theorem sameCode_of_redacted_eq (settings : Settings) (h : p.redacted = q.redacted)
    (hp : p.InRange) :
    ∃ s t, ofPlan settings p = .ok s ∧ ofPlan settings q = .ok t
      ∧ '\r' ∉ s.text.toList ∧ '\r' ∉ t.text.toList
      ∧ Text.lines s.text = s.lines.map Line.text ∧ Text.lines t.text = t.lines.map Line.text
      ∧ s.lines.map Line.erased = t.lines.map Line.erased
      ∧ (∀ l ∈ s.lines ++ t.lines, l.Sealed)
      ∧ (Text.lines s.text).map readCode = (Text.lines t.text).map readCode := by
  have hcount : p.actionCount = q.actionCount := congrArg (·.actionCount) h
  have hq : q.InRange := by rwa [← inRange_redacted, ← h, inRange_redacted]
  obtain ⟨s, hs⟩ := exists_ofPlan_of_inRange settings hp (toString p.actionCount)
  obtain ⟨t, ht⟩ := exists_ofPlan_of_inRange settings hq (toString q.actionCount)
  have hblocks := map_erase_ofPlan settings h (toString p.actionCount)
  rw [hs, hcount, ht] at hblocks
  have hlines := map_erased_lines (Except.ok.inj hblocks)
  have hlaidOut := laidOut_of_ofPlan (.repr _) hs
  have hlaidOut' := laidOut_of_ofPlan (.repr _) ht
  refine ⟨s, t, hs, ht, hlaidOut.not_mem_text, hlaidOut'.not_mem_text, hlaidOut.lines_text,
    hlaidOut'.lines_text, hlines, ?_, ?_⟩
  · intro l hl
    exact (List.mem_append.1 hl).elim (hlaidOut.sealed_of_mem_lines l)
      (hlaidOut'.sealed_of_mem_lines l)
  · rw [hlaidOut.map_readCode_lines, hlaidOut'.map_readCode_lines, hlines]

/-- A plan of one field to fill in and one empty loop over a table. -/
def fillAndLoop (field text table : String) : Plan String :=
  { baseUrl := "", nodes := [{ kind := .input, locator := field, value := some text }]
    steps := [.node 0, .loop { subject := table }], actionCount := 3 }

/-- Quotes, line breaks and code in the texts of such a plan change nothing. -/
theorem sameCode_of_redacted_eq_fillAndLoop :
    ∃ s t, ofPlan {} (fillAndLoop "#name" "Ada" "#list") = .ok s
      ∧ ofPlan {} (fillAndLoop "\")\nimport os" "\\\"" "\r# \"\"\"") = .ok t
      ∧ '\r' ∉ s.text.toList ∧ '\r' ∉ t.text.toList
      ∧ Text.lines s.text = s.lines.map Line.text ∧ Text.lines t.text = t.lines.map Line.text
      ∧ s.lines.map Line.erased = t.lines.map Line.erased
      ∧ (∀ l ∈ s.lines ++ t.lines, l.Sealed)
      ∧ (Text.lines s.text).map readCode = (Text.lines t.text).map readCode :=
  sameCode_of_redacted_eq {} rfl ⟨by decide, by decide, by decide⟩

end

end Script

end Retrace
