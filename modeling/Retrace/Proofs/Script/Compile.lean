/-
Every action once, in the order of the plan.

The blocks of a script are gone through in order. Those of its frame find no element. The function
of a step says what the step does, in one piece, and nothing else in it finds an element. So the
lines of the text that find an element are those of the nodes that the plan visits
(`locating_compile`), of which there is one for each action that does something.

That every node is found depends on the plan. A step of its own is looked for on the page, so its
node must not be one of a row; what follows up is written below a click only, so nothing else may
have follow-ups (`Plan.Renders`).
-/
import Retrace.Proofs.Except
import Retrace.Proofs.Script.Statements

set_option autoImplicit false

namespace Retrace

open Script

namespace Script

/-! ## Blocks that say one thing -/

/-- The lines of the block say this, in one piece. -/
structure Says (statements : List String) (b : Block) : Prop where
  flat : ∀ l ∈ b, l.Flat
  text_eq : b.map (fun l => unindented l.text) = statements

namespace Says

variable {b b' : Block} {statements statements' : List String}

theorem append (h : Says statements b) (h' : Says statements' b') :
    Says (statements ++ statements') (b ++ b') := by
  refine ⟨fun l hl => (List.mem_append.1 hl).elim (h.flat l) (h'.flat l), ?_⟩
  rw [List.map_append, h.text_eq, h'.text_eq]

theorem flatten {β : Type} {f : β → List String} {ks : List β} {bs : List Block}
    (h : List.Forall₂ (fun k b => Says (f k) b) ks bs) : Says (ks.flatMap f) bs.flatten := by
  induction h with
  | nil => exact ⟨by simp, rfl⟩
  | cons hb _ ih => exact hb.append ih

/-- What a block says, it holds as one chunk. -/
theorem holds (h : Says statements b) : Holds [statements] b :=
  ⟨h.flat, by rw [h.text_eq]; exact .single _⟩

/-- What is written for a node is its statement, if it is looked for where it should be. -/
theorem actionLines (n : Node String) {scope : Scope} (hscope : scope = scopeOf n) (sink : Sink) :
    Says (n.statement sink.name) (actionLines n scope sink) :=
  ⟨flat_actionLines n scope sink, actionLines_text n hscope sink⟩

theorem fixed {cs : List Char} (h : opensLine cs = true) :
    Says [String.ofList cs] [code 0 (String.ofList cs)] := by
  refine ⟨by simpa [Line.Flat, Part.Flat, code] using flat_of_opensLine h, ?_⟩
  rw [List.map_singleton, unindented_text]
  simpa [code, Part.text] using unindented_ofList h

end Says

/-! ## The function of a step -/

theorem flat_stepName (index : Nat) : Text.Flat (stepName index) :=
  .append (s := "step_") (flat_of_opensLine (by decide)) (.repr index)

theorem quiet_stepHead (index : Nat) : (stepHead index).Quiet := by
  have hargs : Text.Flat "(page, data):" := flat_of_opensLine (by decide)
  rw [stepHead, String.append_assoc]
  exact .code_append (by decide) ((flat_stepName index).append hargs) (by simp)

/-- The function of an action holds its statement, with the fields as the place to put a value. -/
theorem holds_actionFunction (index : Nat) {n : Node String} (hpage : n.relative = false) :
    Holds [n.statement "data[\"fields\"]"] (actionFunction index n) := by
  have hkind : Text.Flat (n.kind.name ++ ": ") := by
    refine .append ?_ (by decide)
    cases n.kind
    all_goals
      dsimp only [Kind.name]
      exact flat_of_opensLine (by decide)
  have hremark : Line.Quiet ⟨1, [.code ("# " ++ n.kind.name ++ ": "), .remark n.locator]⟩ := by
    rw [String.append_assoc]
    exact .code_append (by decide) hkind (by simp [Part.Flat])
  have hscope : Scope.page = scopeOf n := by simp [scopeOf, hpage]
  have hstatement := (Says.actionLines n hscope .fields).holds.nest 1
  exact .cons (quiet_stepHead index) (.cons hremark hstatement)

theorem nodeAt_of_getElem? {plan : Plan String} {k : Nat} {n : Node String}
    (h : plan.nodes[k]? = some n) : nodeAt plan k = .ok n := by
  rw [nodeAt, h]

end Script

/-! ## Loops -/

/-- The node is there, and on the page. -/
def Plan.OnPage (plan : Plan String) (k : Nat) : Prop :=
  ∃ n, plan.nodes[k]? = some n ∧ n.relative = false

/-- The node is there, and what follows up on it does so on a click and on the page. -/
def Plan.InBody (plan : Plan String) (k : Nat) : Prop :=
  ∃ n, plan.nodes[k]? = some n ∧ (n.postClicks ≠ [] → n.kind = .click)
    ∧ ∀ j ∈ n.postClicks, plan.OnPage j

/-- What a plan needs for its script. -/
structure Plan.Renders (plan : Plan String) : Prop where
  single : ∀ k ∈ singles plan.steps, plan.OnPage k
  body : ∀ l ∈ loopsOf plan.steps, ∀ k ∈ l.body, plan.InBody k

namespace Script

variable {plan : Plan String}

/-- The follow-ups of a node are found in the table, and done on the page. -/
theorem exists_followUps {js : List Nat} (h : ∀ j ∈ js, plan.OnPage j) :
    ∃ after, js.mapM (nodeAt plan) = .ok after
      ∧ Says ((js.filterMap (plan.nodes[·]?)).flatMap (·.statement "record"))
        (after.flatMap (actionLines · .page .record)) := by
  induction js with
  | nil => exact ⟨[], rfl, by simp, rfl⟩
  | cons j rest ih =>
    obtain ⟨⟨m, hm, hpage⟩, hrest⟩ := List.forall_mem_cons.1 h
    obtain ⟨after, hafter, hlines⟩ := ih hrest
    refine ⟨m :: after, ?_, ?_⟩
    · simp [nodeAt_of_getElem? hm, hafter, bind, Except.bind, pure, Except.pure]
    · rw [List.filterMap_cons, hm, List.flatMap_cons, List.flatMap_cons]
      have hscope : Scope.page = scopeOf m := by simp [scopeOf, hpage]
      exact (Says.actionLines m hscope .record).append hlines

/-- **One node of a body**, and what follows up on it. -/
theorem exists_bodyLines {k : Nat} (h : plan.InBody k) :
    ∃ b, bodyLines plan k = .ok b ∧ Says (Plan.rowStatements plan.nodes k) b := by
  obtain ⟨n, hn, hclick, hafter⟩ := h
  obtain ⟨after, hmap, hlines⟩ := exists_followUps hafter
  have hown := Says.actionLines n (show scopeOf n = _ from rfl) .record
  rw [Plan.rowStatements, hn]
  dsimp only
  by_cases hnone : n.postClicks = []
  · refine ⟨actionLines n (scopeOf n) .record, ?_, ?_⟩
    · simp [bodyLines, nodeAt_of_getElem? hn, hnone, scopeOf, bind, Except.bind, pure, Except.pure]
    · rw [if_pos hnone, List.append_nil]
      exact hown
  · have hwait : Says ["await page.wait_for_load_state(\"domcontentloaded\")"]
        [code 0 "await page.wait_for_load_state(\"domcontentloaded\")"] := .fixed (by decide)
    have hback : Says ["await return_to_list(page, subject, list_url)",
          "row = await current_row(page, subject, rows_selector, index)"]
        [code 0 "await return_to_list(page, subject, list_url)", fetchRow] :=
      (Says.fixed (by decide)).append (.fixed (by decide))
    refine ⟨actionLines n (scopeOf n) .record
      ++ ([code 0 "await page.wait_for_load_state(\"domcontentloaded\")"]
        ++ (after.flatMap (actionLines · .page .record)
          ++ [code 0 "await return_to_list(page, subject, list_url)", fetchRow])), ?_, ?_⟩
    · simp [bodyLines, nodeAt_of_getElem? hn, hclick hnone, hnone, hmap, scopeOf, bind,
        Except.bind, pure, Except.pure]
    · rw [if_neg hnone]
      exact hown.append (hwait.append (hlines.append hback))

/-- **The pass over the rows** does the body, in one piece. -/
theorem exists_rowPass {l : Loop} (h : ∀ k ∈ l.body, plan.InBody k) :
    ∃ pass, rowPass plan l = .ok pass
      ∧ Holds [l.body.flatMap (Plan.rowStatements plan.nodes)] pass := by
  obtain ⟨body, hmap, hall⟩ := exists_mapM_eq_ok (f := bodyLines plan)
    (R := fun k b => Says (Plan.rowStatements plan.nodes k) b)
    fun k hk => exists_bodyLines (h k hk)
  have hend : Holds [] [code 0 "records.append(record)", code 0 "break"] :=
    .fixed (by decide) (.fixed (by decide) .nil)
  have hbody : Holds [l.body.flatMap (Plan.rowStatements plan.nodes)]
      (fetchRow :: code 0 "record = \x7b\x7d"
        :: (body.flatten ++ [code 0 "records.append(record)", code 0 "break"])) :=
    .fixed (by decide) (.fixed (by decide) ((Says.flatten hall).holds.append_quiet hend))
  refine ⟨_, by rw [rowPass, hmap]; rfl, ?_⟩
  rw [List.append_assoc]
  -- the lines in front of the body, the body, and the lines behind it
  iterate 6 refine .fixed (by decide) ?_
  refine (hbody.nest 3).append_quiet ?_
  iterate 8 refine .fixed (by decide) ?_
  exact .nil

/-- **The function of a loop.** -/
theorem exists_loopFunction (index : Nat) {l : Loop} (h : ∀ k ∈ l.body, plan.InBody k) :
    ∃ b, loopFunction plan index l = .ok b ∧ b ≠ []
      ∧ Holds [Plan.stepStatements plan.nodes (.loop l)] b := by
  obtain ⟨pass, hmap, hpass⟩ := exists_rowPass h
  have hliteral : ∀ t, (Part.literal t).Flat := fun _ => trivial
  have hhead : Holds [] [stepHead index, ⟨1, [.code "# table loop over ", .remark l.subject]⟩,
      ⟨1, [.code "subject = ", .literal l.subject]⟩,
      ⟨1, [.code "rows_selector = ", .literal l.rowSelector]⟩,
      code 1 "records = []", code 1 "data[\"tables\"].append(records)"] := by
    refine .cons (quiet_stepHead index) (.cons ?_ (.cons ?_ (.cons ?_ ?_)))
    · exact .parts (by decide) (by simp [Part.Flat])
    · exact .parts (by decide) (by simp [Part.Flat])
    · exact .parts (by decide) (by simp [Part.Flat])
    · exact .fixed (by decide) (.fixed (by decide) .nil)
  cases hnext : nextControl? l with
  | none =>
    refine ⟨_, by rw [loopFunction, hmap]; simp only [hnext, bind, Except.bind]; rfl, by simp, ?_⟩
    rw [List.append_assoc]
    exact hhead.quiet_append (.fixed (by decide) (hpass.nest 1))
  | some control =>
    have hnextPage : Holds [] [
        code 2 "if not await pagination_available(page, next_selector):",
        code 3 "break",
        code 2 "old_row = await first_row_handle(page, subject, rows_selector)",
        code 2 "await (await find_element(page, next_selector)).click()",
        code 2 "await wait_for_next_page(page, subject, old_row)"] := by
      iterate 5 refine .fixed (by decide) ?_
      exact .nil
    refine ⟨_, by rw [loopFunction, hmap]; simp only [hnext, bind, Except.bind]; rfl, by simp, ?_⟩
    rw [List.append_assoc, List.append_assoc]
    refine hhead.quiet_append (.cons ?_ (.fixed (by decide)
      ((hpass.nest 2).append_quiet hnextPage)))
    exact .parts (by decide) (by simp [Part.Flat])

/-- **The function of a step** says what the step does. -/
theorem exists_stepFunction (hplan : plan.Renders) (index : Nat) {step : Step}
    (hstep : step ∈ plan.steps) : ∃ b, stepFunction plan index step = .ok b ∧ b ≠ []
      ∧ Holds [Plan.stepStatements plan.nodes step] b := by
  cases step with
  | node k =>
    obtain ⟨n, hn, hpage⟩ := hplan.single k (List.mem_filterMap.2 ⟨_, hstep, rfl⟩)
    refine ⟨actionFunction index n, by rw [stepFunction, nodeAt_of_getElem? hn]; rfl, ?_, ?_⟩
    · simp [actionFunction]
    · rw [Plan.stepStatements, hn]
      simpa using holds_actionFunction index hpage
  | loop l => exact exists_loopFunction index (hplan.body l (List.mem_filterMap.2 ⟨_, hstep, rfl⟩))

/-! ## The frame -/

/-- The summary locates nothing. -/
theorem holds_summary (plan : Plan String) {count : String} (hcount : Text.Flat count) :
    Holds [] (summary plan count) := by
  have hsteps : Text.Flat (toString plan.steps.length) := .repr _
  have hloops : Text.Flat (toString plan.loops.length) := .repr _
  refine .fixed (by decide) (.fixed (by decide) (.cons .blank (.cons ?_ (.cons ?_ (.cons ?_ ?_)))))
  · show Line.Quiet (code 0 ("actions: " ++ count))
    exact .code_append (by decide) hcount (by simp)
  · show Line.Quiet (code 0 ("steps: " ++ toString plan.steps.length))
    exact .code_append (by decide) hsteps (by simp)
  · show Line.Quiet (code 0 ("table loops: " ++ toString plan.loops.length))
    exact .code_append (by decide) hloops (by simp)
  · exact .fixed (by decide) .nil

theorem holds_imports : Holds [] imports := by
  refine .fixed (by decide) (.cons .blank ?_)
  iterate 4 refine .fixed (by decide) ?_
  exact .cons .blank (.fixed (by decide) .nil)

theorem holds_constants (settings : Settings) (plan : Plan String) :
    Holds [] (constants settings plan) := by
  refine .cons ?_ (.cons ?_ (.cons ?_ (.cons ?_ (.cons ?_ (.cons .blank ?_)))))
  · exact .parts (by decide) (by simp [Part.Flat])
  · exact .code_append (by decide) (by cases settings.headless <;> decide) (by simp)
  · show Line.Quiet (code 0 ("WAIT_TIMEOUT = " ++ toString settings.waitTimeout))
    exact .code_append (by decide) (.toString_int _) (by simp)
  · show Line.Quiet (code 0 ("MAX_RETRIES = " ++ toString settings.maxRetries))
    exact .code_append (by decide) (.toString_int _) (by simp)
  · show Line.Quiet (code 0 ("MAX_PAGES = " ++ toString settings.maxPages))
    exact .code_append (by decide) (.toString_int _) (by simp)
  · exact .fixed (by decide) .nil

/-- To call a step is not to locate anything. -/
theorem quiet_callLine (index : Nat) (step : Step) : (callLine index step).Quiet := by
  have hname := flat_stepName index
  cases step with
  | loop l =>
    rw [callLine, String.append_assoc]
    exact .code_append (by decide) (hname.append (by decide)) (by simp)
  | node k =>
    rw [callLine]
    simp only [String.append_assoc, -String.reduceAppend]
    exact .code_append (by decide)
      (hname.append (.append (by decide) (hname.append (by decide)))) (by simp)

theorem holds_runFunction (plan : Plan String) : Holds [] (runFunction plan) := by
  have hcalls : ∀ l ∈ plan.steps.mapIdx callLine, l.Quiet := by
    intro l hl
    obtain ⟨i, hi, rfl⟩ := List.mem_mapIdx.1 hl
    exact quiet_callLine i _
  rw [runFunction, List.append_assoc]
  iterate 13 refine .fixed (by decide) ?_
  refine .quiet_append (b := plan.steps.mapIdx callLine) (.quiet hcalls) ?_
  iterate 6 refine .fixed (by decide) ?_
  exact .nil

theorem holds_entry : Holds [] entry := by
  iterate 12 refine .fixed (by decide) ?_
  exact .nil

theorem holds_fixedFunctions {hasLoop hasPagination : Bool} {b : Block}
    (hb : b ∈ fixedFunctions hasLoop hasPagination) : b ≠ [] ∧ Holds [] b := by
  have hmem : b ∈ [findElement, waitForPage, runStep] ++ [currentRow, returnToList]
      ++ [paginationAvailable, firstRowHandle, waitForNextPage] := by
    simp only [fixedFunctions, List.mem_append] at hb ⊢
    rcases hb with (hb | hb) | hb
    · exact .inl (.inl hb)
    · exact .inl (.inr (by split at hb <;> simp_all))
    · exact .inr (by split at hb <;> simp_all)
  simp only [List.cons_append, List.nil_append, List.mem_cons, List.not_mem_nil, or_false] at hmem
  rcases hmem with rfl | rfl | rfl | rfl | rfl | rfl | rfl | rfl
  all_goals
    refine ⟨List.cons_ne_nil _ _, ?_⟩
    repeat refine Holds.fixed (by decide) ?_
    exact .nil

/-! ## The whole script -/

/-- Blocks in which no element is found hold no chunks. -/
theorem forall₂_holds_nil {blocks : List Block} (h : ∀ b ∈ blocks, Holds [] b) :
    List.Forall₂ Holds (blocks.map fun _ => []) blocks := by
  rw [List.forall₂_map_left_iff]
  exact List.forall₂_same.2 h

/-- Blocks that hold one chunk each, in a frame that finds no element. -/
theorem among_of_frame {opening steps closing : List Block} {chunks : List (List String)}
    (hne : opening ≠ []) (hopening : ∀ b ∈ opening, b ≠ [] ∧ Holds [] b)
    (hsteps : List.Forall₂ (fun chunk b => b ≠ [] ∧ Holds [chunk] b) chunks steps)
    (hclosing : ∀ b ∈ closing, b ≠ [] ∧ Holds [] b) :
    Among chunks (codeLines (Script.text ⟨opening ++ steps ++ closing⟩))
      ∧ '\r' ∉ (Script.text ⟨opening ++ steps ++ closing⟩).toList := by
  have hchunks : List.Forall₂ Holds (chunks.map fun chunk => [chunk]) steps := by
    rw [List.forall₂_map_left_iff]
    exact hsteps.imp fun _ _ h => h.2
  have hblocks := List.rel_append (List.rel_append
    (forall₂_holds_nil fun b hb => (hopening b hb).2) hchunks)
    (forall₂_holds_nil fun b hb => (hclosing b hb).2)
  have hflatten : ((opening.map fun _ => ([] : List (List String)))
      ++ chunks.map (fun chunk => [chunk]) ++ closing.map fun _ => []).flatten = chunks := by
    simp [← List.flatMap_def]
  rw [← hflatten]
  refine among_codeLines (by simp [hne]) ?_ hblocks
  intro b hb
  rcases List.mem_append.1 hb with hb | hb
  · rcases List.mem_append.1 hb with hb | hb
    · exact (hopening b hb).1
    · exact forall_mem_of_forall₂ hsteps (fun _ _ h => h.1) b hb
  · exact (hclosing b hb).1

/-- **Every step in one piece**, in the order of the plan, and nothing else that finds an
element. -/
theorem exists_ofPlan (settings : Settings) (hplan : plan.Renders) {count : String}
    (hcount : Text.Flat count) :
    ∃ script, ofPlan settings plan count = .ok script
      ∧ Among (plan.steps.map (Plan.stepStatements plan.nodes)) (codeLines script.text)
      ∧ '\r' ∉ script.text.toList := by
  obtain ⟨steps, hmap, hall⟩ := exists_mapM_eq_ok (l := plan.steps.mapIdx fun i s => (i, s))
    (f := fun p => stepFunction plan p.1 p.2)
    (R := fun p b => b ≠ [] ∧ Holds [Plan.stepStatements plan.nodes p.2] b) fun p hp => by
      obtain ⟨i, hi, rfl⟩ := List.mem_mapIdx.1 hp
      exact exists_stepFunction hplan i (List.getElem_mem hi)
  have hsteps : List.Forall₂ (fun chunk b => b ≠ [] ∧ Holds [chunk] b)
      (plan.steps.map (Plan.stepStatements plan.nodes)) steps := by
    have hmapIdx : (plan.steps.mapIdx fun i s => (i, s)).map Prod.snd = plan.steps :=
      List.ext_getElem (by simp) (by simp)
    rw [← hmapIdx, List.map_map, List.forall₂_map_left_iff]
    exact hall
  have hopening : ∀ b ∈ [summary plan count, imports, constants settings plan]
      ++ fixedFunctions (!plan.loops.isEmpty) (hasPagination plan), b ≠ [] ∧ Holds [] b := by
    intro b hb
    rcases List.mem_append.1 hb with hb | hb
    · simp only [List.mem_cons, List.not_mem_nil, or_false] at hb
      rcases hb with rfl | rfl | rfl
      · exact ⟨List.cons_ne_nil _ _, holds_summary plan hcount⟩
      · exact ⟨List.cons_ne_nil _ _, holds_imports⟩
      · exact ⟨List.cons_ne_nil _ _, holds_constants settings plan⟩
    · exact holds_fixedFunctions hb
  have hclosing : ∀ b ∈ [runFunction plan, entry], b ≠ [] ∧ Holds [] b := by
    intro b hb
    simp only [List.mem_cons, List.not_mem_nil, or_false] at hb
    rcases hb with rfl | rfl
    · exact ⟨List.cons_ne_nil _ _, holds_runFunction plan⟩
    · exact ⟨List.cons_ne_nil _ _, holds_entry⟩
  exact ⟨_, by rw [ofPlan, hmap]; rfl, among_of_frame (by simp) hopening hsteps hclosing⟩

end Script

/-! ## The plan of a log -/

namespace Plan

variable {α : Type}

/-- The nodes that are steps so far are looked for on the page. -/
def Draft.StepsOnPage (d : Draft α) : Prop :=
  ∀ k ∈ singles d.plan.steps, ∃ n, d.plan.nodes[k]? = some n ∧ n.relative = false

/-- A node stays what it is when another one is added. -/
theorem exists_getElem?_grown {nodes : List (Node α)} {n m : Node α} {k : Nat}
    (hn : nodes[k]? = some n) (owner : Option Nat) :
    ∃ n', (grown nodes m owner)[k]? = some n' ∧ n'.relative = n.relative := by
  have happend : (nodes ++ [m])[k]? = some n := by
    rw [List.getElem?_append_left (List.getElem?_eq_some_iff.1 hn).1, hn]
  cases owner with
  | none => exact ⟨n, happend, rfl⟩
  | some click =>
    rw [grown, List.getElem?_modify, happend]
    exact ⟨_, rfl, by dsimp only; split <;> rfl⟩

theorem Draft.StepsOnPage.grown {d d' : Draft α} (h : d.StepsOnPage) {m : Node α}
    (owner : Option Nat) (hnodes : d'.plan.nodes = grown d.plan.nodes m owner)
    (hsteps : singles d'.plan.steps = singles d.plan.steps) : d'.StepsOnPage := by
  intro k hk
  rw [hsteps] at hk
  obtain ⟨n, hn, hpage⟩ := h k hk
  obtain ⟨n', hn', hrelative⟩ := exists_getElem?_grown (m := m) hn owner
  exact ⟨n', by rw [hnodes, hn'], by rw [hrelative, hpage]⟩

/-- **One action.** What becomes a step of its own is looked for on the page. -/
theorem Draft.StepsOnPage.placed {d d' : Draft α} {a : Action α} (h : d.StepsOnPage)
    (hplaced : d.Placed a d') : d'.StepsOnPage := by
  cases hplaced with
  | nested => exact h
  | stray => exact h
  | opened => exact h
  | paginated => exact h
  | closed l =>
    intro k hk
    rw [closeLoop, addStep, singles_append_loop] at hk
    exact h k hk
  | single =>
    intro k hk
    rw [addStep, addNode, singles_append_node, List.mem_append, List.mem_singleton] at hk
    rcases hk with hk | rfl
    · obtain ⟨n, hn, hpage⟩ := h k hk
      obtain ⟨n', hn', hrelative⟩ := exists_getElem?_grown (m := nodeOf a a.locator false) hn none
      exact ⟨n', hn', by rw [hrelative, hpage]⟩
    · exact ⟨nodeOf a a.locator false, by simp [addStep, addNode], rfl⟩
  | inRow l path =>
    obtain ⟨rows, within, hrow⟩ := d.exists_addToRow_eq l a path
    exact h.grown (m := nodeOf a within true) none (by rw [hrow]; rfl) (by rw [hrow]; rfl)
  | beside l =>
    refine h.grown (m := nodeOf a a.locator false) l.currentClick ?_ ?_
    all_goals
      unfold addBeside
      cases l.currentClick <;> rfl

/-- The induction is on the log from its end. -/
theorem stepsOnPage_foldl_add (actions : List (Action α)) (baseUrl : α) :
    (actions.foldl Draft.add { plan := { baseUrl } }).StepsOnPage := by
  induction actions using List.reverseRecOn with
  | nil => simp [Draft.StepsOnPage, singles]
  | append_singleton before a ih =>
    rw [List.foldl_append]
    have hplaced := ih.placed (Draft.placed_place _
      (before.foldl Draft.add { plan := { baseUrl } }).plan.actionCount a)
    exact hplaced

theorem singles_steps (d : Draft α) : singles d.steps = singles d.plan.steps := by
  cases hloop : d.loop with
  | none => rw [Draft.steps_of_none hloop]
  | some l => rw [Draft.steps_of_some hloop, singles_append_loop]

/-- The plan of a log is made for a script. -/
theorem renders_ofActions (actions : List (Action String)) (baseUrl : String) :
    (ofActions actions baseUrl).1.Renders := by
  have hconserves := (Draft.sound_foldl_add actions baseUrl).conserves
  have honPage := stepsOnPage_foldl_add actions baseUrl
  obtain ⟨hnodes, hsteps, -⟩ := (actions.foldl Draft.add { plan := { baseUrl } }).finish_frame
  refine ⟨?_, ?_⟩
  · intro k hk
    rw [ofActions, hsteps, singles_steps] at hk
    rw [OnPage, ofActions, hnodes]
    exact honPage k hk
  · intro l hl k hk
    rw [ofActions, hsteps] at hl
    have hlt := hconserves.lt_length (mem_visits_of_mem_body hl hk)
    have hn := List.getElem?_eq_getElem hlt
    refine ⟨_, by rw [ofActions, hnodes, hn], ?_, ?_⟩
    · intro hne
      exact (hconserves.click_of_postClicks k _ hn hne).1
    · intro j hj
      obtain ⟨-, m, hm, hpage, -⟩ := hconserves.followsUp k _ hn j hj
      exact ⟨m, by rw [ofActions, hnodes, hm], hpage⟩

end Plan

/-! ## The script of a log -/

/-- The lines of a script, without their indents, perform the actions as the plan has it. -/
structure Script.Performs (actions : List (Action String)) (plan : Plan String)
    (lines : List String) : Prop where
  /-- The lines that find an element are those of the nodes that the plan visits, in this order. -/
  locating : lines.filter locates
    = (Plan.visits plan.nodes plan.steps).filterMap (plan.nodes[·]?.map Node.locating)
  /-- What a step does is said in one piece, and in the order of the steps. -/
  steps : Among (plan.steps.map (Plan.stepStatements plan.nodes)) lines
  /-- Each action that does something is visited once. -/
  once : (Plan.visits plan.nodes plan.steps).Perm (List.range (work actions).length)
  nodes : plan.nodes.map (fun n => (n.kind, n.value, n.label))
    = (work actions).map fun a => (a.kind, a.value, a.label)

/-- **Scripts perform their actions.** Every log has a script. The lines of its text that find an
element are those of the actions that do something, each of them once and in the order of the plan,
whatever was recorded; and around them stands what the plan says. Only line feeds break its text. -/
theorem Script.performs_compile (settings : Settings) (actions : List (Action String))
    (baseUrl : String) :
    ∃ script, (compile settings actions baseUrl).1 = .ok script
      ∧ Performs actions (Plan.ofActions actions baseUrl).1 (codeLines script.text)
      ∧ '\r' ∉ script.text.toList := by
  have hconserves := (Plan.Draft.sound_foldl_add actions baseUrl).conserves
  obtain ⟨hnodes, hsteps, -⟩ :=
    (actions.foldl Plan.Draft.add { plan := { baseUrl } }).finish_frame
  obtain ⟨script, hscript, hamong, hbreaks⟩ := exists_ofPlan settings
    (Plan.renders_ofActions actions baseUrl) (.repr (Plan.ofActions actions baseUrl).1.actionCount)
  refine ⟨script, hscript, ⟨hamong.filter_locates_eq, hamong, ?_, ?_⟩, hbreaks⟩
  · rw [Plan.ofActions, hnodes, hsteps]
    exact hconserves.visits_perm
  · rw [Plan.ofActions, hnodes]
    exact hconserves.nodes_eq

end Retrace
