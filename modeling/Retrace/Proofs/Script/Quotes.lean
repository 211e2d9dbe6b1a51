/-
The texts of a script.

Everything recorded that stands in a script is a text of its plan: the address, the path of a node
and what is said with it, and the paths of a loop. Each of them stands there as a literal, unless it
is empty, and the code around them is fixed and printed (`Quotes`). The blocks of a script are gone
through in order; a remark repeats a text that is quoted in the same block.

For the plan of a log, all nodes are visited. So its script has all of what is said with the
actions of the log, and the paths as the plan has them (`mem_textsOf_iff`).
-/
import Retrace.Proofs.Plan.Texts
import Retrace.Proofs.Script.Compile

set_option autoImplicit false

namespace Retrace

open Script
open Text (Printed allPrinted)

namespace Script

/-! ## The texts of a block -/

/-- The part has no recorded text but these, and its code is printed. -/
def Part.From (texts : List String) : Part → Prop
  | .code s => Printed s
  | .literal t | .remark t => t = "" ∨ t ∈ texts

/-- In the lines stand these texts, each of them as a literal. There are no others, and the code is
printed. An empty text may be left out. -/
structure Quotes (texts : List String) (b : Block) : Prop where
  only : ∀ l ∈ b, ∀ p ∈ l.parts, p.From texts
  literal : ∀ t ∈ texts, t = "" ∨ ∃ l ∈ b, .literal t ∈ l.parts

/-- A part that is drawn from some texts is drawn from more texts. -/
theorem Part.From.mono {texts texts' : List String} {p : Part} (h : p.From texts)
    (hsub : texts ⊆ texts') : p.From texts' := by
  cases p with
  | code s => exact h
  | literal t => exact h.imp_right fun ht => hsub ht
  | remark t => exact h.imp_right fun ht => hsub ht

namespace Quotes

variable {texts texts' : List String} {b b' : Block} {depth : Nat}

theorem nil : Quotes [] [] := ⟨by simp, by simp⟩

/-- The literals stay where there are more lines. -/
theorem literal_of_subset (h : Quotes texts b) (hsub : b ⊆ b') :
    ∀ t ∈ texts, t = "" ∨ ∃ l ∈ b', .literal t ∈ l.parts := by
  intro t ht
  refine (h.literal t ht).imp_right ?_
  rintro ⟨l, hl, hmem⟩
  exact ⟨l, hsub hl, hmem⟩

theorem append (h : Quotes texts b) (h' : Quotes texts' b') :
    Quotes (texts ++ texts') (b ++ b') := by
  refine ⟨?_, List.forall_mem_append.2 ⟨?_, ?_⟩⟩
  · intro l hl p hp
    rcases List.mem_append.1 hl with hl | hl
    · exact (h.only l hl p hp).mono (List.subset_append_left ..)
    · exact (h'.only l hl p hp).mono (List.subset_append_right ..)
  · exact h.literal_of_subset (List.subset_append_left ..)
  · exact h'.literal_of_subset (List.subset_append_right ..)

theorem quiet_append (h : Quotes [] b) (h' : Quotes texts b') : Quotes texts (b ++ b') :=
  h.append h'

theorem append_quiet (h : Quotes texts b) (h' : Quotes [] b') : Quotes texts (b ++ b') := by
  simpa using h.append h'

/-- A line in front that has no texts of its own. -/
theorem cons {l : Line} (hl : ∀ p ∈ l.parts, p.From texts) (h : Quotes texts b) :
    Quotes texts (l :: b) :=
  ⟨List.forall_mem_cons.2 ⟨hl, h.only⟩, h.literal_of_subset (List.subset_cons_self ..)⟩

/-- A line of code in front. -/
theorem code {s : String} (hs : Printed s) (h : Quotes texts b) :
    Quotes texts (Script.code depth s :: b) :=
  cons (by simpa [Script.code, Part.From] using hs) h

/-- A line of fixed text in front quotes nothing. -/
theorem fixed {cs : List Char} (hcs : allPrinted cs = true) (h : Quotes texts b) :
    Quotes texts (Script.code depth (String.ofList cs) :: b) :=
  code (.ofList hcs) h

/-- A line in front that has a text as a literal. -/
theorem quoted {cs : List Char} (hcs : allPrinted cs = true) (t : String) (h : Quotes texts b) :
    Quotes (t :: texts) (⟨depth, [.code (String.ofList cs), .literal t]⟩ :: b) := by
  refine ⟨List.forall_mem_cons.2 ⟨?_, ?_⟩, List.forall_mem_cons.2 ⟨?_, ?_⟩⟩
  · have hcode : (Part.code (String.ofList cs)).From (t :: texts) := Printed.ofList hcs
    simpa [Part.From] using hcode
  · intro l hl p hp
    exact (h.only l hl p hp).mono (List.subset_cons_self ..)
  · exact .inr ⟨_, List.mem_cons_self, by simp⟩
  · exact h.literal_of_subset (List.subset_cons_self ..)

theorem nest (h : Quotes texts b) (levels : Nat) : Quotes texts (b.map (Line.nest levels)) := by
  refine ⟨?_, ?_⟩
  · intro l hl
    obtain ⟨l', hl', rfl⟩ := List.mem_map.1 hl
    exact h.only l' hl'
  · intro t ht
    refine (h.literal t ht).imp_right ?_
    rintro ⟨l, hl, hmem⟩
    exact ⟨l.nest levels, List.mem_map_of_mem hl, hmem⟩

theorem flatten {β : Type} {f : β → List String} {ks : List β} {bs : List Block}
    (h : List.Forall₂ (fun k b => Quotes (f k) b) ks bs) : Quotes (ks.flatMap f) bs.flatten := by
  induction h with
  | nil => exact nil
  | cons hb _ ih => exact hb.append ih

/-- An empty text more. -/
theorem of_subset (h : Quotes texts b) (hsub : texts ⊆ texts')
    (hempty : ∀ t ∈ texts', t = "" ∨ t ∈ texts) : Quotes texts' b := by
  refine ⟨fun l hl p hp => (h.only l hl p hp).mono hsub, ?_⟩
  intro t ht
  rcases hempty t ht with rfl | ht
  · exact .inl rfl
  · exact h.literal t ht

end Quotes

end Script

/-! ## The texts of a plan -/

/-- What is said with an action: a value that is typed or chosen, or the name of a text that is
read. -/
def said (kind : Kind) (value label : Option String) : List String :=
  match kind with
  | .click => []
  | .input | .select => value.toList
  | _ => label.toList

/-- The texts of a node: its path, and what is said with it. -/
def Node.texts (n : Node String) : List String := n.locator :: said n.kind n.value n.label

namespace Plan

/-- The texts of the node, if it is there. -/
def textsAt (nodes : List (Node String)) (k : Nat) : List String :=
  nodes[k]?.toList.flatMap Node.texts

/-- The texts of a node in the body of a loop, and of what follows up on it. -/
def rowTexts (nodes : List (Node String)) (k : Nat) : List String :=
  (k :: followUps nodes k).flatMap (textsAt nodes)

def stepTexts (nodes : List (Node String)) : Step → List String
  | .node k => textsAt nodes k
  | .loop l => l.paths ++ l.body.flatMap (rowTexts nodes)

/-- The texts at a place are those of the node there. -/
theorem textsAt_of_getElem? {nodes : List (Node String)} {k : Nat} {n : Node String}
    (h : nodes[k]? = some n) : textsAt nodes k = n.texts := by
  simp [textsAt, h]

end Plan

namespace Script

open Plan (textsAt rowTexts stepTexts)

/-! ## Actions -/

variable {plan : Plan String}

theorem printed_stepName (index : Nat) : Printed (stepName index) :=
  .append (s := "step_") (.ofList (by decide)) (.repr index)

theorem printed_stepHead (index : Nat) :
    Printed ("async def " ++ stepName index ++ "(page, data):") :=
  .append (.append (.ofList (by decide)) (printed_stepName index)) (.ofList (by decide))

/-- The line that finds the element has its path. -/
theorem quotes_locateLine (n : Node String) (scope : Scope) :
    Quotes [n.locator] [locateLine n scope] := by
  have hopen : Printed ("el = await find_element(" ++ scope.name ++ ", ") := by
    have hname : Printed scope.name := by
      cases scope <;> exact .ofList (by decide)
    exact .append (.append (.ofList (by decide)) hname) (.ofList (by decide))
  have hclose : Printed ")" := .ofList (by decide)
  have hrow : Printed "el = row" := .ofList (by decide)
  unfold locateLine
  split
  · next h =>
    have hempty : n.locator = "" := by simp_all
    exact (Quotes.code hrow .nil).of_subset (by simp) (by simp [hempty])
  · exact ⟨by simp [Part.From, hopen, hclose], by simp⟩

/-- The line that acts on the element has what is said with the action. A text that has no name is
kept under its path. -/
theorem quotes_actLine (n : Node String) (sink : Sink) :
    (∀ p ∈ (actLine n sink).parts, p.From n.texts)
      ∧ ∀ t ∈ said n.kind n.value n.label, t = "" ∨ .literal t ∈ (actLine n sink).parts := by
  have hclose : Printed ")" := .ofList (by decide)
  have hclick : Printed "await el.click()" := .ofList (by decide)
  have hfill : Printed "await el.fill(" := .ofList (by decide)
  have hselect : Printed "await el.select_option(label=" := .ofList (by decide)
  have hsink : Printed (sink.name ++ "[") := by
    have hname : Printed sink.name := by
      cases sink <;> exact .ofList (by decide)
    exact hname.append (.ofList (by decide))
  have hread : Printed "] = (await el.inner_text()).strip()" := .ofList (by decide)
  have hvalue : n.value.getD "" = "" ∨ n.value.getD "" ∈ n.locator :: n.value.toList := by
    cases n.value <;> simp
  have hvalue' : ∀ t ∈ n.value.toList, t = n.value.getD "" := by
    cases n.value <;> simp
  have hname : fieldName n ∈ n.locator :: n.label.toList := by
    unfold fieldName
    split <;> simp_all
  have hname' : ∀ t ∈ n.label.toList, t = "" ∨ t = fieldName n := by
    intro t ht
    -- an empty name counts as none
    by_cases hempty : t = ""
    · exact .inl hempty
    · have hlabel : n.label = some t := Option.mem_toList.1 ht
      right
      unfold fieldName
      split <;> simp_all
  -- a text between two pieces of code
  have hbetween : ∀ {before after t : String} {texts : List String}, Printed before →
      Printed after → t = "" ∨ t ∈ texts →
      ∀ p ∈ [Part.code before, .literal t, .code after], p.From texts := by
    intro before after t texts hbefore hafter ht
    simpa [Part.From, hbefore, hafter] using ht
  unfold actLine Node.texts said
  cases n.kind with
  | click => exact ⟨by simpa [code, Part.From] using hclick, by simp⟩
  | input =>
    refine ⟨hbetween hfill hclose hvalue, ?_⟩
    intro t ht
    simp [hvalue' t ht]
  | select =>
    refine ⟨hbetween hselect hclose hvalue, ?_⟩
    intro t ht
    simp [hvalue' t ht]
  | _ =>
    refine ⟨hbetween hsink hread (.inr hname), ?_⟩
    intro t ht
    exact (hname' t ht).imp_right fun heq => by simp [heq]

/-- The lines of an action quote its own texts and nothing else. -/
theorem quotes_actionLines (n : Node String) (scope : Scope) (sink : Sink) :
    Quotes n.texts (actionLines n scope sink) := by
  obtain ⟨hact, hsaid⟩ := quotes_actLine n sink
  have hlocate := quotes_locateLine n scope
  refine ⟨?_, List.forall_mem_cons.2 ⟨?_, ?_⟩⟩
  · intro l hl p hp
    rcases List.mem_cons.1 hl with rfl | hl
    · exact (hlocate.only _ (by simp) p hp).mono (by simp [Node.texts])
    · obtain rfl := List.mem_singleton.1 hl
      exact hact p hp
  · refine (hlocate.literal _ (by simp)).imp_right ?_
    rintro ⟨l, hl, hmem⟩
    exact ⟨l, by simp [actionLines, List.mem_singleton.1 hl], hmem⟩
  · intro t ht
    exact (hsaid t ht).imp_right fun hmem => ⟨_, by simp [actionLines], hmem⟩

theorem quotes_actionFunction (index : Nat) (n : Node String) :
    Quotes n.texts (actionFunction index n) := by
  have hmark : Printed ("# " ++ n.kind.name ++ ": ") := by
    have hname : Printed n.kind.name := by
      cases n.kind <;> exact .ofList (by decide)
    exact .append (.append (.ofList (by decide)) hname) (.ofList (by decide))
  refine .code (printed_stepHead index) (.cons ?_ ((quotes_actionLines n .page .fields).nest 1))
  simp [Part.From, hmark, Node.texts]

/-- What follows up on a click. -/
theorem exists_quotes_followUps {js : List Nat} (h : ∀ j ∈ js, plan.OnPage j) :
    ∃ after, js.mapM (nodeAt plan) = .ok after
      ∧ Quotes (js.flatMap (textsAt plan.nodes)) (after.flatMap (actionLines · .page .record)) := by
  induction js with
  | nil => exact ⟨[], rfl, .nil⟩
  | cons j rest ih =>
    obtain ⟨⟨m, hm, -⟩, hrest⟩ := List.forall_mem_cons.1 h
    obtain ⟨after, hafter, hlines⟩ := ih hrest
    refine ⟨m :: after, ?_, ?_⟩
    · simp [nodeAt_of_getElem? hm, hafter, bind, Except.bind, pure, Except.pure]
    · rw [List.flatMap_cons, List.flatMap_cons, Plan.textsAt_of_getElem? hm]
      exact (quotes_actionLines m .page .record).append hlines

/-- **One node of a body**, and what follows up on it. -/
theorem exists_quotes_bodyLines {k : Nat} (h : plan.InBody k) :
    ∃ b, bodyLines plan k = .ok b ∧ Quotes (rowTexts plan.nodes k) b := by
  obtain ⟨n, hn, hclick, hafter⟩ := h
  obtain ⟨after, hmap, hlines⟩ := exists_quotes_followUps hafter
  have hown := quotes_actionLines n (if n.relative then .row else .page) .record
  have hfollowUps : Plan.followUps plan.nodes k = n.postClicks := by simp [Plan.followUps, hn]
  rw [rowTexts, List.flatMap_cons, Plan.textsAt_of_getElem? hn, hfollowUps]
  by_cases hnone : n.postClicks = []
  · refine ⟨actionLines n (if n.relative then .row else .page) .record, ?_, ?_⟩
    · simp [bodyLines, nodeAt_of_getElem? hn, hnone, bind, Except.bind, pure, Except.pure]
    · simpa [hnone] using hown
  · have hwait : Quotes [] [code 0 "await page.wait_for_load_state(\"domcontentloaded\")"] :=
      .fixed (by decide) .nil
    have hback : Quotes [] [code 0 "await return_to_list(page, subject, list_url)", fetchRow] :=
      .fixed (by decide) (.fixed (by decide) .nil)
    refine ⟨actionLines n (if n.relative then .row else .page) .record
      ++ [code 0 "await page.wait_for_load_state(\"domcontentloaded\")"]
      ++ after.flatMap (actionLines · .page .record)
      ++ [code 0 "await return_to_list(page, subject, list_url)", fetchRow], ?_, ?_⟩
    · simp [bodyLines, nodeAt_of_getElem? hn, hclick hnone, hnone, hmap, bind, Except.bind, pure,
        Except.pure]
    · exact ((hown.append_quiet hwait).append hlines).append_quiet hback

/-- **The pass over the rows.** -/
theorem exists_quotes_rowPass {l : Loop} (h : ∀ k ∈ l.body, plan.InBody k) :
    ∃ pass, rowPass plan l = .ok pass
      ∧ Quotes (l.body.flatMap (rowTexts plan.nodes)) pass := by
  obtain ⟨body, hmap, hall⟩ := exists_mapM_eq_ok (f := bodyLines plan)
    (R := fun k b => Quotes (rowTexts plan.nodes k) b)
    fun k hk => exists_quotes_bodyLines (h k hk)
  refine ⟨_, by rw [rowPass, hmap]; rfl, ?_⟩
  -- the lines in front of the rows, those of a row, and the lines behind them
  refine .append_quiet (.quiet_append ?_ (.nest (.append_quiet (.quiet_append ?_
    (.flatten hall)) ?_) 3)) ?_
  · iterate 6 refine .fixed (by decide) ?_
    exact .nil
  · exact .fixed (by decide) (.fixed (by decide) .nil)
  · exact .fixed (by decide) (.fixed (by decide) .nil)
  · iterate 8 refine .fixed (by decide) ?_
    exact .nil

/-! ## Steps -/

/-- A control for the next page is quoted, unless it is empty. -/
theorem quotes_nextControl (l : Loop) {texts : List String} {b : Block}
    (h : Quotes ((nextControl? l).toList ++ texts) b) :
    Quotes (l.pagination.toList ++ texts) b := by
  cases hpagination : l.pagination with
  | none => simpa [nextControl?, hpagination] using h
  | some control =>
    by_cases hempty : control = ""
    · have hnone : nextControl? l = none := by simp [nextControl?, hpagination, hempty]
      rw [hnone] at h
      exact h.of_subset (by simp) (by simp [hempty])
    · have hsome : nextControl? l = some control := by simp [nextControl?, hpagination, hempty]
      rwa [hsome] at h

/-- **The function of a loop.** -/
theorem exists_quotes_loopFunction (index : Nat) {l : Loop} (h : ∀ k ∈ l.body, plan.InBody k) :
    ∃ b, loopFunction plan index l = .ok b ∧ Quotes (stepTexts plan.nodes (.loop l)) b := by
  obtain ⟨pass, hmap, hpass⟩ := exists_quotes_rowPass h
  -- what all loops begin with, in front of the lines of this one
  have hhead : ∀ {texts : List String} {b : Block}, Quotes texts b →
      Quotes (l.subject :: l.rowSelector :: texts)
        ([stepHead index, ⟨1, [.code "# table loop over ", .remark l.subject]⟩,
          ⟨1, [.code "subject = ", .literal l.subject]⟩,
          ⟨1, [.code "rows_selector = ", .literal l.rowSelector]⟩,
          code 1 "records = []", code 1 "data[\"tables\"].append(records)"] ++ b) := by
    intro texts b hb
    refine .code (printed_stepHead index) (.cons ?_ (.quoted (by decide) _ (.quoted (by decide) _
      (.fixed (by decide) (.fixed (by decide) hb)))))
    have hmark : Printed "# table loop over " := .ofList (by decide)
    simp [Part.From, hmark]
  cases hnext : nextControl? l with
  | none =>
    refine ⟨_, by rw [loopFunction, hmap]; simp only [hnext, bind, Except.bind]; rfl, ?_⟩
    rw [List.append_assoc]
    refine hhead (quotes_nextControl l ?_)
    rw [hnext]
    exact .fixed (by decide) (hpass.nest 1)
  | some control =>
    have hnextPage : Quotes [] [
        code 2 "if not await pagination_available(page, next_selector):",
        code 3 "break",
        code 2 "old_row = await first_row_handle(page, subject, rows_selector)",
        code 2 "await (await find_element(page, next_selector)).click()",
        code 2 "await wait_for_next_page(page, subject, old_row)"] := by
      iterate 5 refine .fixed (by decide) ?_
      exact .nil
    refine ⟨_, by rw [loopFunction, hmap]; simp only [hnext, bind, Except.bind]; rfl, ?_⟩
    rw [List.append_assoc, List.append_assoc]
    refine hhead (quotes_nextControl l ?_)
    rw [hnext]
    exact .quoted (by decide) _ (.fixed (by decide) ((hpass.nest 2).append_quiet hnextPage))

/-- **The function of a step.** -/
theorem exists_quotes_stepFunction (hplan : plan.Renders) (index : Nat) {step : Step}
    (hstep : step ∈ plan.steps) :
    ∃ b, stepFunction plan index step = .ok b ∧ Quotes (stepTexts plan.nodes step) b := by
  cases step with
  | node k =>
    obtain ⟨n, hn, -⟩ := hplan.single k (List.mem_filterMap.2 ⟨_, hstep, rfl⟩)
    refine ⟨actionFunction index n, by rw [stepFunction, nodeAt_of_getElem? hn]; rfl, ?_⟩
    rw [stepTexts, Plan.textsAt_of_getElem? hn]
    exact quotes_actionFunction index n
  | loop l =>
    exact exists_quotes_loopFunction index (hplan.body l (List.mem_filterMap.2 ⟨_, hstep, rfl⟩))

/-! ## The frame -/

theorem quotes_summary (plan : Plan String) {count : String} (hcount : Printed count) :
    Quotes [] (summary plan count) := by
  have hsteps : Printed (toString plan.steps.length) := .repr _
  have hloops : Printed (toString plan.loops.length) := .repr _
  refine .fixed (by decide) (.fixed (by decide) (.cons (by simp [blank]) ?_))
  refine .code (.append (s := "actions: ") (.ofList (by decide)) hcount) ?_
  refine .code (.append (s := "steps: ") (.ofList (by decide)) hsteps) ?_
  refine .code (.append (s := "table loops: ") (.ofList (by decide)) hloops) ?_
  exact .fixed (by decide) .nil

theorem quotes_imports : Quotes [] imports := by
  refine .fixed (by decide) (.cons (by simp [blank]) ?_)
  iterate 4 refine .fixed (by decide) ?_
  exact .cons (by simp [blank]) (.fixed (by decide) .nil)

theorem quotes_constants (settings : Settings) (plan : Plan String) :
    Quotes [plan.baseUrl] (constants settings plan) := by
  have hheadless : Printed (if settings.headless then "True" else "False") := by
    cases settings.headless <;> exact .ofList (by decide)
  refine .quoted (by decide) _ (.code (.append (.ofList (by decide)) hheadless) ?_)
  refine .code (.append (s := "WAIT_TIMEOUT = ") (.ofList (by decide)) (.toString_int _)) ?_
  refine .code (.append (s := "MAX_RETRIES = ") (.ofList (by decide)) (.toString_int _)) ?_
  refine .code (.append (s := "MAX_PAGES = ") (.ofList (by decide)) (.toString_int _)) ?_
  exact .cons (by simp [blank]) (.fixed (by decide) .nil)

theorem printed_callLine (index : Nat) (step : Step) :
    ∀ p ∈ (callLine index step).parts, p.From [] := by
  have hname := printed_stepName index
  have hargs : Printed ", page, data)" := .ofList (by decide)
  cases step with
  | loop l =>
    have hcall : Printed ("await " ++ stepName index ++ "(page, data)") :=
      .append (.append (.ofList (by decide)) hname) (.ofList (by decide))
    simpa [callLine, code, Part.From] using hcall
  | node k =>
    have hcall : Printed ("await run_step(\"" ++ stepName index ++ "\", " ++ stepName index
        ++ ", page, data)") := by
      refine .append (.append (.append (.append ?_ hname) ?_) hname) hargs
      · exact .ofList (by decide)
      · exact .ofList (by decide)
    simpa [callLine, code, Part.From] using hcall

theorem quotes_runFunction (plan : Plan String) : Quotes [] (runFunction plan) := by
  have hcalls : Quotes [] (plan.steps.mapIdx callLine) := by
    refine ⟨?_, by simp⟩
    intro l hl
    obtain ⟨i, hi, rfl⟩ := List.mem_mapIdx.1 hl
    exact printed_callLine i _
  rw [runFunction, List.append_assoc]
  iterate 13 refine .fixed (by decide) ?_
  refine .quiet_append (b := plan.steps.mapIdx callLine) hcalls ?_
  iterate 6 refine .fixed (by decide) ?_
  exact .nil

theorem quotes_entry : Quotes [] entry := by
  iterate 12 refine .fixed (by decide) ?_
  exact .nil

/-- The fixed functions quote nothing of the log. -/
theorem quotes_fixedFunctions (hasLoop hasPagination : Bool) :
    Quotes [] (fixedFunctions hasLoop hasPagination).flatten := by
  have hblock : ∀ b ∈ fixedFunctions hasLoop hasPagination, Quotes [] b := by
    intro b hb
    have hmem : b ∈ [findElement, waitForPage, runStep] ++ [currentRow, returnToList]
        ++ [paginationAvailable, firstRowHandle, waitForNextPage] := by
      simp only [fixedFunctions, List.mem_append] at hb ⊢
      rcases hb with (hb | hb) | hb
      · exact .inl (.inl hb)
      · exact .inl (.inr (by split at hb <;> simp_all))
      · exact .inr (by split at hb <;> simp_all)
    simp only [List.cons_append, List.nil_append, List.mem_cons, List.not_mem_nil, or_false] at hmem
    rcases hmem with rfl | rfl | rfl | rfl | rfl | rfl | rfl | rfl
    all_goals
      repeat refine Quotes.fixed (by decide) ?_
      exact .nil
  refine ⟨?_, by simp⟩
  intro l hl
  obtain ⟨b, hb, hl⟩ := List.mem_flatten.1 hl
  exact (hblock b hb).only l hl

/-! ## The whole script -/

/-- **The texts of a script** are those of its plan. -/
theorem exists_quotes_ofPlan (settings : Settings) (hplan : plan.Renders) {count : String}
    (hcount : Printed count) :
    ∃ s, ofPlan settings plan count = .ok s
      ∧ Quotes (plan.baseUrl :: plan.steps.flatMap (stepTexts plan.nodes)) s.blocks.flatten := by
  obtain ⟨steps, hmap, hall⟩ := exists_mapM_eq_ok (l := plan.steps.mapIdx fun i s => (i, s))
    (f := fun p => stepFunction plan p.1 p.2)
    (R := fun p b => Quotes (stepTexts plan.nodes p.2) b) fun p hp => by
      obtain ⟨i, hi, rfl⟩ := List.mem_mapIdx.1 hp
      exact exists_quotes_stepFunction hplan i (List.getElem_mem hi)
  have hsteps : Quotes (plan.steps.flatMap (stepTexts plan.nodes)) steps.flatten := by
    have hmapIdx : (plan.steps.mapIdx fun i s => (i, s)).map Prod.snd = plan.steps :=
      List.ext_getElem (by simp) (by simp)
    rw [← hmapIdx, List.flatMap_map]
    exact .flatten hall
  have hopening : Quotes [plan.baseUrl]
      [summary plan count, imports, constants settings plan].flatten := by
    have hconstants := quotes_constants settings plan
    simpa using (quotes_summary plan hcount).quiet_append (quotes_imports.quiet_append hconstants)
  have hclosing : Quotes [] [runFunction plan, entry].flatten := by
    simpa using (quotes_runFunction plan).append quotes_entry
  refine ⟨_, by rw [ofPlan, hmap]; rfl, ?_⟩
  simp only [List.flatten_append]
  exact ((hopening.append_quiet (quotes_fixedFunctions _ _)).append hsteps).append_quiet hclosing

end Script

/-! ## The script of a log -/

namespace Plan

/-- The texts of a step are those of the nodes that it visits, and the paths of its loop. -/
theorem mem_stepTexts_iff {nodes : List (Node String)} {step : Step} {t : String} :
    t ∈ stepTexts nodes step
      ↔ (∃ k ∈ stepVisits nodes step, t ∈ textsAt nodes k) ∨ ∃ l ∈ step.loop?, t ∈ l.paths := by
  cases step with
  | node k => simp [stepTexts, stepVisits, Step.loop?]
  | loop l =>
    have hbody : l.body.flatMap (rowTexts nodes)
        = (stepVisits nodes (.loop l)).flatMap (textsAt nodes) := by
      rw [stepVisits, List.flatMap_assoc]
      rfl
    rw [stepTexts, hbody, List.mem_append, List.mem_flatMap, or_comm]
    simp [Step.loop?]

/-- The texts of the steps are those of the nodes that are visited, and the paths of the loops. -/
theorem mem_flatMap_stepTexts_iff {nodes : List (Node String)} {steps : List Step} {t : String} :
    t ∈ steps.flatMap (stepTexts nodes)
      ↔ (∃ k ∈ visits nodes steps, t ∈ textsAt nodes k) ∨ ∃ l ∈ loopsOf steps, t ∈ l.paths := by
  simp only [List.mem_flatMap, mem_stepTexts_iff, visits, loopsOf, List.mem_filterMap]
  constructor
  · rintro ⟨step, hstep, ⟨k, hk, ht⟩ | ⟨l, hl, ht⟩⟩
    · exact .inl ⟨k, ⟨step, hstep, hk⟩, ht⟩
    · exact .inr ⟨l, ⟨step, hstep, hl⟩, ht⟩
  · rintro (⟨k, ⟨step, hstep, hk⟩, ht⟩ | ⟨l, ⟨step, hstep, hl⟩, ht⟩)
    · exact ⟨step, hstep, .inl ⟨k, hk, ht⟩⟩
    · exact ⟨step, hstep, .inr ⟨l, hl, ht⟩⟩

/-- The texts of a log that a script of it has: the address, the paths as the plan has them, and
what is said with the actions. -/
def textsOf (actions : List (Action String)) (baseUrl : String) : List String :=
  baseUrl :: ((ofActions actions baseUrl).1.paths
    ++ (work actions).flatMap fun a => said a.kind a.value a.label)

/-- What is visited are all nodes. -/
theorem exists_visited_iff {actions : List (Action String)} {nodes : List (Node String)}
    {steps : List Step} (h : Conserves actions nodes steps) {t : String} :
    (∃ k ∈ visits nodes steps, t ∈ textsAt nodes k)
      ↔ t ∈ nodes.map Node.locator
        ∨ t ∈ (work actions).flatMap fun a => said a.kind a.value a.label := by
  have hsaid : nodes.flatMap (fun n => said n.kind n.value n.label)
      = (work actions).flatMap fun a => said a.kind a.value a.label := by
    have hflatMap := congrArg (List.flatMap fun x => said x.1 x.2.1 x.2.2) h.nodes_eq
    rwa [List.flatMap_map, List.flatMap_map] at hflatMap
  have hnodes : (∃ k ∈ visits nodes steps, t ∈ textsAt nodes k) ↔ ∃ n ∈ nodes, t ∈ n.texts := by
    constructor
    · -- a place without a node has no texts
      rintro ⟨k, -, ht⟩
      obtain ⟨n, hn, ht⟩ := List.mem_flatMap.1 ht
      exact ⟨n, List.mem_iff_getElem?.2 ⟨k, Option.mem_toList.1 hn⟩, ht⟩
    · rintro ⟨n, hn, ht⟩
      obtain ⟨k, hk⟩ := List.mem_iff_getElem?.1 hn
      have hlt : k < (work actions).length :=
        h.length_eq ▸ (List.getElem?_eq_some_iff.1 hk).1
      refine ⟨k, h.visits_perm.mem_iff.2 (List.mem_range.2 hlt), ?_⟩
      rwa [textsAt_of_getElem? hk]
  rw [hnodes, ← hsaid, List.mem_map, List.mem_flatMap, ← exists_or]
  refine exists_congr fun n => ?_
  rw [Node.texts, List.mem_cons, ← and_or_left, @eq_comm _ t]

/-- The steps of the plan of a log have these texts, since each action that does something is
visited. -/
theorem mem_textsOf_iff {actions : List (Action String)} {baseUrl t : String} :
    t ∈ (ofActions actions baseUrl).1.baseUrl :: (ofActions actions baseUrl).1.steps.flatMap
        (stepTexts (ofActions actions baseUrl).1.nodes)
      ↔ t ∈ textsOf actions baseUrl := by
  have hconserves : Conserves actions (ofActions actions baseUrl).1.nodes
      (ofActions actions baseUrl).1.steps := by
    obtain ⟨hnodes, hsteps, -⟩ := (actions.foldl Draft.add { plan := { baseUrl } }).finish_frame
    rw [ofActions, hnodes, hsteps]
    exact (Draft.sound_foldl_add actions baseUrl).conserves
  have hloops : t ∈ (ofActions actions baseUrl).1.loops.flatMap Loop.paths
      ↔ ∃ l ∈ loopsOf (ofActions actions baseUrl).1.steps, t ∈ l.paths := List.mem_flatMap
  rw [baseUrl_ofActions, List.mem_cons, mem_flatMap_stepTexts_iff, exists_visited_iff hconserves,
    ← hloops, textsOf, List.mem_cons, List.mem_append, paths, List.mem_append, or_right_comm]

end Plan

end Retrace
