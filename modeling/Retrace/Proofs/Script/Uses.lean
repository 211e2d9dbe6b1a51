/-
What the blocks of a script use.

A script brings some functions for every script, some for loops and some for loops over several
pages. The blocks are gone through in order, each for the names that its code defines and uses. What
a loop uses is what is brought for loops, and what is brought for several pages only if it goes over
several (`tells_stepFunction`). The function that runs the steps uses each of them once
(`tells_runFunction`).
-/
import Retrace.Proofs.Except
import Retrace.Proofs.Script.Names

set_option autoImplicit false

namespace Retrace.Script

open Source (Mode names)

variable {known : List String} {plan : Plan String}

/-! ## Fixed functions -/

theorem tells_base : Tells known baseNames [] [findElement, waitForPage, runStep].flatten := by
  have hfind : Tells known ["find_element"] [] findElement := by
    refine .head (by decide) ?_
    iterate 4 refine .fixed (by decide) ?_
    exact .nil
  have hwait : Tells known ["wait_for_page"] [] waitForPage := by
    refine .head (by decide) ?_
    iterate 3 refine .fixed (by decide) ?_
    exact .nil
  have hrun : Tells known ["run_step"] [] runStep := by
    refine .head (by decide) ?_
    iterate 9 refine .fixed (by decide) ?_
    exact .nil
  exact hfind.append (hwait.append (hrun.append .nil))

/-- The functions for loops use the base ones. -/
theorem tells_loops (hbase : baseNames ⊆ known) :
    Tells known loopNames [] [currentRow, returnToList].flatten := by
  have hcurrent : Tells known ["current_row"] [] currentRow := by
    refine .head (by decide) (.fixed (by decide) ?_)
    refine .calling baseNames (by decide) hbase ?_
    iterate 3 refine .fixed (by decide) ?_
    exact .nil
  have hreturn : Tells known ["return_to_list"] [] returnToList := by
    refine .head (by decide) ?_
    iterate 7 refine .fixed (by decide) ?_
    exact .calling baseNames (by decide) hbase .nil
  exact hcurrent.append (hreturn.append .nil)

/-- The functions for pages use the base ones. -/
theorem tells_pages (hbase : baseNames ⊆ known) : Tells known pageNames []
    [paginationAvailable, firstRowHandle, waitForNextPage].flatten := by
  have havailable : Tells known ["pagination_available"] [] paginationAvailable := by
    refine .head (by decide) ?_
    iterate 11 refine .fixed (by decide) ?_
    exact .nil
  have hfirst : Tells known ["first_row_handle"] [] firstRowHandle := by
    refine .head (by decide) (.calling baseNames (by decide) hbase ?_)
    iterate 3 refine .fixed (by decide) ?_
    exact .nil
  have hnext : Tells known ["wait_for_next_page"] [] waitForNextPage := by
    refine .head (by decide) ?_
    iterate 7 refine .fixed (by decide) ?_
    exact .calling baseNames (by decide) hbase .nil
  exact havailable.append (hfirst.append (hnext.append .nil))

/-- The fixed functions use no others than those for every script. -/
theorem tells_fixedFunctions (hbase : baseNames ⊆ known) (hasLoop hasPagination : Bool) :
    Tells known (fixedNames hasLoop hasPagination) []
      (fixedFunctions hasLoop hasPagination).flatten := by
  have hloops : Tells known (if hasLoop then loopNames else []) []
      (if hasLoop then [currentRow, returnToList] else []).flatten := by
    cases hasLoop with
    | false => exact .nil
    | true => exact tells_loops hbase
  have hpages : Tells known (if hasPagination then pageNames else []) []
      (if hasPagination then [paginationAvailable, firstRowHandle, waitForNextPage]
        else []).flatten := by
    cases hasPagination with
    | false => exact .nil
    | true => exact tells_pages hbase
  rw [fixedFunctions, List.flatten_append, List.flatten_append]
  exact (tells_base.append hloops).append hpages

/-! ## Steps -/

/-- The arguments of a step. -/
theorem calm_arguments (known : List String) : Calm known ["page", "data"] := by
  have hcalm : Calm known ([['p', 'a', 'g', 'e'], ['d', 'a', 't', 'a']].map String.ofList) :=
    calm_of_all (by decide) (List.nil_subset known)
  exact hcalm

theorem tells_stepHead (known : List String) (index : Nat) {defined steps : List String}
    {b : Block} (h : Tells known defined steps b) :
    Tells known (stepName index :: defined) steps (stepHead index :: b) := by
  have hplain : IsPlainCode ("async def " ++ stepName index ++ "(page, data):").toList := by
    rw [String.toList_append, String.toList_append]
    exact .append (.append (by decide) (isPlainCode_stepName index)) (by decide)
  have hnames : names ("async def " ++ stepName index ++ "(page, data):").toList
      = "async" :: "def" :: stepName index :: ["page", "data"] := by
    have hfront : names "async def".toList = ["async", "def"] := names_toList rfl
    have hback : names "page, data):".toList = ["page", "data"] := names_toList rfl
    have hsplit : ("async def " ++ stepName index ++ "(page, data):").toList
        = "async def".toList ++ ' ' :: ((stepName index).toList
          ++ '(' :: "page, data):".toList) := by
      simp [String.toList_append]
    rw [hsplit, names_append_cons (by decide), names_append_cons (by decide), hfront, hback,
      names_stepName]
    rfl
  obtain ⟨hclosed, hbare⟩ := closed_of_isPlainCode 0 hplain
  exact .heading hclosed (hbare ▸ hnames) (calm_arguments known) h

/-- What is written for an action finds the element, and uses nothing else. -/
theorem tells_actionLines (hbase : baseNames ⊆ known) (n : Node String) (scope : Scope)
    (sink : Sink) : Tells known [] [] (actionLines n scope sink) := by
  have hact : Tells known [] [] [actLine n sink] := by
    unfold actLine
    split
    · exact .fixed (by decide) .nil
    · exact .quotedWithin [] (by decide) (by decide) (List.nil_subset _) .nil
    · exact .quotedWithin [] (by decide) (by decide) (List.nil_subset _) .nil
    · have hfields : Sink.fields.name ++ "[" = "data[\"fields\"][" := rfl
      have hrecord : Sink.record.name ++ "[" = "record[" := rfl
      cases sink
      · rw [hfields]
        exact .quotedWithin [] (by decide) (by decide) (List.nil_subset _) .nil
      · rw [hrecord]
        exact .quotedWithin [] (by decide) (by decide) (List.nil_subset _) .nil
  have hpage : "el = await find_element(" ++ Scope.page.name ++ ", "
      = "el = await find_element(page, " := rfl
  have hrow : "el = await find_element(" ++ Scope.row.name ++ ", "
      = "el = await find_element(row, " := rfl
  have hlocate : Tells known [] [] [locateLine n scope] := by
    unfold locateLine
    split
    · exact .fixed (by decide) .nil
    · cases scope
      · rw [hpage]
        exact .quotedWithin baseNames (by decide) (by decide) hbase .nil
      · rw [hrow]
        exact .quotedWithin baseNames (by decide) (by decide) hbase .nil
  exact hlocate.append hact

/-- The function of an action uses base functions only, and calls no step. -/
theorem tells_actionFunction (hbase : baseNames ⊆ known) (index : Nat) (n : Node String) :
    Tells known [stepName index] [] (actionFunction index n) := by
  have hmark : ("# " ++ n.kind.name ++ ": ").toList
      = '#' :: (" " ++ n.kind.name ++ ": ").toList := by
    simp [String.toList_append]
  have hlines := (tells_actionLines hbase n .page .fields).nest 1
  exact tells_stepHead known index (.remarked hmark hlines)

/-- What is written for a node of a body goes back to the table at most. -/
theorem tells_bodyLines (hbase : baseNames ⊆ known) (hloops : loopNames ⊆ known) {k : Nat}
    {b : Block} (h : bodyLines plan k = .ok b) : Tells known [] [] b := by
  obtain ⟨n, -, h⟩ := exists_of_bind_ok h
  have hown := tells_actionLines hbase n (if n.relative then .row else .page) .record
  dsimp only at h
  split at h
  · obtain ⟨after, -, h⟩ := exists_of_bind_ok h
    obtain rfl := Except.ok.inj h
    have hafter : Tells known [] [] (after.map (actionLines · .page .record)).flatten := by
      refine .calm_flatten (List.forall_mem_map.2 fun m _ => ?_)
      exact tells_actionLines hbase m .page .record
    rw [← List.flatMap_def] at hafter
    refine .append_calm (.append_calm (.append_calm hown ?_) hafter) ?_
    · exact .fixed (by decide) .nil
    · refine .calling loopNames (by decide) hloops ?_
      exact .calling loopNames (by decide) hloops .nil
  · obtain rfl := Except.ok.inj h
    exact hown

/-- A pass over the row uses base functions and those for loops. -/
theorem tells_rowPass (hbase : baseNames ⊆ known) (hloops : loopNames ⊆ known) {l : Loop}
    {pass : Block} (h : rowPass plan l = .ok pass) : Tells known [] [] pass := by
  obtain ⟨body, hbody, h⟩ := exists_of_bind_ok h
  obtain rfl := Except.ok.inj h
  have hflatten : Tells known [] [] body.flatten := .calm_flatten fun b hb => by
    obtain ⟨k, -, hk⟩ := exists_of_mem_mapM hbody b hb
    exact tells_bodyLines hbase hloops hk
  -- the lines in front of the rows, those of a row, and the lines behind them
  refine .append_calm (.append_calm ?_ (.nest (.append_calm (.append_calm ?_ hflatten) ?_) 3)) ?_
  · refine .calling baseNames (by decide) hbase (.fixed (by decide) ?_)
    refine .calling baseNames (by decide) hbase ?_
    iterate 3 refine .fixed (by decide) ?_
    exact .nil
  · exact .calling loopNames (by decide) hloops (.fixed (by decide) .nil)
  · exact .fixed (by decide) (.fixed (by decide) .nil)
  · iterate 5 refine .fixed (by decide) ?_
    refine .calling loopNames (by decide) hloops ?_
    exact .fixed (by decide) (.fixed (by decide) .nil)

/-- **The function of a loop** uses the functions for loops, and those for several pages only if it
goes over several pages. -/
theorem tells_loopFunction (hbase : baseNames ⊆ known) (hloops : loopNames ⊆ known) {index : Nat}
    {l : Loop} {b : Block} (hpages : (nextControl? l).isSome = true → pageNames ⊆ known)
    (h : loopFunction plan index l = .ok b) : Tells known [stepName index] [] b := by
  obtain ⟨pass, hpass, h⟩ := exists_of_bind_ok h
  have hpass := tells_rowPass hbase hloops hpass
  have hmark : "# table loop over ".toList = '#' :: " table loop over ".toList := by
    rw [String.toList_ofList, String.toList_ofList]
  have hhead : Tells known [stepName index] [] [stepHead index,
      ⟨1, [.code "# table loop over ", .remark l.subject]⟩,
      ⟨1, [.code "subject = ", .literal l.subject]⟩,
      ⟨1, [.code "rows_selector = ", .literal l.rowSelector]⟩,
      code 1 "records = []", code 1 "data[\"tables\"].append(records)"] := by
    refine tells_stepHead known index (.remarked hmark ?_)
    refine .quotedLast (by decide) (.quotedLast (by decide) ?_)
    exact .fixed (by decide) (.fixed (by decide) .nil)
  dsimp only at h
  split at h
  · obtain rfl := Except.ok.inj h
    have hone : Tells known [] [] [code 1 "page_number = 1"] := .fixed (by decide) .nil
    exact (hhead.append_calm hone).append_calm (hpass.nest 1)
  · next control hcontrol =>
    obtain rfl := Except.ok.inj h
    have hpages := hpages (by rw [hcontrol]; rfl)
    refine .append_calm (.append_calm (.append_calm hhead ?_) (hpass.nest 2)) ?_
    · exact .quotedLast (by decide) (.fixed (by decide) .nil)
    · refine .calling pageNames (by decide) hpages (.fixed (by decide) ?_)
      refine .calling pageNames (by decide) hpages ?_
      refine .calling baseNames (by decide) hbase ?_
      exact .calling pageNames (by decide) hpages .nil

/-- **The function of a step** defines the step. -/
theorem tells_stepFunction {index : Nat} {step : Step} {b : Block} (hbase : baseNames ⊆ known)
    (hloops : ∀ l, step = .loop l → loopNames ⊆ known
      ∧ ((nextControl? l).isSome = true → pageNames ⊆ known))
    (h : stepFunction plan index step = .ok b) : Tells known [stepName index] [] b := by
  cases step with
  | node k =>
    obtain ⟨n, -, rfl⟩ := map_eq_ok_iff.1 h
    exact tells_actionFunction hbase index n
  | loop l =>
    obtain ⟨hloop, hpages⟩ := hloops l rfl
    exact tells_loopFunction hbase hloop hpages h

/-! ## The frame -/

theorem tells_imports : Tells known [] [] imports := by
  refine .fixed (by decide) (.blankLine ?_)
  iterate 4 refine .fixed (by decide) ?_
  exact .blankLine (.fixed (by decide) .nil)

theorem tells_constants (settings : Settings) (plan : Plan String) :
    Tells known [] [] (constants settings plan) := by
  have hnumbers : Tells known [] [] [code 0 ("WAIT_TIMEOUT = " ++ toString settings.waitTimeout),
      code 0 ("MAX_RETRIES = " ++ toString settings.maxRetries),
      code 0 ("MAX_PAGES = " ++ toString settings.maxPages), blank,
      code 0 "logger = logging.getLogger(\"recorded_workflow\")"] := by
    iterate 3 refine .numbered (by decide) _ ?_
    exact .blankLine (.fixed (by decide) .nil)
  have hyes : "HEADLESS = " ++ "True" = "HEADLESS = True" := rfl
  have hno : "HEADLESS = " ++ "False" = "HEADLESS = False" := rfl
  have hheadless : Tells known [] []
      [code 0 ("HEADLESS = " ++ if settings.headless then "True" else "False")] := by
    cases settings.headless
    · rw [if_neg (by decide), hno]
      exact .fixed (by decide) .nil
    · rw [if_pos rfl, hyes]
      exact .fixed (by decide) .nil
  exact .quotedLast (by decide) (hheadless.append hnumbers)

theorem tells_entry : Tells known [] [] entry := by
  iterate 12 refine .fixed (by decide) ?_
  exact .nil

/-! ## Calls -/

/-- The code of the line that calls a step: a loop by itself, and any other step through the
function that tries it again. The name that stands there as a text is not code. -/
def callCode (index : Nat) : Step → String
  | .loop _ => "        await " ++ stepName index ++ "(page, data)"
  | .node _ => "        await run_step(\"\", " ++ stepName index ++ ", page, data)"

/-- The line that calls a loop. -/
theorem callLine_loop (index : Nat) (l : Loop) :
    (callLine index (.loop l)).Closed
      ∧ (callLine index (.loop l)).codeText = callCode index (.loop l)
      ∧ names (callLine index (.loop l)).bare = ["await", stepName index, "page", "data"] := by
  have hplain : IsPlainCode ("await " ++ stepName index ++ "(page, data)").toList := by
    rw [String.toList_append, String.toList_append]
    exact .append (.append (by decide) (isPlainCode_stepName index)) (by decide)
  obtain ⟨hclosed, hbare⟩ := closed_of_isPlainCode 2 hplain
  refine ⟨hclosed, ?_, ?_⟩
  · have hindent : String.ofList (List.replicate (indentWidth * 2) ' ') ++ "await "
        = "        await " := rfl
    have hcall : callCode index (.loop l) = "        await " ++ stepName index ++ "(page, data)" :=
      rfl
    rw [callLine, codeText_code, hbare, String.ofList_toList, hcall, String.append_assoc,
      ← String.append_assoc, hindent, String.append_assoc]
  · have hsplit : ("await " ++ stepName index ++ "(page, data)").toList
        = "await".toList ++ ' ' :: ((stepName index).toList ++ '(' :: "page, data)".toList) := by
      simp [String.toList_append]
    have hfront : names "await".toList = ["await"] := names_toList rfl
    have hback : names "page, data)".toList = ["page", "data"] := names_toList rfl
    rw [callLine, hbare, hsplit, names_append_cons (by decide), names_append_cons (by decide),
      hfront, hback, names_stepName]
    rfl

/-- The line that calls any other step. -/
theorem callLine_node (index k : Nat) :
    (callLine index (.node k)).Closed
      ∧ (callLine index (.node k)).codeText = callCode index (.node k)
      ∧ names (callLine index (.node k)).bare
        = ["await", "run_step", stepName index, "page", "data"] := by
  have hchars : ("await run_step(\"" ++ stepName index ++ "\", " ++ stepName index
      ++ ", page, data)").toList = "await run_step(\"".toList ++ ((stepName index).toList
        ++ ("\", ".toList ++ ((stepName index).toList ++ ", page, data)".toList))) := by
    simp only [String.toList_append, List.append_assoc]
  have hne : (stepName index).toList ≠ [] := by simp [toList_stepName]
  obtain ⟨hname, hnone⟩ := mode_name hne fun _ => isNameChar_stepName
  obtain ⟨hthrough, hcode⟩ := (isPlainCode_stepName index).read
  -- the text in front of the first name opens a literal, and the one behind it closes it
  have hopen : Mode.code.through "await run_step(\"".toList = .opened '"'
      ∧ Mode.code.codeOf "await run_step(\"".toList = "await run_step(\"".toList :=
    read_toList (by decide)
  have hclose : (Mode.literal '"').through "\", ".toList = .code
      ∧ (Mode.literal '"').codeOf "\", ".toList = "\", ".toList :=
    read_toList (by decide)
  have hargs : Mode.code.through ", page, data)".toList = .code
      ∧ Mode.code.codeOf ", page, data)".toList = ", page, data)".toList :=
    read_toList (by decide)
  have hbare : (callLine index (.node k)).bare = "await run_step(\"".toList
      ++ ("\", ".toList ++ ((stepName index).toList ++ ", page, data)".toList)) := by
    rw [callLine, bare_code, hchars]
    simp only [Mode.codeOf_append, hopen, hname, hnone, hclose, hthrough, hcode, hargs,
      List.nil_append]
  refine ⟨(closed_code_iff _).2 ?_, ?_, ?_⟩
  · rw [hchars]
    simp only [Mode.through_append, hopen, hname, hclose, hthrough, hargs]
    rfl
  · have hindent : String.ofList (List.replicate (indentWidth * 2) ' ')
        ++ ("await run_step(\"" ++ "\", ") = "        await run_step(\"\", " := rfl
    have hcall : callCode index (.node k)
        = "        await run_step(\"\", " ++ stepName index ++ ", page, data)" := rfl
    rw [callLine] at hbare
    rw [callLine, codeText_code, hbare, hcall, String.ofList_append, String.ofList_append,
      String.ofList_append, String.ofList_toList, String.ofList_toList, String.ofList_toList,
      String.ofList_toList, ← hindent]
    simp only [String.append_assoc]
  · have hsplit : "await run_step(\"".toList
          ++ ("\", ".toList ++ ((stepName index).toList ++ ", page, data)".toList))
        = "await run_step(\"\",".toList
          ++ ' ' :: ((stepName index).toList ++ ',' :: " page, data)".toList) := by
      simp
    have hfront : names "await run_step(\"\",".toList = ["await", "run_step"] := names_toList rfl
    have hback : names " page, data)".toList = ["page", "data"] := names_toList rfl
    rw [hbare, hsplit, names_append_cons (by decide), names_append_cons (by decide), hfront, hback,
      names_stepName]
    rfl

/-- A line that calls a step, with calm names in front of that of the step. -/
theorem Tells.call {front : List String} {l : Line} {index : Nat} (hclosed : l.Closed)
    (hnames : names l.bare = front ++ stepName index :: ["page", "data"])
    (hfront : Calm known front) : Tells known [] [stepName index] [l] := by
  have harguments := calm_arguments known
  obtain ⟨hstep, hhelper⟩ : "def" ≠ stepName index ∧ stepName index ∉ helperNames := by
    have hother := stepName_notMem index
    simp only [List.mem_cons, not_or] at hother
    exact ⟨Ne.symm hother.1, hother.2.2⟩
  have hdef : "def" ∉ front ++ stepName index :: ["page", "data"] := by
    intro hmem
    rcases List.mem_append.1 hmem with hmem | hmem
    · exact hfront.notMem_def hmem
    · rcases List.mem_cons.1 hmem with heq | hmem
      · exact hstep heq
      · exact harguments.notMem_def hmem
  obtain ⟨hdefined, hused⟩ := definedIn_of_notMem hdef
  have h := cons hclosed hnames (by
    rw [hused]
    intro name hname hmem
    rcases List.mem_append.1 hname with hname | hname
    · exact (hfront _ hname).2.2 hmem
    · rcases List.mem_cons.1 hname with rfl | hname
      · exact absurd hmem hhelper
      · exact (harguments _ hname).2.2 hmem) .nil
  rw [hdefined, hused, List.filter_append, List.filter_cons, isStepName_stepName,
    hfront.filter_isStepName, harguments.filter_isStepName] at h
  exact h

/-- The line that calls a step uses it, and else only the function that tries a step again. -/
theorem tells_callLine (hbase : baseNames ⊆ known) (index : Nat) (step : Step) :
    Tells known [] [stepName index] [callLine index step] := by
  cases step with
  | loop l =>
    obtain ⟨hclosed, -, hnames⟩ := callLine_loop index l
    have hfront : Calm known ([['a', 'w', 'a', 'i', 't']].map String.ofList) :=
      calm_of_all (by decide) (List.nil_subset known)
    exact .call hclosed hnames hfront
  | node k =>
    obtain ⟨hclosed, -, hnames⟩ := callLine_node index k
    have hfront : Calm known ([['a', 'w', 'a', 'i', 't'],
        ['r', 'u', 'n', '_', 's', 't', 'e', 'p']].map String.ofList) :=
      calm_of_all (by decide) hbase
    exact .call hclosed hnames hfront

theorem codeText_callLine (index : Nat) (step : Step) :
    (callLine index step).codeText = callCode index step := by
  cases step with
  | loop l => exact (callLine_loop index l).2.1
  | node k => exact (callLine_node index k).2.1

/-- The calls use the steps, one after the other. -/
theorem tells_calls (hbase : baseNames ⊆ known) (steps : List Step) :
    Tells known [] ((List.range steps.length).map stepName) (steps.mapIdx callLine) := by
  induction steps using List.reverseRecOn with
  | nil => exact .nil
  | append_singleton steps step ih =>
    rw [List.length_append, List.length_singleton, List.range_succ, List.map_append,
      List.mapIdx_concat]
    exact ih.append (tells_callLine hbase steps.length step)

/-! ## The function that runs all steps -/

/-- The code of its lines in front of the calls, behind the first one. -/
def workflowOpening : List String :=
  ["    \"\"\"\"\"\"", "    data = \x7b\"\": \x7b\x7d, \"\": []\x7d",
    "    _own_browser = page is None", "    _playwright = None", "    _browser = None", "    try:",
    "        if _own_browser:", "            _playwright = await async_playwright().start()",
    "            _browser = await _playwright.chromium.launch(headless=headless)",
    "            page = await _browser.new_page()", "        if base_url:",
    "            await page.goto(base_url)"]

/-- The code of its lines behind the calls. -/
def workflowClosing : List String :=
  ["    finally:", "        if _own_browser and _browser:", "            await _browser.close()",
    "        if _own_browser and _playwright:", "            await _playwright.stop()",
    "    return data"]

/-- The function that runs the steps calls each of them once, in order. -/
theorem tells_runFunction (hbase : baseNames ⊆ known) (plan : Plan String) :
    Tells known ["run_workflow"] ((List.range plan.steps.length).map stepName)
      (runFunction plan) := by
  have hback : Tells known [] [] [code 1 "finally:", code 2 "if _own_browser and _browser:",
      code 3 "await _browser.close()", code 2 "if _own_browser and _playwright:",
      code 3 "await _playwright.stop()", code 1 "return data"] := by
    iterate 6 refine .fixed (by decide) ?_
    exact .nil
  have hcalls := (tells_calls hbase plan.steps).append_calm hback
  -- the calls stand between the opening of the function and its closing
  rw [runFunction, List.append_assoc]
  refine .head (by decide) ?_
  iterate 12 refine .fixed (by decide) ?_
  exact hcalls

theorem map_codeText_runFunction (plan : Plan String) :
    (runFunction plan).map Line.codeText
      = "async def run_workflow(page=None, base_url=BASE_URL, headless=HEADLESS):"
        :: (workflowOpening ++ (plan.steps.mapIdx callCode ++ workflowClosing)) := by
  have hcalls : (plan.steps.mapIdx callLine).map Line.codeText = plan.steps.mapIdx callCode := by
    refine List.ext_getElem (by simp) fun index _ _ => ?_
    rw [List.getElem_map, List.getElem_mapIdx, List.getElem_mapIdx, codeText_callLine]
  have hback : [code 1 "finally:", code 2 "if _own_browser and _browser:",
      code 3 "await _browser.close()", code 2 "if _own_browser and _playwright:",
      code 3 "await _playwright.stop()", code 1 "return data"].map Line.codeText
        = workflowClosing := by
    iterate 6 refine map_codeText_cons (by decide) ?_
    rfl
  have hbehind := congrArg₂ (· ++ ·) hcalls hback
  rw [← List.map_append] at hbehind
  rw [runFunction, List.append_assoc]
  iterate 13 refine map_codeText_cons (by decide) ?_
  exact hbehind

end Retrace.Script
