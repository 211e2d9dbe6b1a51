/-
Scripts are self-contained.

A script brings the functions that it uses. Which of the fixed functions it brings is decided for
the script as a whole, and which of them a step uses where the step is written; so the two have to
agree. What the blocks define and use is put together here for the whole source. Its summary is a
literal of several lines, and no other literal goes over the end of its line, so the code of the
source is that of its lines (`exists_codeLines`), and the names in it are those of its blocks
(`selfContained_of_inRange`).
-/
import Retrace.Proofs.Script.Redaction
import Retrace.Proofs.Script.Summary
import Retrace.Proofs.Script.Uses

set_option autoImplicit false

namespace Retrace.Script

open Source (Mode names definedIn usedIn)

/-! ## The summary -/

/-- The code of the summary is the quotes around it. -/
def summaryCode : List String := ["\"\"\"", "", "", "", "", "", "\"\"\""]

/-- **The summary** is a literal that takes several lines. Behind it code is read. -/
theorem codeFrom_summary (plan : Plan String) (count : Nat) (rest : List String) :
    Source.codeFrom .code ((summary plan (toString count)).map Line.text ++ rest)
      = summaryCode ++ Source.codeFrom .code rest := by
  -- a line of the literal
  have hinner : ∀ {l : String} (ls : List String), (∀ c ∈ l.toList, c ≠ '"' ∧ c ≠ '\\') →
      Source.codeFrom (.long '"' 0) (l :: ls) = "" :: Source.codeFrom (.long '"' 0) ls := by
    intro l ls h
    obtain ⟨hthrough, hcode⟩ := mode_long h
    rw [Source.codeFrom, hthrough, hcode]
    rfl
  have hfixed : ∀ {cs : List Char}, cs.all (fun c => c ≠ '"' ∧ c ≠ '\\') = true →
      ∀ c ∈ (String.ofList cs).toList, c ≠ '"' ∧ c ≠ '\\' := by
    intro cs h
    rw [String.toList_ofList]
    exact List.all_iff_forall_prop.1 h
  have hnumber : ∀ {cs : List Char} (n : Nat), cs.all (fun c => c ≠ '"' ∧ c ≠ '\\') = true →
      ∀ c ∈ (String.ofList cs ++ toString n).toList, c ≠ '"' ∧ c ≠ '\\' := by
    intro cs n h
    have hdigits : ∀ c ∈ (toString n).toList, c ≠ '"' ∧ c ≠ '\\' := by
      intro c hc
      have hmem : c ∈ (toString (n : Int)).toList := hc
      constructor <;> rintro rfl <;> exact notMem_toString (by decide) hmem
    rw [String.toList_append, String.toList_ofList]
    exact List.forall_mem_append.2 ⟨List.all_iff_forall_prop.1 h, hdigits⟩
  have hopen : ∀ ls, Source.codeFrom .code ("\"\"\"" :: ls)
      = "\"\"\"" :: Source.codeFrom (.long '"' 0) ls := codeFrom_cons (by decide)
  have hclose : ∀ ls, Source.codeFrom (.long '"' 0) ("\"\"\"" :: ls)
      = "\"\"\"" :: Source.codeFrom .code ls := codeFrom_cons (by decide)
  have htexts : (summary plan (toString count)).map Line.text
      = ["\"\"\"", "Recorded browser workflow.", "", "actions: " ++ toString count,
        "steps: " ++ toString plan.steps.length, "table loops: " ++ toString plan.loops.length,
        "\"\"\""] := by
    simp only [summary, List.map_cons, List.map_nil, text_code]
    rfl
  rw [htexts, List.cons_append, hopen, List.cons_append, hinner _ (hfixed (by decide)),
    List.cons_append, hinner _ (by simp), List.cons_append, hinner _ (hnumber count (by decide)),
    List.cons_append, hinner _ (hnumber plan.steps.length (by decide)), List.cons_append,
    hinner _ (hnumber plan.loops.length (by decide)), List.cons_append, hclose]
  rfl

/-! ## Lines of a script -/

/-- The lines of a script whose last two blocks are set apart. -/
theorem lines_append_two (front : List Block) (run last : Block) :
    Script.lines ⟨front ++ [run, last]⟩ = front.flatMap (· ++ [blank, blank])
      ++ (run ++ ([blank, blank] ++ (last ++ [blank]))) := by
  rw [Script.lines]
  induction front with
  | nil => simp [List.append_assoc]
  | cons b rest ih =>
    rw [List.cons_append, List.intercalate_cons_of_ne_nil (by simp), List.flatMap_cons]
    simp only [List.append_assoc] at ih ⊢
    rw [ih]

section
variable {known defined steps : List String} {b : Block}

/-- Empty lines between the blocks do not matter. -/
theorem Tells.spread {bs : List Block} (h : Tells known defined steps bs.flatten) :
    Tells known defined steps (bs.flatMap (· ++ [blank, blank])) := by
  have hblank : Tells known [] [] [blank] := .blankLine .nil
  have hmem : ∀ l ∈ bs.flatMap (· ++ [blank, blank]), l = blank ∨ l ∈ bs.flatten := by
    intro l hl
    obtain ⟨b, hb, hl⟩ := List.mem_flatMap.1 hl
    rcases List.mem_append.1 hl with hl | hl
    · exact .inr (List.mem_flatten.2 ⟨b, hb, hl⟩)
    · exact .inl (by simpa using hl)
  have hflatMap : ∀ f : Line → List String, f blank = [] →
      (bs.flatMap (· ++ [blank, blank])).flatMap f = bs.flatten.flatMap f := by
    intro f hf
    -- the induction is on the blocks alone: what they tell together says nothing about the rest
    clear h hmem
    induction bs with
    | nil => rfl
    | cons b rest ih =>
      rw [List.flatMap_cons, List.flatten_cons, List.flatMap_append, List.flatMap_append,
        List.flatMap_append, ih]
      simp [hf]
  refine ⟨?_, ?_, ?_, ?_⟩
  · intro l hl
    rcases hmem l hl with rfl | hl
    · exact hblank.closed _ (by simp)
    · exact h.closed l hl
  · rw [hflatMap _ rfl, h.defined_eq]
  · rw [hflatMap _ rfl, h.steps_eq]
  · intro l hl
    rcases hmem l hl with rfl | hl
    · exact hblank.mem_known _ (by simp)
    · exact h.mem_known l hl

/-- What is told of the lines is told of their code. -/
theorem Tells.defined_codeText (h : Tells known defined steps b) :
    Source.defined (b.map Line.codeText) = defined := by
  rw [Source.defined, List.flatMap_map, ← h.defined_eq]
  simp only [Line.names_codeText]

theorem Tells.used_codeText (h : Tells known defined steps b) :
    (Source.used (b.map Line.codeText)).filter isStepName = steps
      ∧ ∀ name ∈ Source.used (b.map Line.codeText), name ∈ helperNames → name ∈ known := by
  have hused : Source.used (b.map Line.codeText)
      = b.flatMap fun l => usedIn (names l.bare) := by
    rw [Source.used, List.flatMap_map]
    simp only [Line.names_codeText]
  rw [hused]
  refine ⟨h.steps_eq, fun name hname hmem => ?_⟩
  obtain ⟨l, hl, hname⟩ := List.mem_flatMap.1 hname
  exact h.mem_known l hl name hname hmem

end

/-! ## The body of a function -/

/-- The body of a function: what stands between its first line and the next line that is not
indented, the empty lines left out. -/
theorem bodyOf_eq {name head next : String} {front body : List String} (behind : List String)
    (hfront : name ∉ Source.defined front) (hhead : name ∈ definedIn (names head.toList))
    (hbody : ∀ l ∈ body, Source.isInner l = true) (hnext : Source.isInner next = false) :
    Source.bodyOf name (front ++ head :: (body ++ next :: behind)) = body.filter (· != "") := by
  have hskip : ∀ l ∈ front, (!(definedIn (names l.toList)).contains name) = true := by
    intro l hl
    rw [Bool.not_eq_true', Bool.eq_false_iff]
    exact fun hmem => hfront (List.mem_flatMap.2 ⟨l, hl, List.contains_iff_mem.1 hmem⟩)
  have hstop : ¬ (!(definedIn (names head.toList)).contains name) = true := by
    simpa using hhead
  have hend : ¬ Source.isInner next = true := by simp [hnext]
  rw [Source.bodyOf, List.dropWhile_append_of_pos hskip, List.dropWhile_cons, if_neg hstop,
    List.drop_one, List.tail_cons, List.takeWhile_append_of_pos hbody,
    List.takeWhile_cons_of_neg hend, List.append_nil]

/-- A line that is indented is inside of a function, and not empty. -/
theorem isInner_codeText {l : Line} (hparts : l.parts ≠ []) (hdepth : l.depth ≠ 0) :
    Source.isInner l.codeText = true ∧ (l.codeText != "") = true := by
  obtain ⟨n, hn⟩ := Nat.exists_eq_succ_of_ne_zero hdepth
  have hindent : ∃ cs, l.codeText = String.ofList (' ' :: cs) := by
    have hwidth : indentWidth * l.depth = (indentWidth * n + 3) + 1 := by
      rw [hn, Nat.mul_succ]
      rfl
    rw [Line.codeText, if_neg (by simpa using hparts), hwidth, List.replicate_succ]
    exact ⟨_, rfl⟩
  obtain ⟨cs, hcs⟩ := hindent
  rw [Source.isInner, hcs, String.toList_ofList, bne_iff_ne, ← String.toList_inj.ne,
    String.toList_ofList]
  simp

theorem indented_runFunction (plan : Plan String) :
    ∀ l ∈ (runFunction plan).tail, l.parts ≠ [] ∧ l.depth ≠ 0 := by
  have hcalls : ∀ l ∈ plan.steps.mapIdx callLine, l.parts ≠ [] ∧ l.depth ≠ 0 := by
    intro l hl
    obtain ⟨index, hindex, rfl⟩ := List.mem_mapIdx.1 hl
    cases plan.steps[index] <;> simp [callLine, code]
  rw [runFunction, List.append_assoc, List.cons_append, List.tail_cons]
  refine List.forall_mem_append.2 ⟨?_, List.forall_mem_append.2 ⟨hcalls, ?_⟩⟩
  · simp [code]
  · simp [code]

/-- What is done when the script is started is not indented. -/
theorem isInner_entry :
    Source.isInner (code 0 "if __name__ == \"__main__\":").codeText = false := by
  have hfirst : ∀ {cs : List Char}, (Mode.code.codeOf cs).head? = some 'i' →
      Source.isInner (code 0 (String.ofList cs)).codeText = false := by
    intro cs h
    have hindent : List.replicate (indentWidth * 0) ' ' = [] := rfl
    rw [codeText_code, bare_code, String.toList_ofList, hindent, ← String.ofList_append,
      Source.isInner, String.toList_ofList, List.nil_append, h]
    rfl
  exact hfirst (by decide)

/-- The body of the function that runs the steps is its code behind the first line. -/
theorem bodyOf_runFunction {front : List String}
    (hfront : "run_workflow" ∉ Source.defined front) (plan : Plan String) :
    Source.bodyOf "run_workflow" (front ++ (runFunction plan
        ++ ([blank, blank] ++ (entry ++ [blank]))).map Line.codeText)
      = workflowOpening ++ (plan.steps.mapIdx callCode ++ workflowClosing) := by
  have hrun := map_codeText_runFunction plan
  have hindented := indented_runFunction plan
  obtain ⟨first, body, hbody⟩ : ∃ first body, runFunction plan = first :: body := ⟨_, _, rfl⟩
  rw [hbody, List.map_cons] at hrun
  rw [hbody, List.tail_cons] at hindented
  obtain ⟨hfirst, hrest⟩ := List.cons.inj hrun
  have hhead : "run_workflow" ∈ definedIn (names first.codeText.toList) := by
    have hnames : names
        "async def run_workflow(page=None, base_url=BASE_URL, headless=HEADLESS):".toList
        = ["async", "def", "run_workflow", "page", "None", "base_url", "BASE_URL", "headless",
          "HEADLESS"] := names_toList rfl
    rw [hfirst, hnames]
    simp [definedIn]
  have hinner : ∀ l ∈ (body ++ [blank, blank]).map Line.codeText, Source.isInner l = true := by
    refine List.forall_mem_map.2 (List.forall_mem_append.2 ⟨fun l hl => ?_, ?_⟩)
    · exact (isInner_codeText (hindented l hl).1 (hindented l hl).2).1
    · simp [Line.codeText, blank, Source.isInner]
  have hkept : ((body ++ [blank, blank]).map Line.codeText).filter (· != "")
      = body.map Line.codeText := by
    have hall : (body.map Line.codeText).filter (· != "") = body.map Line.codeText := by
      rw [List.filter_eq_self]
      refine List.forall_mem_map.2 fun l hl => ?_
      exact (isInner_codeText (hindented l hl).1 (hindented l hl).2).2
    rw [List.map_append, List.filter_append, hall]
    simp [Line.codeText, blank]
  -- the body ends where the script is started: that line is not indented
  have h := bodyOf_eq ((entry.tail ++ [blank]).map Line.codeText) hfront hhead hinner isInner_entry
  rw [hkept, hrest] at h
  rw [hbody, ← h]
  simp only [List.map_append, List.map_cons, List.cons_append, List.append_assoc]
  rfl

/-! ## The script of a plan -/

/-- The code of the source has all functions that it uses. -/
structure SelfContained (plan : Plan String) (source : List String) : Prop where
  /-- The functions that are defined, in order. -/
  defined_eq : Source.defined source = functionNames plan
  nodup : (Source.defined source).Nodup
  /-- The steps are defined once each, and there are no others. -/
  steps_defined : (Source.defined source).filter isStepName
    = (List.range plan.steps.length).map stepName
  /-- Each step is used once, and in order. -/
  steps_used : (Source.used source).filter isStepName
    = (List.range plan.steps.length).map stepName
  /-- Where the steps are used is in the function that runs them, one call after the other. -/
  calls : Source.bodyOf "run_workflow" source
    = workflowOpening ++ (plan.steps.mapIdx callCode ++ workflowClosing)
  loops_iff : ∀ name ∈ loopNames, (name ∈ Source.defined source ↔ plan.loops ≠ [])
  pages_iff : ∀ name ∈ pageNames, (name ∈ Source.defined source
    ↔ ∃ l ∈ plan.loops, ∃ control ∈ l.pagination, control ≠ "")
  /-- What is used is there. -/
  used_defined : ∀ name ∈ helperNames, name ∈ Source.used source → name ∈ Source.defined source

/-- The functions of the steps. -/
theorem exists_tells_steps {plan : Plan String} {known : List String} (h : plan.InRange)
    (hbase : baseNames ⊆ known) (hloops : plan.loops ≠ [] → loopNames ⊆ known)
    (hpages : hasPagination plan = true → pageNames ⊆ known) :
    ∃ blocks, (plan.steps.mapIdx fun i s => (i, s)).mapM (fun a => stepFunction plan a.1 a.2)
        = .ok blocks
      ∧ Tells known ((List.range plan.steps.length).map stepName) [] blocks.flatten := by
  have hstep : ∀ a ∈ plan.steps.mapIdx fun i s => (i, s), ∃ b, stepFunction plan a.1 a.2 = .ok b
      ∧ Tells known [stepName a.1] [] b := by
    intro a ha
    obtain ⟨i, hi, rfl⟩ := List.mem_mapIdx.1 ha
    have hmem : plan.steps[i] ∈ plan.steps := List.getElem_mem hi
    obtain ⟨b, hb⟩ := exists_stepFunction_of_inRange h i hmem
    refine ⟨b, hb, tells_stepFunction hbase (fun l hl => ?_) hb⟩
    have hloop : l ∈ plan.loops := List.mem_filterMap.2 ⟨_, hmem, by rw [hl]; rfl⟩
    refine ⟨hloops (List.ne_nil_of_mem hloop), fun hcontrol => hpages ?_⟩
    exact List.any_eq_true.2 ⟨l, hloop, hcontrol⟩
  obtain ⟨blocks, hblocks, hall⟩ := exists_mapM_eq_ok hstep
  have hnames : (plan.steps.mapIdx fun i s => (i, s)).flatMap (fun a => [stepName a.1])
      = (List.range plan.steps.length).map stepName := by
    rw [← List.map_eq_flatMap]
    refine List.ext_getElem (by simp) fun i _ _ => ?_
    simp
  have htells := Tells.flatten hall
  rw [hnames, List.flatMap_eq_nil_iff.2 (by simp)] at htells
  exact ⟨blocks, hblocks, htells⟩

theorem baseNames_subset (hasLoop hasPagination : Bool) :
    baseNames ⊆ fixedNames hasLoop hasPagination :=
  fun _ hname => mem_fixedNames.2 (.inl hname)

/-- The blocks behind the summary, down to the functions of the steps. -/
theorem tells_front (settings : Settings) (plan : Plan String) {blocks : List Block}
    (hsteps : Tells (fixedNames (!plan.loops.isEmpty) (hasPagination plan))
      ((List.range plan.steps.length).map stepName) [] blocks.flatten) :
    Tells (fixedNames (!plan.loops.isEmpty) (hasPagination plan))
      (fixedNames (!plan.loops.isEmpty) (hasPagination plan)
        ++ (List.range plan.steps.length).map stepName) []
      (imports :: constants settings plan
        :: (fixedFunctions (!plan.loops.isEmpty) (hasPagination plan) ++ blocks)).flatten := by
  have hfixed := tells_fixedFunctions (baseNames_subset (!plan.loops.isEmpty) (hasPagination plan))
    (!plan.loops.isEmpty) (hasPagination plan)
  rw [List.flatten_cons, List.flatten_cons, List.flatten_append]
  exact .calm_append tells_imports (.calm_append (tells_constants settings plan)
    (hfixed.append hsteps))

/-- What stands behind the functions of the steps. -/
theorem tells_back (plan : Plan String) {known : List String} (hbase : baseNames ⊆ known) :
    Tells known ["run_workflow"] ((List.range plan.steps.length).map stepName)
      (runFunction plan ++ ([blank, blank] ++ (entry ++ [blank]))) := by
  have hblank : Tells known [] [] [blank] := .blankLine .nil
  have hblanks : Tells known [] [] [blank, blank] := .blankLine hblank
  exact (tells_runFunction hbase plan).append_calm
    (hblanks.calm_append (tells_entry.append_calm hblank))

/-- **The code of a script**: the quotes of the summary, the blocks that define functions, the
function that runs the steps, and what is done when the script is started. -/
theorem exists_codeLines (settings : Settings) {plan : Plan String} (h : plan.InRange) :
    ∃ s front, ofPlan settings plan = .ok s ∧ '\r' ∉ s.text.toList
      ∧ Source.codeLines s.text = summaryCode ++ (front ++ (runFunction plan
        ++ ([blank, blank] ++ (entry ++ [blank])))).map Line.codeText
      ∧ Tells (fixedNames (!plan.loops.isEmpty) (hasPagination plan))
        (fixedNames (!plan.loops.isEmpty) (hasPagination plan)
          ++ (List.range plan.steps.length).map stepName) [] front := by
  have hbase := baseNames_subset (!plan.loops.isEmpty) (hasPagination plan)
  have hloops : plan.loops ≠ [] →
      loopNames ⊆ fixedNames (!plan.loops.isEmpty) (hasPagination plan) := by
    intro hne name hname
    exact mem_fixedNames.2 (.inr (.inl ⟨by simpa using hne, hname⟩))
  have hpages : hasPagination plan = true →
      pageNames ⊆ fixedNames (!plan.loops.isEmpty) (hasPagination plan) := by
    intro hpagination name hname
    exact mem_fixedNames.2 (.inr (.inr ⟨hpagination, hname⟩))
  obtain ⟨blocks, hblocks, hsteps⟩ := exists_tells_steps h hbase hloops hpages
  have hs : ofPlan settings plan = .ok ⟨(summary plan (toString plan.actionCount)
      :: imports :: constants settings plan
      :: (fixedFunctions (!plan.loops.isEmpty) (hasPagination plan) ++ blocks))
      ++ [runFunction plan, entry]⟩ := by
    rw [ofPlan, hblocks]
    simp [bind, Except.bind, pure, Except.pure]
  have hfront : Tells _ _ _ ([blank, blank] ++ (imports :: constants settings plan
      :: (fixedFunctions (!plan.loops.isEmpty) (hasPagination plan)
        ++ blocks)).flatMap (· ++ [blank, blank])) :=
    .blankLine (.blankLine (tells_front settings plan hsteps).spread)
  have hlaidOut := laidOut_of_ofPlan (.repr _) hs
  -- behind the summary every line ends in code, so each is read apart from the others
  have hclosed := List.forall_mem_append.2 ⟨hfront.closed, (tells_back plan hbase).closed⟩
  refine ⟨_, _, hs, hlaidOut.not_mem_text, ?_, hfront⟩
  rw [Source.codeLines, hlaidOut.lines_text, lines_append_two, List.flatMap_cons]
  have hcode := codeFrom_lines hclosed []
  rw [List.append_nil, Source.codeFrom, List.append_nil] at hcode
  simp only [List.append_assoc, List.map_append] at hcode ⊢
  rw [codeFrom_summary, hcode]

/-- **Every script is self-contained.** Where all nodes of a plan are there, the plan has a script.
Outside of literals and remarks its source defines one function for each step and no other steps,
and the function that runs them calls each of them once and in order: a loop by itself, and any
other step through the function that tries it again. The functions for loops are there exactly if
there is a loop, those for several pages exactly if some loop goes over several, and each of them
is used only where it is there. -/
theorem selfContained_of_inRange (settings : Settings) {plan : Plan String} (h : plan.InRange) :
    ∃ s, ofPlan settings plan = .ok s ∧ '\r' ∉ s.text.toList
      ∧ SelfContained plan (Source.codeLines s.text) := by
  obtain ⟨s, front, hs, hbreaks, hcode, hfront⟩ := exists_codeLines settings h
  have hback := tells_back plan (baseNames_subset (!plan.loops.isEmpty) (hasPagination plan))
  have hall := hfront.append hback
  have hsummary : Source.defined summaryCode = [] ∧ Source.used summaryCode = [] := ⟨rfl, rfl⟩
  have hdefined : Source.defined (Source.codeLines s.text) = functionNames plan := by
    rw [hcode, Source.defined, List.flatMap_append, ← Source.defined, ← Source.defined,
      hsummary.1, hall.defined_codeText, functionNames]
    rfl
  have hused : Source.used (Source.codeLines s.text) = Source.used ((front ++ (runFunction plan
      ++ ([blank, blank] ++ (entry ++ [blank])))).map Line.codeText) := by
    rw [hcode, Source.used, List.flatMap_append, ← Source.used, ← Source.used, hsummary.2]
    rfl
  obtain ⟨hsteps, hknown⟩ := hall.used_codeText
  -- no two functions share a name, so the lines in front do not define the one that runs the steps
  have hbefore : "run_workflow" ∉ Source.defined (summaryCode ++ front.map Line.codeText) := by
    have hnodup := nodup_functionNames plan
    rw [functionNames, List.nodup_append] at hnodup
    rw [Source.defined, List.flatMap_append, ← Source.defined, ← Source.defined, hsummary.1,
      hfront.defined_codeText, List.nil_append]
    exact fun hmem => hnodup.2.2 _ hmem _ List.mem_cons_self rfl
  refine ⟨s, hs, hbreaks, hdefined, ?_, ?_, ?_, ?_, ?_, ?_, ?_⟩
  · rw [hdefined]
    exact nodup_functionNames plan
  · rw [hdefined]
    exact filter_functionNames plan
  · rw [hused]
    exact hsteps
  · rw [hcode, List.map_append, ← List.append_assoc]
    exact bodyOf_runFunction hbefore plan
  · intro name hname
    have hhelper : name ∈ helperNames := by simp [helperNames, hname]
    rw [hdefined, mem_functionNames_of_mem_helperNames hhelper,
      mem_fixedNames_of_mem_loopNames hname]
    simp
  · intro name hname
    have hhelper : name ∈ helperNames := by simp [helperNames, hname]
    rw [hdefined, mem_functionNames_of_mem_helperNames hhelper,
      mem_fixedNames_of_mem_pageNames hname, hasPagination_iff]
  · intro name hhelper hname
    rw [hused] at hname
    rw [hdefined, mem_functionNames_of_mem_helperNames hhelper]
    exact hknown name hname hhelper

/-- A plan of a table over several pages, on each row of which a click leads to a title, and of a
field to fill in. -/
def pagedTableAndField : Plan String :=
  { baseUrl := ""
    nodes := [{ kind := .click, locator := "a", relative := true, postClicks := [1] },
      { kind := .label, locator := "h1", label := some "Title" },
      { kind := .input, locator := "#name", value := some "def step_7" }]
    steps := [.loop { subject := "table", pagination := some ".next", body := [0] }, .node 2]
    actionCount := 6 }

/-- Its script brings all functions, and what is typed into the field defines no step. -/
theorem selfContained_of_inRange_pagedTable :
    ∃ s, ofPlan {} pagedTableAndField = .ok s ∧ '\r' ∉ s.text.toList
      ∧ SelfContained pagedTableAndField (Source.codeLines s.text) :=
  selfContained_of_inRange {} ⟨by decide, by decide, by decide⟩

end Retrace.Script
