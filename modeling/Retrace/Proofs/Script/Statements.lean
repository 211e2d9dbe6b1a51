/-
What a script does, read off its text.

In the text of a script every action begins with a line that finds an element (`locates`), and the
next line acts on it. Here the text of a whole script is compared with its plan: the lines that find
an element are those of the nodes in the order in which the plan visits them, and around them stands
what the plan says. A click on a row that leads elsewhere is followed by a wait, by what is done
there, and by the way back to the row (`Plan.rowStatements`).

No other line of a script finds an element, in whatever way the recorded text is chosen, since
every other line begins with code of its own (`Line.Quiet`).
-/
import Mathlib.Data.List.Forall2
import Retrace.Proofs.Plan.Conservation
import Retrace.Proofs.Script.Lines

set_option autoImplicit false

namespace Retrace

open Script

/-! ## Statements -/

namespace Script

/-- A line without the blanks in front of it. -/
def unindented (line : String) : String := String.ofList (line.toList.dropWhile (· = ' '))

/-- The lines of a script's text, without their indents. -/
def codeLines (text : String) : List String := (Text.lines text).map unindented

/-- Does the line find an element to act on? -/
def locates (line : String) : Bool := "el = ".toList.isPrefixOf line.toList

end Script

namespace Node

/-- The line that finds the element of a node. -/
def locating (n : Node String) : String :=
  if n.relative = true ∧ n.locator = "" then "el = row"
  else "el = await find_element(" ++ (if n.relative then "row" else "page") ++ ", "
    ++ quote n.locator ++ ")"

/-- The line that acts on the element. A text that is read goes into `sink`, under the label or else
under the locator. -/
def acting (n : Node String) (sink : String) : String :=
  match n.kind with
  | .click => "await el.click()"
  | .input => "await el.fill(" ++ quote (n.value.getD "") ++ ")"
  | .select => "await el.select_option(label=" ++ quote (n.value.getD "") ++ ")"
  | _ => sink ++ "[" ++ quote ((n.label.filter (· ≠ "")).getD n.locator)
    ++ "] = (await el.inner_text()).strip()"

def statement (n : Node String) (sink : String) : List String := [n.locating, n.acting sink]

end Node

namespace Plan

/-- The statements of a node in the body of a loop. What a click leads to is waited for and done,
and then the row is fetched anew. -/
def rowStatements (nodes : List (Node String)) (k : Nat) : List String :=
  match nodes[k]? with
  | none => []
  | some n => n.statement "record" ++ if n.postClicks = [] then [] else
      "await page.wait_for_load_state(\"domcontentloaded\")"
        :: (n.postClicks.filterMap (nodes[·]?)).flatMap (·.statement "record")
        ++ ["await return_to_list(page, subject, list_url)",
          "row = await current_row(page, subject, rows_selector, index)"]

def stepStatements (nodes : List (Node String)) : Step → List String
  | .node k => (nodes[k]?.toList).flatMap (·.statement "data[\"fields\"]")
  | .loop l => l.body.flatMap (rowStatements nodes)

end Plan

/-- The chunks stand among the lines, in their order and each in one piece, and no line between them
finds an element. -/
inductive Script.Among : List (List String) → List String → Prop where
  | nil {quiet : List String} : (∀ line ∈ quiet, locates line = false) → Among [] quiet
  | cons {quiet chunk rest : List String} {chunks : List (List String)} :
    (∀ line ∈ quiet, locates line = false) → Among chunks rest →
    Among (chunk :: chunks) (quiet ++ (chunk ++ rest))

namespace Script

/-! ## Chunks among lines -/

namespace Among

/-- Lines that locate nothing may stand in front. -/
theorem quiet_append {quiet lines : List String} {chunks : List (List String)}
    (hquiet : ∀ line ∈ quiet, locates line = false) (h : Among chunks lines) :
    Among chunks (quiet ++ lines) := by
  have happend : ∀ more : List String, (∀ line ∈ more, locates line = false) →
      ∀ line ∈ quiet ++ more, locates line = false := by
    intro more hmore line hline
    exact (List.mem_append.1 hline).elim (hquiet line) (hmore line)
  cases h with
  | nil hmore => exact .nil (happend _ hmore)
  | cons hmore hrest =>
    rw [← List.append_assoc]
    exact .cons (happend _ hmore) hrest

theorem append {lines lines' : List String} {chunks chunks' : List (List String)}
    (h : Among chunks lines) (h' : Among chunks' lines') :
    Among (chunks ++ chunks') (lines ++ lines') := by
  induction h with
  | nil hquiet => exact h'.quiet_append hquiet
  | cons hquiet _ ih =>
    rw [List.append_assoc, List.append_assoc]
    exact .cons hquiet ih

/-- A chunk is among its own lines. -/
theorem single (chunk : List String) : Among [chunk] chunk := by
  simpa using @cons [] chunk [] [] (by simp) (.nil (by simp))

/-- The lines that find an element are those in the chunks. -/
theorem filter_locates {lines : List String} {chunks : List (List String)}
    (h : Among chunks lines) : lines.filter locates = chunks.flatMap (List.filter locates) := by
  have hnone : ∀ quiet : List String, (∀ line ∈ quiet, locates line = false) →
      quiet.filter locates = [] := by
    intro quiet hquiet
    exact List.filter_eq_nil_iff.2 fun line hline => by simp [hquiet line hline]
  induction h with
  | nil hquiet => exact hnone _ hquiet
  | cons hquiet _ ih => simp [hnone _ hquiet, ih]

end Among

/-! ## Fixed code -/

-- The characters of fixed code are an argument of their own in what follows. A text that is written
-- out is unified with `String.ofList cs`, which is fast, while reading its characters is slow.

/-- Is this the beginning of a line, and does it stay on it? -/
def opensLine (cs : List Char) : Bool :=
  cs.head?.any (· != ' ') && cs.all fun c => c != '\n' && c != '\r'

/-- Does a line that begins with the characters, however it goes on, find no element? -/
def opensQuietly (cs : List Char) : Bool :=
  opensLine cs && !(cs.isPrefixOf ['e', 'l', ' ', '=', ' '])
    && !(List.isPrefixOf ['e', 'l', ' ', '=', ' '] cs)

/-- The fixed beginning of a line has no line end in it. -/
theorem flat_of_opensLine {cs : List Char} (h : opensLine cs = true) :
    Text.Flat (String.ofList cs) := by
  intro c hc
  simp only [opensLine, Bool.and_eq_true, List.all_eq_true, bne_iff_ne] at h
  rw [String.toList_ofList] at hc
  exact h.2 c hc

/-- Where no blank is in front there is no indentation, whatever follows. -/
theorem unindented_append {cs : List Char} (h : opensLine cs = true) (t : String) :
    unindented (String.ofList cs ++ t) = String.ofList cs ++ t := by
  simp only [opensLine, Bool.and_eq_true] at h
  obtain ⟨c, hc, hne⟩ := (Option.any_eq_true ..).1 h.1
  obtain ⟨rest, rfl⟩ := List.head?_eq_some_iff.1 hc
  have hblank : decide (c = ' ') = false := by simpa using hne
  rw [unindented, ← String.toList_inj, String.toList_ofList, String.toList_append,
    String.toList_ofList]
  simp [hblank]

theorem unindented_ofList {cs : List Char} (h : opensLine cs = true) :
    unindented (String.ofList cs) = String.ofList cs := by
  simpa using unindented_append h ""

/-- Whether a line locates is told by its beginning. -/
theorem locates_append {cs : List Char} (h : opensQuietly cs = true) (t : String) :
    locates (String.ofList cs ++ t) = false := by
  have hmark : "el = ".toList = ['e', 'l', ' ', '=', ' '] := by decide
  simp only [opensQuietly, Bool.and_eq_true, Bool.not_eq_true', Bool.eq_false_iff,
    List.isPrefixOf_iff_prefix, ne_eq] at h
  obtain ⟨⟨-, hshort⟩, hlong⟩ := h
  by_contra hlocates
  rw [Bool.not_eq_false, locates, hmark, List.isPrefixOf_iff_prefix, String.toList_append,
    String.toList_ofList] at hlocates
  rcases List.prefix_or_prefix_of_prefix hlocates (List.prefix_append _ _) with h | h
  · exact hlong h
  · exact hshort h

theorem locates_ofList {cs : List Char} (h : opensQuietly cs = true) :
    locates (String.ofList cs) = false := by
  simpa using locates_append h ""

/-- A line with the mark in front locates. -/
theorem locates_of_prefix {cs : List Char} (h : ['e', 'l', ' ', '=', ' '].isPrefixOf cs = true)
    (t : String) : locates (String.ofList cs ++ t) = true := by
  have hmark : "el = ".toList = ['e', 'l', ' ', '=', ' '] := by decide
  rw [List.isPrefixOf_iff_prefix] at h
  rw [locates, hmark, List.isPrefixOf_iff_prefix, String.toList_append, String.toList_ofList]
  exact h.trans (List.prefix_append _ _)

/-! ## Lines that find no element -/

/-- A line that stays one line and finds no element. -/
structure Line.Quiet (l : Line) : Prop where
  flat : l.Flat
  not_locates : locates (unindented l.text) = false

/-- Only the parts of a line count, and not its depth. -/
theorem unindented_text (l : Line) :
    unindented l.text = unindented (String.join (l.parts.map Part.text)) := by
  unfold Line.text
  split
  · next h => simp [List.isEmpty_iff.1 h]
  · rw [unindented, unindented, String.toList_append, String.toList_ofList,
      List.dropWhile_append_of_pos (by simp)]

/-- Nesting changes the indentation only. -/
@[simp] theorem unindented_text_nest (levels : Nat) (l : Line) :
    unindented (l.nest levels).text = unindented l.text := by
  rw [unindented_text, unindented_text]
  rfl

namespace Line.Quiet

theorem blank : Quiet blank := ⟨by simp [Line.Flat, Script.blank], by decide⟩

/-- Quiet code, with more parts behind it. -/
theorem parts {depth : Nat} {cs : List Char} {more : List Part} (h : opensQuietly cs = true)
    (hmore : ∀ p ∈ more, p.Flat) : Quiet ⟨depth, .code (String.ofList cs) :: more⟩ := by
  have hopens : opensLine cs = true := by
    simp only [opensQuietly, Bool.and_eq_true] at h
    exact h.1.1
  refine ⟨List.forall_mem_cons.2 ⟨flat_of_opensLine hopens, hmore⟩, ?_⟩
  rw [unindented_text, List.map_cons, String.join_cons, Part.text, unindented_append hopens]
  exact locates_append h _

/-- A line of fixed text is quiet if its beginning is. -/
theorem fixed {depth : Nat} {cs : List Char} (h : opensQuietly cs = true) :
    Quiet (code depth (String.ofList cs)) := parts h (by simp)

/-- Quiet code, with more code behind it. -/
theorem code_append {depth : Nat} {cs : List Char} {t : String} (h : opensQuietly cs = true)
    (ht : Text.Flat t) {more : List Part} (hmore : ∀ p ∈ more, p.Flat) :
    Quiet ⟨depth, .code (String.ofList cs ++ t) :: more⟩ := by
  have hopens : opensLine cs = true := by
    simp only [opensQuietly, Bool.and_eq_true] at h
    exact h.1.1
  refine ⟨List.forall_mem_cons.2 ⟨(flat_of_opensLine hopens).append ht, hmore⟩, ?_⟩
  rw [unindented_text, List.map_cons, String.join_cons, Part.text, String.append_assoc,
    unindented_append hopens]
  exact locates_append h _

end Line.Quiet

/-! ## Blocks -/

/-- The lines of a block stay lines, and the chunks stand among them. -/
structure Holds (chunks : List (List String)) (b : Block) : Prop where
  flat : ∀ l ∈ b, l.Flat
  among : Among chunks (b.map fun l => unindented l.text)

namespace Holds

variable {b b' : Block} {chunks chunks' : List (List String)}

/-- Quiet lines hold no chunk. -/
theorem quiet (h : ∀ l ∈ b, l.Quiet) : Holds [] b := by
  refine ⟨fun l hl => (h l hl).flat, .nil ?_⟩
  intro line hline
  obtain ⟨l, hl, rfl⟩ := List.mem_map.1 hline
  exact (h l hl).not_locates

theorem nil : Holds [] [] := quiet (by simp)

theorem append (h : Holds chunks b) (h' : Holds chunks' b') :
    Holds (chunks ++ chunks') (b ++ b') := by
  refine ⟨fun l hl => (List.mem_append.1 hl).elim (h.flat l) (h'.flat l), ?_⟩
  rw [List.map_append]
  exact h.among.append h'.among

theorem append_quiet (h : Holds chunks b) (h' : Holds [] b') : Holds chunks (b ++ b') := by
  simpa using h.append h'

theorem quiet_append (h : Holds [] b) (h' : Holds chunks b') : Holds chunks (b ++ b') :=
  h.append h'

theorem cons {l : Line} (hl : l.Quiet) (h : Holds chunks b) : Holds chunks (l :: b) :=
  quiet_append (b := [l]) (quiet (by simpa using hl)) h

/-- A line of fixed code in front of others. -/
theorem fixed {depth : Nat} {cs : List Char} (hcs : opensQuietly cs = true) (h : Holds chunks b) :
    Holds chunks (code depth (String.ofList cs) :: b) :=
  cons (.fixed hcs) h

theorem nest (h : Holds chunks b) (levels : Nat) : Holds chunks (b.map (Line.nest levels)) := by
  refine ⟨?_, ?_⟩
  · intro l hl
    obtain ⟨l', hl', rfl⟩ := List.mem_map.1 hl
    exact h.flat l' hl'
  · simpa [Function.comp_def] using h.among

end Holds

/-- Blocks that are put together as a script hold what each of them holds. -/
theorem Among.lines {chunkss : List (List (List String))} {blocks : List Block}
    (h : List.Forall₂ Holds chunkss blocks) :
    Among chunkss.flatten ((Script.lines ⟨blocks⟩).map fun l => unindented l.text) := by
  have hblank : ∀ line ∈ [blank, blank].map fun l => unindented l.text,
      locates line = false := by decide
  have hblocks : Among chunkss.flatten
      ((List.intercalate [blank, blank] blocks).map fun l => unindented l.text) := by
    induction h with
    | nil => exact .nil (by simp)
    | @cons chunks b chunkss blocks hb hrest ih =>
      by_cases hnil : blocks = []
      · subst hnil
        obtain rfl := List.forall₂_nil_right_iff.1 hrest
        simpa using hb.among
      · rw [List.intercalate_cons_of_ne_nil hnil, List.map_append, List.map_append,
          List.append_assoc, List.flatten_cons]
        exact hb.among.append (ih.quiet_append hblank)
  rw [Script.lines, List.map_append, ← List.append_nil chunkss.flatten]
  exact hblocks.append (.nil (by decide))

/-- What one side of a relation has in every case is had by the whole list. -/
theorem forall_mem_of_forall₂ {α β : Type} {R : α → β → Prop} {P : β → Prop} {as : List α}
    {bs : List β} (h : List.Forall₂ R as bs) (hP : ∀ a b, R a b → P b) : ∀ b ∈ bs, P b := by
  induction h with
  | nil => simp
  | cons hR _ ih => exact List.forall_mem_cons.2 ⟨hP _ _ hR, ih⟩

/-- **From blocks to text.** -/
theorem among_codeLines {chunkss : List (List (List String))} {s : Script}
    (hne : s.blocks ≠ []) (hnil : ∀ b ∈ s.blocks, b ≠ [])
    (h : List.Forall₂ Holds chunkss s.blocks) :
    Among chunkss.flatten (codeLines s.text) ∧ '\r' ∉ s.text.toList := by
  have hflat : ∀ b ∈ s.blocks, ∀ l ∈ b, l.Flat := forall_mem_of_forall₂ h fun _ _ hb => hb.flat
  refine ⟨?_, not_mem_text hne hnil hflat⟩
  rw [codeLines, lines_text hne hnil hflat, List.map_map]
  exact Among.lines h

/-! ## One action -/

/-- Where the element of a node is looked for. -/
def scopeOf (n : Node String) : Scope := if n.relative then .row else .page

/-- The line that locates is the one that the node asks for. -/
theorem locateLine_text (n : Node String) :
    unindented (locateLine n (scopeOf n)).text = n.locating := by
  rw [unindented_text, locateLine, Node.locating, scopeOf]
  by_cases hrow : n.relative = true ∧ n.locator = ""
  · rw [if_pos (by simpa using hrow), if_pos hrow]
    simp only [code, List.map_cons, List.map_nil, Part.text, String.join_cons, String.join_nil,
      String.append_empty]
    exact unindented_ofList (by decide)
  · rw [if_neg (by simpa using hrow), if_neg hrow]
    simp only [List.map_cons, List.map_nil, Part.text, String.join_cons, String.join_nil,
      String.append_empty, String.append_assoc, -String.reduceAppend]
    refine (unindented_append (by decide) _).trans ?_
    cases n.relative <;> rfl

/-- A field is named by the label, or else by the locator. -/
theorem fieldName_eq (n : Node String) :
    fieldName n = (n.label.filter (· ≠ "")).getD n.locator := by
  unfold fieldName
  split
  · next h => simp [h]
  · next h => simp [h, Option.filter]
  · next label hne h =>
    have hne : label ≠ "" := fun hempty => hne hempty
    simp [h, Option.filter, hne]

/-- The line that acts is the one that the node asks for. -/
theorem actLine_text (n : Node String) (sink : Sink) :
    unindented (actLine n sink).text = n.acting sink.name := by
  rw [unindented_text, actLine, Node.acting, ← fieldName_eq]
  cases n.kind
  all_goals
    simp only [code, List.map_cons, List.map_nil, Part.text, String.join_cons, String.join_nil,
      String.append_empty, String.append_assoc, -String.reduceAppend]
  case click => exact unindented_ofList (by decide)
  case input => exact unindented_append (by decide) _
  case select => exact unindented_append (by decide) _
  -- whatever else is done to an element reads its text
  all_goals
    cases sink
    all_goals
      dsimp only [Sink.name]
      exact unindented_append (by decide) _

/-- A locator stands between quotes and so brings no line end along. -/
theorem flat_locateLine (n : Node String) (scope : Scope) : (locateLine n scope).Flat := by
  have hopen : Text.Flat ("el = await find_element(" ++ scope.name ++ ", ") := by
    have hname : Text.Flat scope.name := by
      cases scope
      all_goals
        dsimp only [Scope.name]
        exact flat_of_opensLine (by decide)
    exact .append (.append (flat_of_opensLine (by decide)) hname) (by decide)
  have hclose : Text.Flat ")" := flat_of_opensLine (by decide)
  have hrow : Text.Flat "el = row" := flat_of_opensLine (by decide)
  unfold locateLine
  split
  · simp [Line.Flat, Part.Flat, code, hrow]
  · simp [Line.Flat, Part.Flat, hopen, hclose]

theorem flat_actLine (n : Node String) (sink : Sink) : (actLine n sink).Flat := by
  have hclose : Text.Flat ")" := flat_of_opensLine (by decide)
  have hclick : Text.Flat "await el.click()" := flat_of_opensLine (by decide)
  have hfill : Text.Flat "await el.fill(" := flat_of_opensLine (by decide)
  have hselect : Text.Flat "await el.select_option(label=" := flat_of_opensLine (by decide)
  have hsink : Text.Flat (sink.name ++ "[") := by
    have hname : Text.Flat sink.name := by
      cases sink
      all_goals
        dsimp only [Sink.name]
        exact flat_of_opensLine (by decide)
    exact hname.append (flat_of_opensLine (by decide))
  have hread : Text.Flat "] = (await el.inner_text()).strip()" := flat_of_opensLine (by decide)
  unfold actLine
  split
  · simp [Line.Flat, Part.Flat, code, hclick]
  · simp [Line.Flat, Part.Flat, hfill, hclose]
  · simp [Line.Flat, Part.Flat, hselect, hclose]
  · simp [Line.Flat, Part.Flat, hsink, hread]

/-- What is written for a node is its statement, if it is looked for where it should be. -/
theorem actionLines_text (n : Node String) {scope : Scope} (hscope : scope = scopeOf n)
    (sink : Sink) : (actionLines n scope sink).map (fun l => unindented l.text)
      = n.statement sink.name := by
  rw [hscope, actionLines, List.map_cons, List.map_singleton, locateLine_text, actLine_text]
  rfl

theorem flat_actionLines (n : Node String) (scope : Scope) (sink : Sink) :
    ∀ l ∈ actionLines n scope sink, l.Flat :=
  List.forall_mem_cons.2 ⟨flat_locateLine n scope, by simpa using flat_actLine n sink⟩

/-- The line that locates has the mark. -/
theorem locates_locating (n : Node String) : locates n.locating = true := by
  unfold Node.locating
  split
  · decide
  · simp only [String.append_assoc]
    exact locates_of_prefix (by decide) _

/-- The line that acts has no mark, since it begins otherwise. -/
theorem locates_acting (n : Node String) (sink : Sink) : locates (n.acting sink.name) = false := by
  unfold Node.acting
  split
  · exact locates_ofList (by decide)
  · rw [String.append_assoc]
    exact locates_append (by decide) _
  · rw [String.append_assoc]
    exact locates_append (by decide) _
  · simp only [String.append_assoc]
    cases sink
    all_goals
      dsimp only [Sink.name]
      exact locates_append (by decide) _

/-- In the statement of a node one line finds an element. -/
theorem filter_locates_statement (n : Node String) (sink : Sink) :
    (n.statement sink.name).filter locates = [n.locating] := by
  rw [Node.statement, List.filter_cons_of_pos (locates_locating n),
    List.filter_cons_of_neg (by rw [locates_acting n sink]; decide), List.filter_nil]

/-- In what is said for a node of a body, each node that is visited finds its element once. -/
theorem filter_locates_rowStatements (nodes : List (Node String)) (k : Nat) :
    (Plan.rowStatements nodes k).filter locates
      = (k :: Plan.followUps nodes k).filterMap (nodes[·]?.map Node.locating) := by
  have hwait : locates "await page.wait_for_load_state(\"domcontentloaded\")" = false :=
    locates_ofList (by decide)
  have hreturn : locates "await return_to_list(page, subject, list_url)" = false :=
    locates_ofList (by decide)
  have hfetch : locates "row = await current_row(page, subject, rows_selector, index)" = false :=
    locates_ofList (by decide)
  have hstatement : ∀ n : Node String, (n.statement "record").filter locates = [n.locating] :=
    fun n => filter_locates_statement n .record
  unfold Plan.rowStatements Plan.followUps
  cases hn : nodes[k]? with
  | none => simp [hn]
  | some n =>
    by_cases hnone : n.postClicks = []
    · simp [hn, hnone, hstatement]
    · have hafter : (n.postClicks.filterMap (nodes[·]?)).flatMap (fun m => [m.locating])
          = n.postClicks.filterMap (nodes[·]?.map Node.locating) := by
        rw [← List.map_eq_flatMap, List.map_filterMap]
      simp [hn, hnone, hstatement, hwait, hreturn, hfetch, List.filter_flatMap, hafter]

/-- **In what is said for a step**, each node that is visited finds its element once. -/
theorem filter_locates_stepStatements (nodes : List (Node String)) (step : Step) :
    (Plan.stepStatements nodes step).filter locates
      = (Plan.stepVisits nodes step).filterMap (nodes[·]?.map Node.locating) := by
  cases step with
  | node k =>
    have hstatement : ∀ n : Node String,
        (n.statement "data[\"fields\"]").filter locates = [n.locating] :=
      fun n => filter_locates_statement n .fields
    unfold Plan.stepStatements Plan.stepVisits
    cases hn : nodes[k]? with
    | none => simp [hn]
    | some n => simp [hn, hstatement]
  | loop l =>
    unfold Plan.stepStatements Plan.stepVisits
    rw [List.filter_flatMap, List.filterMap_flatMap]
    exact List.flatMap_congr fun k _ => filter_locates_rowStatements nodes k

/-- The lines that find an element, if the steps are said one after the other. -/
theorem Among.filter_locates_eq {nodes : List (Node String)} {steps : List Step}
    {lines : List String} (h : Among (steps.map (Plan.stepStatements nodes)) lines) :
    lines.filter locates = (Plan.visits nodes steps).filterMap (nodes[·]?.map Node.locating) := by
  rw [h.filter_locates, Plan.visits, List.filterMap_flatMap, List.flatMap_map]
  exact List.flatMap_congr fun step _ => filter_locates_stepStatements nodes step

end Script

end Retrace
