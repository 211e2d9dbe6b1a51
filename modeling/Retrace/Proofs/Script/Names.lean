/-
The names in the code of a script.

Some names matter for a script: those of its steps, and those of the fixed functions that help them.
Most lines are calm: they define nothing and use no step, and what they use of the helpers is known
(`Calm`). For a block of lines it is told which names it defines, and which steps it uses (`Tells`).
A line of fixed code is looked at once and for all, and recorded text in a line does not matter.
-/
import Mathlib.Data.Bool.AllAny
import Mathlib.Data.List.Nodup
import Retrace.Proofs.Script.Source
import Retrace.Script.Render

set_option autoImplicit false

namespace Retrace.Script

open Source (Mode names definedIn usedIn isNameChar)

/-! ## Names of functions -/

/-- The functions for every script. -/
def baseNames : List String := ["find_element", "wait_for_page", "run_step"]

/-- The functions for loops. -/
def loopNames : List String := ["current_row", "return_to_list"]

/-- The functions for loops over several pages. -/
def pageNames : List String := ["pagination_available", "first_row_handle", "wait_for_next_page"]

def helperNames : List String := baseNames ++ loopNames ++ pageNames

/-- Is it the name of a step, with whatever number? -/
def isStepName (name : String) : Bool := "step_".toList.isPrefixOf name.toList

/-- The fixed functions that a script with the given features brings. -/
def fixedNames (hasLoop hasPagination : Bool) : List String :=
  baseNames ++ (if hasLoop then loopNames else []) ++ (if hasPagination then pageNames else [])

/-- The functions of the script of a plan, in order. -/
def functionNames (plan : Plan String) : List String :=
  fixedNames (!plan.loops.isEmpty) (hasPagination plan)
    ++ (List.range plan.steps.length).map stepName ++ ["run_workflow"]

theorem toList_stepName (index : Nat) :
    (stepName index).toList = "step_".toList ++ Nat.toDigits 10 index := by
  have happend : stepName index = "step_" ++ index.repr := rfl
  rw [happend, String.toList_append, Nat.toList_repr]

theorem isStepName_stepName (index : Nat) : isStepName (stepName index) = true := by
  rw [isStepName, toList_stepName, List.isPrefixOf_iff_prefix]
  exact List.prefix_append _ _

/-- Steps with different numbers have different names. -/
theorem stepName_injective : Function.Injective stepName := by
  intro i j h
  have hdigits : Nat.toDigits 10 i = Nat.toDigits 10 j := by
    have hchars := congrArg String.toList h
    rw [toList_stepName, toList_stepName] at hchars
    exact List.append_cancel_left hchars
  rw [← Nat.ofDigitChars_ten_toDigits (n := i), hdigits, Nat.ofDigitChars_ten_toDigits]

/-- No name of a step is a word of the language, or one of the other functions. -/
theorem stepName_notMem (index : Nat) :
    stepName index ∉ "def" :: "run_workflow" :: helperNames := by
  have hother : ∀ name ∈ "def" :: "run_workflow" :: helperNames, isStepName name = false := by
    decide +kernel
  intro hmem
  simpa [isStepName_stepName] using hother _ hmem

/-- The functions of a script are the fixed ones, one for each step, and the one that runs them. -/
theorem mem_functionNames {plan : Plan String} {name : String} :
    name ∈ functionNames plan ↔ name ∈ fixedNames (!plan.loops.isEmpty) (hasPagination plan)
      ∨ (∃ index < plan.steps.length, stepName index = name) ∨ name = "run_workflow" := by
  simp [functionNames]

theorem mem_fixedNames {hasLoop hasPagination : Bool} {name : String} :
    name ∈ fixedNames hasLoop hasPagination ↔ name ∈ baseNames
      ∨ (hasLoop = true ∧ name ∈ loopNames) ∨ (hasPagination = true ∧ name ∈ pageNames) := by
  rw [fixedNames, List.mem_append, List.mem_append, or_assoc]
  cases hasLoop <;> cases hasPagination <;> simp

theorem fixedNames_subset (hasLoop hasPagination : Bool) :
    fixedNames hasLoop hasPagination ⊆ helperNames := by
  intro name hname
  rw [mem_fixedNames] at hname
  rw [helperNames, List.mem_append, List.mem_append]
  rcases hname with hname | ⟨-, hname⟩ | ⟨-, hname⟩
  · exact .inl (.inl hname)
  · exact .inl (.inr hname)
  · exact .inr hname

/-- The functions for loops are there just if there is a loop. -/
theorem mem_fixedNames_of_mem_loopNames {hasLoop hasPagination : Bool} {name : String}
    (h : name ∈ loopNames) : name ∈ fixedNames hasLoop hasPagination ↔ hasLoop = true := by
  have hother : ∀ name ∈ loopNames, name ∉ baseNames ∧ name ∉ pageNames := by decide
  obtain ⟨hbase, hpages⟩ := hother name h
  simp [mem_fixedNames, h, hbase, hpages]

/-- The functions for pages are there just if there is a control for the next one. -/
theorem mem_fixedNames_of_mem_pageNames {hasLoop hasPagination : Bool} {name : String}
    (h : name ∈ pageNames) : name ∈ fixedNames hasLoop hasPagination ↔ hasPagination = true := by
  have hother : ∀ name ∈ pageNames, name ∉ baseNames ∧ name ∉ loopNames := by decide
  obtain ⟨hbase, hloops⟩ := hother name h
  simp [mem_fixedNames, h, hbase, hloops]

/-- A helper is a function of the script only if it is one of the fixed ones. -/
theorem mem_functionNames_of_mem_helperNames {plan : Plan String} {name : String}
    (h : name ∈ helperNames) : name ∈ functionNames plan
      ↔ name ∈ fixedNames (!plan.loops.isEmpty) (hasPagination plan) := by
  have hworkflow : "run_workflow" ∉ helperNames := by decide
  rw [mem_functionNames]
  refine ⟨?_, .inl⟩
  rintro (hname | ⟨index, -, rfl⟩ | rfl)
  · exact hname
  · exact absurd (by simp [h]) (stepName_notMem index)
  · exact absurd h hworkflow

/-- No function is defined twice. -/
theorem nodup_functionNames (plan : Plan String) : (functionNames plan).Nodup := by
  have hfixed : ∀ hasLoop hasPagination, (fixedNames hasLoop hasPagination).Nodup := by decide
  have hsteps : ((List.range plan.steps.length).map stepName).Nodup :=
    (List.nodup_map_iff stepName_injective).2 List.nodup_range
  have hworkflow : "run_workflow" ∉ helperNames := by decide
  rw [functionNames, List.append_assoc]
  refine List.nodup_append.2 ⟨hfixed _ _, List.nodup_append.2 ⟨hsteps, by simp, ?_⟩, ?_⟩
  · rintro name hname other hother rfl
    obtain ⟨index, -, rfl⟩ := List.mem_map.1 hname
    exact stepName_notMem index (by simp_all)
  · rintro name hname other hother rfl
    have hname := fixedNames_subset _ _ hname
    rcases List.mem_append.1 hother with hother | hother
    · obtain ⟨index, -, rfl⟩ := List.mem_map.1 hother
      exact stepName_notMem index (by simp [hname])
    · obtain rfl := List.mem_singleton.1 hother
      exact hworkflow hname

theorem filter_functionNames (plan : Plan String) :
    (functionNames plan).filter isStepName = (List.range plan.steps.length).map stepName := by
  have hhelper : ∀ name ∈ helperNames, isStepName name = false := by decide +kernel
  have hworkflow : isStepName "run_workflow" = false := by decide +kernel
  have hfixed : (fixedNames (!plan.loops.isEmpty) (hasPagination plan)).filter isStepName = [] := by
    rw [List.filter_eq_nil_iff]
    intro name hname
    simp [hhelper name (fixedNames_subset _ _ hname)]
  have hsteps : ((List.range plan.steps.length).map stepName).filter isStepName
      = (List.range plan.steps.length).map stepName := by
    rw [List.filter_eq_self]
    exact List.forall_mem_map.2 fun index _ => isStepName_stepName index
  rw [functionNames, List.filter_append, List.filter_append, hfixed, hsteps]
  simp [hworkflow]

theorem hasPagination_iff {plan : Plan String} :
    hasPagination plan = true ↔ ∃ l ∈ plan.loops, ∃ control ∈ l.pagination, control ≠ "" := by
  rw [hasPagination, List.any_eq_true]
  refine exists_congr fun l => and_congr_right fun _ => ?_
  cases hpagination : l.pagination <;> simp [nextControl?, hpagination]

/-! ## Characters of names and numbers -/

theorem isDigit_of_mem_toDigits {n : Nat} {c : Char} (hc : c ∈ Nat.toDigits 10 n) :
    c.isDigit = true := Nat.isDigit_of_mem_toDigits (by decide) (by decide) hc

theorem isNameChar_stepName {index : Nat} {c : Char} (hc : c ∈ (stepName index).toList) :
    isNameChar c = true := by
  rw [toList_stepName] at hc
  rcases List.mem_append.1 hc with hc | hc
  · rw [String.toList_ofList] at hc
    have hstep : ∀ c ∈ ['s', 't', 'e', 'p', '_'], isNameChar c = true :=
      List.all_eq_true.1 (by decide)
    exact hstep c hc
  · have hdigit := isDigit_of_mem_toDigits hc
    simp [isNameChar, Char.isAlphanum, hdigit]

/-- The name of a step is one name. -/
theorem names_stepName (index : Nat) : names (stepName index).toList = [stepName index] := by
  have hne : (stepName index).toList ≠ [] := by
    rw [toList_stepName]
    simp
  rw [names_of_forall hne fun c => isNameChar_stepName, String.ofList_toList]

/-- A number is written with digits and maybe a sign. -/
theorem isDigit_of_mem_toString {n : Int} {c : Char} (hc : c ∈ (toString n).toList) :
    c.isDigit = true ∨ c = '-' := by
  cases n with
  | ofNat n => exact .inl (isDigit_of_mem_toDigits (Nat.toList_repr ▸ hc))
  | negSucc n =>
    have hsign : (toString (Int.negSucc n)).toList = '-' :: (n + 1).repr.toList :=
      String.toList_append
    rw [hsign] at hc
    rcases List.mem_cons.1 hc with rfl | hc
    · exact .inr rfl
    · exact .inl (isDigit_of_mem_toDigits (Nat.toList_repr ▸ hc))

/-- No number has one of these characters. -/
theorem notMem_toString {n : Int} {c : Char} (hc : c ∈ ['"', '\'', '#', '\\', '_', 'd']) :
    c ∉ (toString n).toList := by
  have hother : ∀ c ∈ ['"', '\'', '#', '\\', '_', 'd'], ¬ (c.isDigit = true ∨ c = '-') :=
    List.all_iff_forall_prop.1 (by decide)
  exact fun hmem => hother c hc (isDigit_of_mem_toString hmem)

theorem isPlainCode_toString (n : Int) : IsPlainCode (toString n).toList := by
  intro c hc
  refine ⟨?_, ?_, ?_⟩ <;> rintro rfl <;> exact notMem_toString (by decide) hc

theorem isPlainCode_stepName (index : Nat) : IsPlainCode (stepName index).toList :=
  isPlainCode_of_isNameChar fun _ => isNameChar_stepName

/-! ## Calm code -/

/-- The names define nothing and use no step, and the helpers among them are known. -/
def Calm (known ws : List String) : Prop :=
  ∀ name ∈ ws, name ≠ "def" ∧ isStepName name = false ∧ (name ∈ helperNames → name ∈ known)

/-- A piece of code that is calm. A name without a low line is neither a step nor a helper, so only
the others are looked up. -/
def isCalm (known : List String) (piece : List Char) : Bool :=
  piece != ['d', 'e', 'f'] && (!piece.contains '_' || (!(['s', 't', 'e', 'p', '_'].isPrefixOf piece)
    && (!helperNames.contains (String.ofList piece) || known.contains (String.ofList piece))))

/-- The pieces of a line of code that can be names. -/
def piecesOf (cs : List Char) : List (List Char) :=
  (Text.pieces (fun c => !isNameChar c) (Mode.code.codeOf cs)).filter (! ·.isEmpty)

/-- The code is calm, and behind it code is read again. -/
def isCalmCode (known : List String) (cs : List Char) : Bool :=
  (Mode.code.through cs).lineEnd = .code && (piecesOf cs).all (isCalm known)

theorem names_codeOf (cs : List Char) :
    names (Mode.code.codeOf cs) = (piecesOf cs).map String.ofList := rfl

theorem Calm.append {known ws ws' : List String} (h : Calm known ws) (h' : Calm known ws') :
    Calm known (ws ++ ws') := List.forall_mem_append.2 ⟨h, h'⟩

/-- What is calm defines nothing. -/
theorem Calm.notMem_def {known ws : List String} (h : Calm known ws) : "def" ∉ ws :=
  fun hmem => (h _ hmem).1 rfl

/-- What is calm calls no step. -/
theorem Calm.filter_isStepName {known ws : List String} (h : Calm known ws) :
    ws.filter isStepName = [] := by
  rw [List.filter_eq_nil_iff]
  intro name hname
  simp [(h name hname).2.1]

/-- Steps and helpers have a low line in their names. -/
theorem not_notable_of_notMem {name : String} (h : '_' ∉ name.toList) :
    isStepName name = false ∧ name ∉ helperNames := by
  have hhelper : ∀ name ∈ helperNames, '_' ∈ name.toList := by decide +kernel
  refine ⟨?_, fun hmem => h (hhelper name hmem)⟩
  rw [Bool.eq_false_iff]
  intro hstep
  have hbegins := List.isPrefixOf_iff_prefix.1 hstep
  rw [String.toList_ofList] at hbegins
  exact h (hbegins.subset (by decide))

/-- Pieces that are calm make calm names. -/
theorem calm_of_all {known used : List String} {pieces : List (List Char)}
    (h : pieces.all (isCalm used) = true) (hsub : used ⊆ known) :
    Calm known (pieces.map String.ofList) := by
  have hword : String.ofList ['d', 'e', 'f'] = "def" := rfl
  refine List.forall_mem_map.2 fun piece hpiece => ?_
  have hcalm := List.all_eq_true.1 h piece hpiece
  simp only [isCalm, Bool.and_eq_true, Bool.or_eq_true, bne_iff_ne, Bool.not_eq_true',
    List.contains_iff_mem] at hcalm
  obtain ⟨hdef, hcalm⟩ := hcalm
  have hdef : String.ofList piece ≠ "def" := by
    rw [← hword]
    exact fun heq => hdef (String.ofList_injective heq)
  rcases hcalm with hlow | ⟨hstep, hhelper⟩
  · have hlow : '_' ∉ (String.ofList piece).toList := by
      rw [String.toList_ofList]
      exact fun hmem => by simp [hmem] at hlow
    obtain ⟨hstep, hhelper⟩ := not_notable_of_notMem hlow
    exact ⟨hdef, hstep, fun hmem => absurd hmem hhelper⟩
  · refine ⟨hdef, ?_, fun hmem => ?_⟩
    · -- the text that is looked for is turned into characters, and so is the name
      rw [isStepName, String.toList_ofList, String.toList_ofList]
      exact hstep
    · rcases hhelper with hnone | hknown
      · simp [hmem] at hnone
      · exact hsub hknown

/-- A number has no names that matter. -/
theorem calm_toString (known : List String) (n : Int) :
    Calm known (names (toString n).toList) := by
  intro name hname
  have hnot : ∀ c ∈ ['"', '\'', '#', '\\', '_', 'd'], c ∉ name.toList :=
    fun c hc hmem => notMem_toString hc (mem_of_mem_names hname c hmem)
  obtain ⟨hstep, hhelper⟩ := not_notable_of_notMem (hnot '_' (by decide))
  refine ⟨?_, hstep, fun hmem => absurd hmem hhelper⟩
  rintro rfl
  exact hnot 'd' (by decide) (by rw [String.toList_ofList]; decide)

/-! ## Blocks that are accounted for -/

/-- What the code of a block defines and uses: it defines these names and uses these steps, both in
order, and it uses no helpers but known ones. -/
structure Tells (known defined steps : List String) (b : Block) : Prop where
  closed : ∀ l ∈ b, l.Closed
  defined_eq : b.flatMap (fun l => definedIn (names l.bare)) = defined
  steps_eq : (b.flatMap fun l => usedIn (names l.bare)).filter isStepName = steps
  mem_known : ∀ l ∈ b, ∀ name ∈ usedIn (names l.bare), name ∈ helperNames → name ∈ known

theorem bare_code (depth : Nat) (s : String) :
    (code depth s).bare = Mode.code.codeOf s.toList := by
  simp [Line.bare, Line.erased, code, Part.erased, chars_cons, Part.text]

/-- A line of code is closed if no quotes are open at its end. -/
theorem closed_code_iff (depth : Nat) {s : String} :
    (code depth s).Closed ↔ (Mode.code.through s.toList).lineEnd = .code := by
  simp [Line.Closed, Line.erased, code, Part.erased, readsFrom, chars_cons, Part.text]

namespace Tells

variable {known defined defined' steps steps' ws : List String} {b b' : Block} {l : Line}
  {depth : Nat} {cs : List Char}

theorem nil : Tells known [] [] [] := ⟨by simp, rfl, rfl, by simp⟩

theorem append (h : Tells known defined steps b) (h' : Tells known defined' steps' b') :
    Tells known (defined ++ defined') (steps ++ steps') (b ++ b') := by
  refine ⟨List.forall_mem_append.2 ⟨h.closed, h'.closed⟩, ?_, ?_,
    List.forall_mem_append.2 ⟨h.mem_known, h'.mem_known⟩⟩
  · rw [List.flatMap_append, h.defined_eq, h'.defined_eq]
  · rw [List.flatMap_append, List.filter_append, h.steps_eq, h'.steps_eq]

/-- A block in front that neither defines anything nor uses steps. -/
theorem calm_append (h : Tells known [] [] b) (h' : Tells known defined steps b') :
    Tells known defined steps (b ++ b') := h.append h'

theorem append_calm (h : Tells known defined steps b) (h' : Tells known [] [] b') :
    Tells known defined steps (b ++ b') := by
  simpa using h.append h'

/-- A line in front that defines a name behind some others. -/
theorem cons (hclosed : l.Closed) (hnames : names l.bare = ws)
    (hknown : ∀ name ∈ usedIn ws, name ∈ helperNames → name ∈ known)
    (h : Tells known defined steps b) :
    Tells known (definedIn ws ++ defined) ((usedIn ws).filter isStepName ++ steps) (l :: b) := by
  subst hnames
  have hl : Tells known (definedIn (names l.bare)) ((usedIn (names l.bare)).filter isStepName)
      [l] := ⟨by simpa using hclosed, by simp, by simp, by simpa using hknown⟩
  exact hl.append h

/-- A calm line in front. -/
theorem calm (hclosed : l.Closed) (hcalm : Calm known (names l.bare))
    (h : Tells known defined steps b) : Tells known defined steps (l :: b) := by
  obtain ⟨hdefined, hused⟩ := definedIn_of_notMem hcalm.notMem_def
  have hknown : ∀ name ∈ usedIn (names l.bare), name ∈ helperNames → name ∈ known := by
    rw [hused]
    exact fun name hname => (hcalm name hname).2.2
  have hcons := cons hclosed rfl hknown h
  rwa [hdefined, hused, hcalm.filter_isStepName] at hcons

/-- The first line of a function, in front of the lines of the function. -/
theorem heading {name : String} (hclosed : l.Closed)
    (hnames : names l.bare = "async" :: "def" :: name :: ws) (hcalm : Calm known ws)
    (h : Tells known defined steps b) : Tells known (name :: defined) steps (l :: b) := by
  obtain ⟨hdefined, hused⟩ := definedIn_of_notMem hcalm.notMem_def
  have hall : definedIn ("async" :: "def" :: name :: ws) = [name] := by
    simp [definedIn, hdefined]
  have hrest : usedIn ("async" :: "def" :: name :: ws) = "async" :: ws := by
    simp [usedIn, hused]
  have hcalm : Calm known ("async" :: ws) := by
    refine List.forall_mem_cons.2 ⟨⟨by decide, by decide +kernel, fun hmem => ?_⟩, hcalm⟩
    simp [helperNames, baseNames, loopNames, pageNames] at hmem
  have hcons := cons hclosed hnames (by
    rw [hrest]
    exact fun name hname => (hcalm name hname).2.2) h
  rwa [hall, hrest, hcalm.filter_isStepName] at hcons

/-- A line of fixed code in front that uses these helpers at most. -/
theorem calling (used : List String) (hcs : isCalmCode used cs = true) (hsub : used ⊆ known)
    (h : Tells known defined steps b) :
    Tells known defined steps (code depth (String.ofList cs) :: b) := by
  simp only [isCalmCode, Bool.and_eq_true, decide_eq_true_eq] at hcs
  refine calm ((closed_code_iff _).2 ?_) ?_ h
  · rw [String.toList_ofList]
    exact hcs.1
  · rw [bare_code, String.toList_ofList, names_codeOf]
    exact calm_of_all hcs.2 hsub

/-- A line of fixed code in front that uses no helper. -/
theorem fixed (hcs : isCalmCode [] cs = true) (h : Tells known defined steps b) :
    Tells known defined steps (code depth (String.ofList cs) :: b) :=
  calling [] hcs (List.nil_subset known) h

/-- An empty line in front. -/
theorem blankLine (h : Tells known defined steps b) : Tells known defined steps (blank :: b) := by
  have hnone : names blank.bare = [] := rfl
  exact .calm (by decide) (by simp [hnone, Calm]) h

theorem nest (h : Tells known defined steps b) (levels : Nat) :
    Tells known defined steps (b.map (Line.nest levels)) := by
  refine ⟨List.forall_mem_map.2 h.closed, ?_, ?_, List.forall_mem_map.2 h.mem_known⟩
  · rw [List.flatMap_map]
    exact h.defined_eq
  · rw [List.flatMap_map]
    exact h.steps_eq

theorem flatten {β : Type} {f g : β → List String} {ks : List β} {bs : List Block}
    (h : List.Forall₂ (fun k b => Tells known (f k) (g k) b) ks bs) :
    Tells known (ks.flatMap f) (ks.flatMap g) bs.flatten := by
  induction h with
  | nil => exact nil
  | cons hb _ ih => exact hb.append ih

/-- Blocks that tell nothing can be put together. -/
theorem calm_flatten {bs : List Block} (h : ∀ b ∈ bs, Tells known [] [] b) :
    Tells known [] [] bs.flatten := by
  induction bs with
  | nil => exact nil
  | cons b rest ih =>
    obtain ⟨hb, hrest⟩ := List.forall_mem_cons.1 h
    exact hb.append (ih hrest)

end Tells

/-! ## Lines of code -/

/-- The names in a text are those in its characters. -/
theorem names_toList {cs : List Char} {ws : List String} (h : names cs = ws) :
    names (String.ofList cs).toList = ws := by
  rwa [String.toList_ofList]

/-- A text of which every character is code is read as its characters are. -/
theorem read_toList {m m' : Mode} {cs : List Char} (h : m.through cs = m' ∧ m.codeOf cs = cs) :
    m.through (String.ofList cs).toList = m'
      ∧ m.codeOf (String.ofList cs).toList = (String.ofList cs).toList := by
  rwa [String.toList_ofList]

/-- A line of plain code is read as it stands. -/
theorem closed_of_isPlainCode (depth : Nat) {s : String} (h : IsPlainCode s.toList) :
    (code depth s).Closed ∧ (code depth s).bare = s.toList := by
  obtain ⟨hthrough, hcode⟩ := h.read
  rw [closed_code_iff, bare_code, hthrough, hcode]
  exact ⟨rfl, rfl⟩

theorem codeText_code (depth : Nat) (s : String) :
    (code depth s).codeText
      = String.ofList (List.replicate (indentWidth * depth) ' ')
        ++ String.ofList (code depth s).bare := String.ofList_append

theorem map_codeText_cons {depth : Nat} {cs ds : List Char} {b : Block} {ls : List String}
    (h : List.replicate (indentWidth * depth) ' ' ++ Mode.code.codeOf cs = ds)
    (hb : b.map Line.codeText = ls) :
    (code depth (String.ofList cs) :: b).map Line.codeText = String.ofList ds :: ls := by
  have hbare : (code depth (String.ofList cs)).bare = Mode.code.codeOf cs := by
    rw [bare_code, String.toList_ofList]
  rw [List.map_cons, hb, codeText_code, hbare, ← String.ofList_append, h]

section
variable {known defined steps : List String} {b : Block} {depth : Nat} {s t : String}
  {rest : List Part}

/-- The name that the first line of a function defines, if the rest of the line is calm. -/
def headOf? (cs : List Char) : Option String :=
  match piecesOf cs with
  | ['a', 's', 'y', 'n', 'c'] :: ['d', 'e', 'f'] :: name :: rest =>
    if rest.all (isCalm []) ∧ (Mode.code.through cs).lineEnd = .code
    then some (String.ofList name) else none
  | _ => none

/-- The head of a function tells its name. -/
theorem Tells.head {cs : List Char} {name : String} {defined steps : List String} {b : Block}
    (hcs : headOf? cs = some name) (h : Tells known defined steps b) :
    Tells known (name :: defined) steps (code 0 (String.ofList cs) :: b) := by
  unfold headOf? at hcs
  split at hcs
  · next piece rest hpieces =>
    split at hcs
    · next hrest =>
      obtain ⟨hcalm, hclosed⟩ := hrest
      obtain rfl := Option.some.inj hcs
      refine heading ((closed_code_iff _).2 ?_) ?_ (calm_of_all hcalm (List.nil_subset known)) h
      · rwa [String.toList_ofList]
      · rw [bare_code, String.toList_ofList, names_codeOf, hpieces]
        rfl
    · simp at hcs
  · simp at hcs

/-- A line in front that tells a number. -/
theorem Tells.numbered {defined steps : List String} {b : Block} {depth : Nat} {cs : List Char}
    (hcs : IsPlainCode cs ∧ (piecesOf cs).all (isCalm []) = true ∧ cs.getLast? = some ' ') (n : Int)
    (h : Tells known defined steps b) :
    Tells known defined steps (code depth (String.ofList cs ++ toString n) :: b) := by
  obtain ⟨hplain, hcalm, hlast⟩ := hcs
  have hsplit : (String.ofList cs ++ toString n).toList = cs ++ (toString n).toList := by
    rw [String.toList_append, String.toList_ofList]
  have hread : IsPlainCode (String.ofList cs ++ toString n).toList := by
    rw [hsplit]
    exact hplain.append (isPlainCode_toString n)
  obtain ⟨hclosed, hbare⟩ := closed_of_isPlainCode depth hread
  refine .calm hclosed ?_ h
  have hnames : names cs = (piecesOf cs).map String.ofList := by
    rw [← names_codeOf, hplain.read.2]
  obtain ⟨init, rfl⟩ := List.getLast?_eq_some_iff.1 hlast
  rw [hbare, hsplit, List.append_assoc, List.singleton_append, names_append_cons (by decide)]
  refine .append ?_ (calm_toString known n)
  have hinit : names init = names (init ++ [' ']) := by
    rw [names_append_cons (by decide), names_nil, List.append_nil]
  rw [hinit, hnames]
  exact calm_of_all hcalm (List.nil_subset known)

/-! ## Lines with recorded text -/

/-- A literal behind code, and what follows it. -/
theorem bare_literal (depth : Nat) (t : String) (hs : Mode.code.through s.toList = .code)
    (hrest : endsLiteral rest = true) :
    (⟨depth, .code s :: .literal t :: rest⟩ : Line).bare
        = Mode.code.codeOf s.toList ++ '"' :: '"' :: (⟨0, rest⟩ : Line).bare
      ∧ ((⟨0, rest⟩ : Line).Closed → (⟨depth, .code s :: .literal t :: rest⟩ : Line).Closed) := by
  have hends : endsLiteral (rest.map Part.erased) = true := by rw [endsLiteral_erased, hrest]
  obtain ⟨hthrough, hquotes⟩ := mode_quote ""
  obtain ⟨hcode, hend⟩ := mode_closed (head?_chars hends)
  rw [if_pos rfl] at hthrough
  simp only [Line.Closed, Line.bare, Line.erased, List.map_cons, Part.erased, chars_cons, Part.text,
    readsFrom, Mode.codeOf_append, Mode.through_append, hs, hthrough, hquotes, hcode, hend, hends]
  simp

/-- The code in front of a literal is calm, and behind it code is read. -/
def isCalmOpening (known : List String) (cs : List Char) : Bool :=
  Mode.code.through cs = .code && (piecesOf cs).all (isCalm known)

/-- A line in front that has a recorded text as a literal. -/
theorem Tells.quoted {cs : List Char} (used : List String) (hcs : isCalmOpening used cs = true)
    (hsub : used ⊆ known) (hends : endsLiteral rest = true) (hclosed : (⟨0, rest⟩ : Line).Closed)
    (hcalm : Calm known (names (⟨0, rest⟩ : Line).bare)) (h : Tells known defined steps b) :
    Tells known defined steps (⟨depth, .code (String.ofList cs) :: .literal t :: rest⟩ :: b) := by
  simp only [isCalmOpening, Bool.and_eq_true, decide_eq_true_eq] at hcs
  obtain ⟨hthrough, hpieces⟩ := hcs
  obtain ⟨hbare, hline⟩ := bare_literal depth t (s := String.ofList cs)
    (by rwa [String.toList_ofList]) hends
  refine .calm (hline hclosed) ?_ h
  rw [hbare, String.toList_ofList, names_append_cons (by decide), names_cons (by decide),
    names_codeOf]
  exact (calm_of_all hpieces hsub).append hcalm

/-- A line in front that ends with a recorded text. -/
theorem Tells.quotedLast {cs : List Char} (hcs : isCalmOpening [] cs = true)
    (h : Tells known defined steps b) :
    Tells known defined steps (⟨depth, [.code (String.ofList cs), .literal t]⟩ :: b) := by
  have hnone : names (⟨0, []⟩ : Line).bare = [] := rfl
  exact .quoted [] hcs (List.nil_subset known) rfl (by decide) (by simp [hnone, Calm]) h

/-- A line in front that has a recorded text between two pieces of code. -/
theorem Tells.quotedWithin {cs ds : List Char} (used : List String)
    (hcs : isCalmOpening used cs = true) (hds : isCalmCode [] ds && ds.head?.any (· != '"') = true)
    (hsub : used ⊆ known) (h : Tells known defined steps b) :
    Tells known defined steps
      (⟨depth, [.code (String.ofList cs), .literal t, .code (String.ofList ds)]⟩ :: b) := by
  simp only [isCalmCode, Bool.and_eq_true, decide_eq_true_eq] at hds
  obtain ⟨⟨hclosed, hpieces⟩, hends⟩ := hds
  refine .quoted used hcs hsub ?_ ((closed_code_iff 0).2 ?_) ?_ h
  · rwa [endsLiteral, String.toList_ofList]
  · rwa [String.toList_ofList]
  · have hbare := bare_code 0 (String.ofList ds)
    rw [code, String.toList_ofList] at hbare
    rw [hbare, names_codeOf]
    exact calm_of_all hpieces (List.nil_subset known)

/-- A line in front that is a remark. -/
theorem Tells.remarked {cs : List Char} (hs : s.toList = '#' :: cs)
    (h : Tells known defined steps b) :
    Tells known defined steps (⟨depth, [.code s, .remark t]⟩ :: b) := by
  obtain ⟨hthrough, hcode⟩ := mode_remark cs
  obtain ⟨hthrough', hcode'⟩ := mode_remark (remark "").toList
  have hmark : Mode.code.through s.toList = .remark ∧ Mode.code.codeOf s.toList = ['#'] := by
    rw [hs, Mode.through_cons, Mode.codeOf]
    exact ⟨hthrough, congrArg _ hcode⟩
  have hbare : (⟨depth, [.code s, .remark t]⟩ : Line).bare = ['#'] := by
    simp only [Line.bare, Line.erased, List.map_cons, List.map_nil, Part.erased, chars_cons,
      chars_nil, Part.text, Mode.codeOf_append, hmark, hcode', List.append_nil]
  have hclosed : (⟨depth, [.code s, .remark t]⟩ : Line).Closed := by
    simp only [Line.Closed, Line.erased, List.map_cons, List.map_nil, Part.erased, chars_cons,
      chars_nil, Part.text, Mode.through_append, readsFrom, hmark, hthrough', Mode.through_nil]
    decide
  refine .calm hclosed ?_ h
  have hnone : names ['#'] = [] := rfl
  rw [hbare, hnone]
  simp [Calm]

end

end Retrace.Script
