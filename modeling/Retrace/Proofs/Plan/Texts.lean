/-
The texts of a plan.

A plan takes most of its texts from the log as they are: what was typed, and the names of the texts
that are read. Its paths are put together anew, since within a loop a path is cut at its row. But
they are put together of what the recorded paths are made of, of combinators and of a few selectors
for rows; so a control character in a path of the plan was recorded in a path of the log
(`drawnFrom_paths`).
-/
import Retrace.Proofs.Path.Row
import Retrace.Proofs.Plan.Outline

set_option autoImplicit false

namespace Retrace

/-! ## Control characters -/

namespace Text

/-- A control character of ASCII. -/
def isControl (c : Char) : Bool := c.toNat < 0x20 || c.toNat == 0x7f

/-- A text without control characters. -/
def Printed (t : String) : Prop := ∀ c ∈ t.toList, isControl c = false

/-- The control characters of the text are among those of the others. -/
def DrawnFrom (texts : List String) (t : String) : Prop :=
  ∀ c ∈ t.toList, isControl c = true → ∃ u ∈ texts, c ∈ u.toList

/-- Are the characters printed? -/
def allPrinted (cs : List Char) : Bool := cs.all (!isControl ·)

namespace Printed

theorem ofList {cs : List Char} (h : allPrinted cs = true) : Printed (String.ofList cs) := by
  intro c hc
  rw [String.toList_ofList] at hc
  simpa using List.all_eq_true.1 h c hc

theorem append {s t : String} (hs : Printed s) (ht : Printed t) : Printed (s ++ t) := by
  intro c hc
  rw [String.toList_append] at hc
  exact (List.mem_append.1 hc).elim (hs c) (ht c)

theorem repr (n : Nat) : Printed n.repr := by
  intro c hc
  rw [Nat.toList_repr] at hc
  have hdigit := Nat.isDigit_of_mem_toDigits (by decide) (by decide) hc
  simp only [Char.isDigit, Bool.and_eq_true, decide_eq_true_eq] at hdigit
  have hlow : 48 ≤ c.toNat := UInt32.le_iff_toNat_le.1 hdigit.1
  have hhigh : c.toNat ≤ 57 := UInt32.le_iff_toNat_le.1 hdigit.2
  simp only [isControl, Bool.or_eq_false_iff, decide_eq_false_iff_not, beq_eq_false_iff_ne]
  omega

/-- A whole number is printed with digits and a sign. -/
theorem toString_int (n : Int) : Printed (toString n) := by
  cases n with
  | ofNat n => exact repr n
  | negSucc n => exact append (s := "-") (ofList (by decide)) (repr (n + 1))

end Printed

namespace DrawnFrom

variable {texts : List String} {s t : String}

theorem of_mem (h : t ∈ texts) : DrawnFrom texts t := fun _ hc _ => ⟨t, h, hc⟩

/-- Printed characters need not come from any text. -/
theorem of_printed (h : Printed t) : DrawnFrom texts t := by
  intro c hc hcontrol
  simp [h c hc] at hcontrol

/-- A text that has no characters but those of the other. -/
theorem subset (h : DrawnFrom texts t) (hs : s.toList ⊆ t.toList) : DrawnFrom texts s :=
  fun c hc => h c (hs hc)

theorem append (hs : DrawnFrom texts s) (ht : DrawnFrom texts t) : DrawnFrom texts (s ++ t) := by
  intro c hc
  rw [String.toList_append] at hc
  exact (List.mem_append.1 hc).elim (hs c) (ht c)

theorem join {ts : List String} (h : ∀ t ∈ ts, DrawnFrom texts t) :
    DrawnFrom texts (String.join ts) := by
  intro c hc
  rw [String.toList_join] at hc
  obtain ⟨t, ht, hc⟩ := List.mem_flatMap.1 hc
  exact h t ht c hc

end DrawnFrom

end Text

open Text (DrawnFrom Printed)

/-! ## Paths -/

namespace Path

variable {texts : List String}

/-- What goes on from a container is the end of the path. -/
theorem relativeTo?_subset {container path rest : String}
    (h : relativeTo? container path = some rest) : rest.toList ⊆ path.toList := by
  unfold relativeTo? at h
  split at h
  · simp at h
  split at h
  · simp at h
  · obtain rfl := Option.some.inj h
    simp
  · next c tail hprefix =>
    split at h
    · obtain rfl := Option.some.inj h
      have hpath := List.isPrefixOf?_eq_some_iff_append_eq.1 hprefix
      rw [← hpath, String.toList_ofList]
      exact fun d hd => List.mem_append_right _ ((List.dropWhile_suffix isJoint).subset hd)
    · simp at h

theorem Scan.compound_take (s : Scan) (c : Char) : (s.take c).compound = s.compound ++ [c] := by
  unfold Scan.take
  split
  · split <;> rfl
  · split_ifs <;> rfl

/-- A compound is made of the characters that the scan has taken. -/
theorem Scan.subset_of_mem_finished {s : Scan} {c : Compound} (h : c ∈ s.finished) :
    c.text.toList ⊆ s.compound := by
  unfold Scan.finished at h
  split at h
  · simp at h
  · obtain rfl := List.mem_singleton.1 h
    simp

/-- The compounds of a path are made of its characters. The induction is on the path. -/
theorem Scan.subset_of_mem_compounds {s : Scan} {cs : List Char} {c : Compound}
    (h : c ∈ s.compounds cs) : c.text.toList ⊆ s.compound ++ cs := by
  induction s, cs using Scan.compounds.induct with
  | case1 s =>
    rw [Scan.compounds] at h
    simpa using subset_of_mem_finished h
  | case2 s d rest ih =>
    -- both characters of an escape are taken
    rw [Scan.compounds] at h
    simpa [Scan.push] using ih h
  | case3 s d rest hescape hblank ih =>
    -- the compound ends in front of the blank, and another one begins behind it
    have hpast : s.pastBlank.compound = [] := by
      unfold Scan.pastBlank
      split <;> simp_all
    rw [hpast, List.nil_append] at ih
    rw [Scan.compounds, if_pos hblank] at h
    · rcases List.mem_append.1 h with h | h
      · exact List.subset_append_of_subset_left _ (subset_of_mem_finished h)
      · exact List.subset_append_of_subset_right _ (List.subset_cons_of_subset _ (ih h))
    · exact hescape
  | case4 s d rest hescape hblank hchild ih =>
    -- and so in front of the sign of a child
    have hpast : s.pastChild.compound = [] := rfl
    rw [hpast, List.nil_append] at ih
    rw [Scan.compounds, if_neg hblank, if_pos hchild] at h
    · rcases List.mem_append.1 h with h | h
      · exact List.subset_append_of_subset_left _ (subset_of_mem_finished h)
      · exact List.subset_append_of_subset_right _ (List.subset_cons_of_subset _ (ih h))
    · exact hescape
  | case5 s d rest hescape hblank hchild ih =>
    rw [Scan.compounds, if_neg hblank, if_neg hchild] at h
    · simpa [compound_take] using ih h
    · exact hescape

/-- Behind a position is the rest of the text. -/
theorem afterPosition?_subset {cs left : List Char} (h : afterPosition? cs = some left) :
    left ⊆ cs := by
  unfold afterPosition? at h
  dsimp only at h
  split at h
  · split at h
    · next hdrop =>
      obtain rfl := Option.some.inj h
      have hsuffix :=
        (List.dropWhile_suffix Text.isDigit (l := cs.drop positionOpening.length)).trans
          (List.drop_suffix _ _)
      rw [hdrop] at hsuffix
      exact fun c hc => hsuffix.subset (List.mem_cons_of_mem _ hc)
    · simp at h
  · simp at h

/-- Taking the positions out adds nothing. -/
theorem dropPositions_subset (cs : List Char) : dropPositions cs ⊆ cs := by
  induction cs using dropPositions.induct with
  | case1 cs left hleft ih =>
    rw [dropPositions]
    split
    · next left' heq =>
      obtain rfl := Option.some.inj (hleft.symm.trans heq)
      exact List.Subset.trans ih (afterPosition?_subset hleft)
    · next heq => simp [hleft] at heq
  | case2 => simp
  | case3 c rest hnone ih =>
    rw [dropPositions]
    split
    · next heq => simp [hnone] at heq
    · exact List.cons_subset_cons _ ih

/-- A path that is put together of such compounds. -/
theorem drawnFrom_join {cs : List Compound} (h : ∀ c ∈ cs, DrawnFrom texts c.text) :
    DrawnFrom texts (join cs) := by
  have hcontinued : ∀ c ∈ cs, DrawnFrom texts c.continued := by
    intro c hc
    refine .append (.of_printed ?_) (h c hc)
    cases c.combinator.getD .descendant <;> exact .ofList (by decide)
  cases cs with
  | nil => exact .of_printed (.ofList (by decide))
  | cons first rest =>
    refine .append (h first (by simp)) (.join ?_)
    intro t ht
    obtain ⟨c, hc, rfl⟩ := List.mem_map.1 ht
    exact hcontinued c (by simp [hc])

/-- **Both parts of a path** that is cut at its row are made of it. -/
theorem drawnFrom_splitRow {path : String} (h : DrawnFrom texts path) (direct : Bool) :
    (∀ rows ∈ (splitRow path direct).1, DrawnFrom texts rows)
      ∧ DrawnFrom texts (splitRow path direct).2 := by
  have hcompounds : ∀ c ∈ compounds path, DrawnFrom texts c.text :=
    fun c hc => h.subset (Scan.subset_of_mem_compounds hc)
  unfold splitRow
  cases hpath : compounds path with
  | nil => exact ⟨by simp, .of_printed (.ofList (by decide))⟩
  | cons first rest =>
    rw [hpath] at hcompounds
    dsimp only
    split
    · next inner hinner =>
      obtain ⟨outer, row, heq, -, -⟩ := behindTableRow?_eq_some hinner
      refine ⟨?_, drawnFrom_join fun c hc => hcompounds c (by simp [heq, hc])⟩
      rintro rows ⟨⟩
      exact .of_printed (.ofList (by decide))
    split
    · exact ⟨by simp, hcompounds first (by simp)⟩
    · obtain ⟨outer, row, inner, hsplit, heq, -⟩ := splitAtRow_spec first rest
      rw [hsplit]
      refine ⟨?_, drawnFrom_join fun c hc => hcompounds c (by simp [heq, hc])⟩
      rintro rows ⟨⟩
      have hrow : DrawnFrom texts row.withoutPosition.text := by
        refine (hcompounds row (by simp [heq])).subset ?_
        rw [Compound.withoutPosition, String.toList_ofList]
        exact dropPositions_subset _
      refine .append (.append (.of_printed (.ofList (by decide))) (.of_printed ?_))
        (drawnFrom_join ?_)
      · cases direct <;> exact .ofList (by decide)
      · intro c hc
        rcases List.mem_append.1 hc with hc | hc
        · exact hcompounds c (by simp [heq, hc])
        · rw [List.mem_singleton.1 hc]
          exact hrow

end Path

/-! ## Plans -/

/-- The paths of a loop. -/
def Loop.paths (l : Loop) : List String := l.subject :: l.rowSelector :: l.pagination.toList

/-- The paths of a plan: those of its nodes, and those of its loops. -/
def Plan.paths {α : Type} (plan : Plan α) : List String :=
  plan.nodes.map Node.locator ++ plan.loops.flatMap Loop.paths

namespace Plan

variable {α : Type} {texts : List String}

/-- The paths of a loop that is open. -/
def OpenLoop.paths (l : OpenLoop) : List String :=
  l.subject :: (l.rowSelector.toList ++ l.pagination.toList)

/-- What has been planned is made of the texts. -/
structure Draft.DrawnFrom (texts : List String) (d : Draft α) : Prop where
  nodes : ∀ n ∈ d.plan.nodes, Text.DrawnFrom texts n.locator
  loops : ∀ l ∈ d.plan.loops, ∀ t ∈ l.paths, Text.DrawnFrom texts t
  opened : ∀ l ∈ d.loop, ∀ t ∈ l.paths, Text.DrawnFrom texts t

theorem drawnFrom_close {l : OpenLoop} (h : ∀ t ∈ l.paths, Text.DrawnFrom texts t) :
    ∀ t ∈ l.close.paths, Text.DrawnFrom texts t := by
  simp only [OpenLoop.paths, Loop.paths, OpenLoop.close, List.forall_mem_cons,
    List.forall_mem_append] at h ⊢
  obtain ⟨hsubject, hrows, hnext⟩ := h
  refine ⟨hsubject, ?_, hnext⟩
  cases hselector : l.rowSelector with
  | none => exact .of_printed (.ofList (by decide))
  | some rows => exact hrows rows (by simp [hselector])

namespace Draft.DrawnFrom

variable {d d' : Draft α} {l : OpenLoop} {a : Action α}

/-- The nodes with one more at the end. -/
theorem concat (h : d.DrawnFrom texts) {n : Node α} (hn : Text.DrawnFrom texts n.locator) :
    ∀ m ∈ d.plan.nodes ++ [n], Text.DrawnFrom texts m.locator := by
  intro m hm
  rcases List.mem_append.1 hm with hm | hm
  · exact h.nodes m hm
  · rw [List.mem_singleton.1 hm]
    exact hn

/-- What is planned for a row is cut out of the locator of the action. -/
theorem addToRow (h : d.DrawnFrom texts) (hloop : d.loop = some l)
    (ha : Text.DrawnFrom texts a.locator) {path : String}
    (hpath : Path.relativeTo? l.subject a.locator = some path) :
    (d.addToRow l a path).DrawnFrom texts := by
  obtain ⟨hrows, hwithin⟩ := Path.drawnFrom_splitRow (ha.subset (Path.relativeTo?_subset hpath))
    (Path.continuesWithChild l.subject a.locator)
  have hopened := h.opened l hloop
  refine ⟨h.concat (n := nodeOf a _ true) hwithin, h.loops, ?_⟩
  rintro l' ⟨⟩
  simp only [OpenLoop.paths, List.forall_mem_cons, List.forall_mem_append] at hopened ⊢
  refine ⟨hopened.1, ?_, hopened.2.2⟩
  -- the rows are those of before, or those that this path reveals
  intro t ht
  rcases Option.or_eq_some_iff.1 (Option.mem_toList.1 ht) with ht | ⟨-, ht⟩
  · exact hopened.2.1 t (Option.mem_toList.2 ht)
  · exact hrows t ht

/-- What is planned beside the table keeps its locator whole. -/
theorem addBeside (h : d.DrawnFrom texts) (hloop : d.loop = some l)
    (ha : Text.DrawnFrom texts a.locator) : (d.addBeside l a).DrawnFrom texts := by
  have hnodes := h.concat (n := nodeOf a a.locator false) ha
  have hopened := h.opened l hloop
  unfold Draft.addBeside
  cases l.currentClick with
  | none => exact ⟨hnodes, h.loops, by rintro l' ⟨⟩; exact hopened⟩
  | some click =>
    refine ⟨?_, h.loops, by rintro l' ⟨⟩; exact hopened⟩
    -- a follow-up does not change the path of its click
    intro m hm
    obtain ⟨k, hk⟩ := List.mem_iff_getElem?.1 hm
    rw [List.getElem?_modify] at hk
    obtain ⟨m', hm', rfl⟩ := Option.map_eq_some_iff.1 hk
    have hm' := hnodes m' (List.mem_iff_getElem?.2 ⟨k, hm'⟩)
    split <;> exact hm'

/-- **One action.** What is planned of it is made of its path. -/
theorem placed (h : d.DrawnFrom texts) (ha : Text.DrawnFrom texts a.locator)
    (hplaced : d.Placed a d') : d'.DrawnFrom texts := by
  cases hplaced with
  | nested => exact ⟨h.nodes, h.loops, h.opened⟩
  | stray => exact ⟨h.nodes, h.loops, h.opened⟩
  | opened =>
    refine ⟨h.nodes, h.loops, ?_⟩
    rintro l ⟨⟩
    simpa [OpenLoop.paths] using ha
  | paginated l _ hloop =>
    refine ⟨h.nodes, h.loops, ?_⟩
    rintro l' ⟨⟩
    have hopened := h.opened l hloop
    simp only [OpenLoop.paths, List.forall_mem_cons, List.forall_mem_append] at hopened ⊢
    exact ⟨hopened.1, hopened.2.1, by simpa using ha⟩
  | closed l _ hloop =>
    refine ⟨h.nodes, ?_, by simp [closeLoop]⟩
    rw [closeLoop, loops_addStep]
    refine List.forall_mem_append.2 ⟨h.loops, ?_⟩
    simpa [Step.loop?] using drawnFrom_close (h.opened l hloop)
  | single =>
    refine ⟨h.concat (n := nodeOf a a.locator false) ha, ?_, h.opened⟩
    rw [loops_addStep, loops_addNode]
    simpa [Step.loop?] using h.loops
  | inRow l path _ hloop hpath => exact h.addToRow hloop ha hpath
  | beside l _ hloop => exact h.addBeside hloop ha

/-- **Any number of actions.** The induction is on the log. -/
theorem foldl_add {actions : List (Action α)} (h : d.DrawnFrom texts)
    (hactions : ∀ a ∈ actions, Text.DrawnFrom texts a.locator) :
    (actions.foldl Draft.add d).DrawnFrom texts := by
  induction actions generalizing d with
  | nil => exact h
  | cons a rest ih =>
    obtain ⟨ha, hrest⟩ := List.forall_mem_cons.1 hactions
    obtain ⟨hnodes, hloops, hopened⟩ := h.placed ha (d.placed_place d.plan.actionCount a)
    exact ih ⟨hnodes, hloops, hopened⟩ hrest

end Draft.DrawnFrom

theorem Draft.Placed.baseUrl_eq {d d' : Draft α} {a : Action α} (h : d.Placed a d') :
    d'.plan.baseUrl = d.plan.baseUrl := by
  cases h with
  | beside l =>
    unfold Draft.addBeside
    cases l.currentClick <;> rfl
  | _ => rfl

/-- The address is that of the log. The induction is on the log from its end. -/
theorem baseUrl_ofActions (actions : List (Action α)) (baseUrl : α) :
    (ofActions actions baseUrl).1.baseUrl = baseUrl := by
  have hdraft : (actions.foldl Draft.add { plan := { baseUrl } }).plan.baseUrl = baseUrl := by
    induction actions using List.reverseRecOn with
    | nil => rfl
    | append_singleton before a ih =>
      rw [List.foldl_append]
      exact (Draft.placed_place _ _ a).baseUrl_eq.trans ih
  unfold ofActions Draft.finish
  split <;> exact hdraft

/-- **The paths of a plan** have no control character that is in no path of the log. -/
theorem drawnFrom_paths (actions : List (Action α)) (baseUrl : α) :
    ∀ t ∈ (ofActions actions baseUrl).1.paths,
      Text.DrawnFrom (actions.map Action.locator) t := by
  have h : (actions.foldl Draft.add { plan := { baseUrl } }).DrawnFrom
      (actions.map Action.locator) := by
    refine Draft.DrawnFrom.foldl_add ⟨by simp, by simp [loops], by simp⟩ ?_
    exact fun a ha => .of_mem (List.mem_map_of_mem ha)
  have hloops : ∀ l ∈ (ofActions actions baseUrl).1.loops, ∀ t ∈ l.paths,
      Text.DrawnFrom (actions.map Action.locator) t := by
    unfold ofActions Draft.finish
    split
    · exact h.loops
    · next l hloop =>
      dsimp only [Draft.closeLoop]
      rw [loops_addStep]
      refine List.forall_mem_append.2 ⟨h.loops, ?_⟩
      simpa [Step.loop?] using drawnFrom_close (h.opened l hloop)
  have hnodes : (ofActions actions baseUrl).1.nodes
      = (actions.foldl Draft.add { plan := { baseUrl } }).plan.nodes := by
    unfold ofActions Draft.finish
    split <;> rfl
  intro t ht
  rcases List.mem_append.1 ht with ht | ht
  · obtain ⟨n, hn, rfl⟩ := List.mem_map.1 ht
    exact h.nodes n (hnodes ▸ hn)
  · obtain ⟨l, hl, ht⟩ := List.mem_flatMap.1 ht
    exact hloops l hl t ht

end Plan

end Retrace
