/-
Every script is laid out well.

Whatever a script is made from, no code in it breaks its line, and each recorded text is read as
such where it stands (`Neat`). So the lines of its text are its own lines (`LaidOut.lines_text`),
and what is read as code in them does not depend on what was recorded
(`LaidOut.map_readCode_lines`).

What a step says is gone through here without asking what the plan is, so all of this holds of a
script that does something else than its plan says.
-/
import Retrace.Proofs.Script.Compile
import Retrace.Proofs.Script.Reading

set_option autoImplicit false

namespace Retrace.Script

/-! ## Neat lines -/

/-- No code in the lines has a line break, and the recorded texts in them are read as such. -/
def Neat (b : Block) : Prop := ∀ l ∈ b, l.Flat ∧ l.Sealed

/-- A line of code has no recorded text. -/
@[simp] theorem sealed_code (depth : Nat) (text : String) : (code depth text).Sealed := trivial

@[simp] theorem sealed_blank : blank.Sealed := trivial

namespace Neat

variable {b b' : Block}

theorem nil : Neat [] := by simp [Neat]

theorem append (h : Neat b) (h' : Neat b') : Neat (b ++ b') :=
  fun l hl => (List.mem_append.1 hl).elim (h l) (h' l)

theorem cons {l : Line} (hflat : l.Flat) (hsealed : l.Sealed) (h : Neat b) : Neat (l :: b) :=
  List.forall_mem_cons.2 ⟨⟨hflat, hsealed⟩, h⟩

/-- A line of fixed code in front of others. -/
theorem fixed {depth : Nat} {cs : List Char} (hcs : opensLine cs = true) (h : Neat b) :
    Neat (code depth (String.ofList cs) :: b) := by
  refine cons ?_ trivial h
  simpa [Line.Flat, Part.Flat, code] using flat_of_opensLine hcs

/-- Lines stay neat at any depth. -/
theorem nest (h : Neat b) (levels : Nat) : Neat (b.map (Line.nest levels)) := by
  intro l hl
  obtain ⟨l', hl', rfl⟩ := List.mem_map.1 hl
  exact h l' hl'

theorem flatten {bs : List Block} (h : ∀ b ∈ bs, Neat b) : Neat bs.flatten := by
  intro l hl
  obtain ⟨b, hb, hl⟩ := List.mem_flatten.1 hl
  exact h b hb l hl

end Neat

/-! ## Steps -/

/-- The lines of an action hold its texts between quotes only. -/
theorem neat_actionLines (n : Node String) (scope : Scope) (sink : Sink) :
    Neat (actionLines n scope sink) := by
  have hlocate : (locateLine n scope).Sealed := by
    unfold locateLine
    split
    · exact sealed_code 0 _
    · refine ⟨?_, trivial⟩
      cases scope <;> decide
  have hact : (actLine n sink).Sealed := by
    unfold actLine
    split
    · exact sealed_code 0 _
    · exact ⟨by decide, trivial⟩
    · exact ⟨by decide, trivial⟩
    · refine ⟨?_, trivial⟩
      cases sink <;> decide
  exact .cons (flat_locateLine n scope) hlocate (.cons (flat_actLine n sink) hact .nil)

/-- The function of an action is named by its number. -/
theorem neat_actionFunction (index : Nat) (n : Node String) : Neat (actionFunction index n) := by
  have hmark : Text.Flat ("# " ++ n.kind.name ++ ": ") := by cases n.kind <;> decide
  have hremark : Line.Sealed ⟨1, [.code ("# " ++ n.kind.name ++ ": "), .remark n.locator]⟩ := by
    refine ⟨?_, trivial⟩
    cases n.kind <;> decide
  refine .cons (quiet_stepHead index).flat (sealed_code 0 _) (.cons ?_ hremark ?_)
  · simpa [Line.Flat, Part.Flat] using hmark
  · exact (neat_actionLines n .page .fields).nest 1

section
variable {plan : Plan String}

/-- The calls of a row are made of numbers and fixed words. -/
theorem neat_bodyLines {k : Nat} {b : Block} (h : bodyLines plan k = .ok b) : Neat b := by
  obtain ⟨n, -, h⟩ := exists_of_bind_ok h
  have hown := neat_actionLines n (if n.relative then .row else .page) .record
  dsimp only at h
  split at h
  · obtain ⟨after, -, h⟩ := exists_of_bind_ok h
    obtain rfl := Except.ok.inj h
    have hafter : Neat (after.flatMap (actionLines · .page .record)) := by
      intro l hl
      obtain ⟨m, -, hl⟩ := List.mem_flatMap.1 hl
      exact neat_actionLines m .page .record l hl
    refine .append (.append (.append hown ?_) hafter) ?_
    · exact .fixed (by decide) .nil
    · exact .fixed (by decide) (.fixed (by decide) .nil)
  · obtain rfl := Except.ok.inj h
    exact hown

theorem neat_rowPass {l : Loop} {pass : Block} (h : rowPass plan l = .ok pass) : Neat pass := by
  obtain ⟨body, hbody, h⟩ := exists_of_bind_ok h
  obtain rfl := Except.ok.inj h
  have hflatten : Neat body.flatten := .flatten fun b hb => by
    obtain ⟨k, -, hk⟩ := exists_of_mem_mapM hbody b hb
    exact neat_bodyLines hk
  -- the lines in front of the rows, those of a row, and the lines behind them
  refine .append (.append ?_ (.nest (.append (.append ?_ hflatten) ?_) 3)) ?_
  · iterate 6 refine .fixed (by decide) ?_
    exact .nil
  · exact .fixed (by decide) (.fixed (by decide) .nil)
  · exact .fixed (by decide) (.fixed (by decide) .nil)
  · iterate 8 refine .fixed (by decide) ?_
    exact .nil

/-- A loop is never without lines, and its locators stand between quotes. -/
theorem neat_loopFunction {index : Nat} {l : Loop} {b : Block}
    (h : loopFunction plan index l = .ok b) : b ≠ [] ∧ Neat b := by
  obtain ⟨pass, hpass, h⟩ := exists_of_bind_ok h
  have hpass := neat_rowPass hpass
  -- a literal behind code that is read as code
  have hliteral : ∀ {cs : List Char} {t : String} {b : Block}, opensLine cs = true →
      Reading.code.through cs = .code → Neat b →
      Neat (⟨1, [.code (String.ofList cs), .literal t]⟩ :: b) := by
    intro cs t b hflat hcode hb
    refine .cons ?_ ⟨by rw [String.toList_ofList, hcode], trivial⟩ hb
    simpa [Line.Flat, Part.Flat] using flat_of_opensLine hflat
  have hremark : Neat [⟨1, [.code "# table loop over ", .remark l.subject]⟩] := by
    refine .cons ?_ ⟨by decide, trivial⟩ .nil
    simpa [Line.Flat, Part.Flat] using flat_of_opensLine (by decide)
  have hhead : Neat [stepHead index, ⟨1, [.code "# table loop over ", .remark l.subject]⟩,
      ⟨1, [.code "subject = ", .literal l.subject]⟩,
      ⟨1, [.code "rows_selector = ", .literal l.rowSelector]⟩,
      code 1 "records = []", code 1 "data[\"tables\"].append(records)"] := by
    refine .cons (quiet_stepHead index).flat (sealed_code 0 _) (.append hremark ?_)
    refine hliteral (by decide) (by decide) (hliteral (by decide) (by decide) ?_)
    exact .fixed (by decide) (.fixed (by decide) .nil)
  dsimp only at h
  split at h
  · obtain rfl := Except.ok.inj h
    exact ⟨by simp, .append (.append hhead (.fixed (by decide) .nil)) (hpass.nest 1)⟩
  · next control _ =>
    obtain rfl := Except.ok.inj h
    refine ⟨by simp, .append (.append (.append hhead ?_) (hpass.nest 2)) ?_⟩
    · exact hliteral (by decide) (by decide) (.fixed (by decide) .nil)
    · iterate 5 refine .fixed (by decide) ?_
      exact .nil

/-- **The function of a step** is laid out well. -/
theorem neat_stepFunction {index : Nat} {step : Step} {b : Block}
    (h : stepFunction plan index step = .ok b) : b ≠ [] ∧ Neat b := by
  cases step with
  | node k =>
    rw [stepFunction] at h
    cases hn : nodeAt plan k with
    | error e => simp [hn] at h
    | ok n =>
      obtain rfl : actionFunction index n = b := by simpa [hn] using h
      exact ⟨by simp [actionFunction], neat_actionFunction index n⟩
  | loop l => exact neat_loopFunction h

end

/-! ## The frame -/

/-- The summary has no text of the log but the one between its quotes. -/
theorem neat_summary (plan : Plan String) {count : String} (hcount : Text.Flat count) :
    Neat (summary plan count) := by
  have hsealed : ∀ l ∈ summary plan count, l.Sealed := by simp [summary]
  exact fun l hl => ⟨(holds_summary plan hcount).flat l hl, hsealed l hl⟩

theorem neat_imports : Neat imports := by
  have hsealed : ∀ l ∈ imports, l.Sealed := by simp [imports]
  exact fun l hl => ⟨holds_imports.flat l hl, hsealed l hl⟩

theorem neat_constants (settings : Settings) (plan : Plan String) :
    Neat (constants settings plan) := by
  have hbase : Line.Sealed ⟨0, [.code "BASE_URL = ", .literal plan.baseUrl]⟩ :=
    ⟨by decide, trivial⟩
  have hsealed : ∀ l ∈ constants settings plan, l.Sealed := by simp [constants, hbase]
  exact fun l hl => ⟨(holds_constants settings plan).flat l hl, hsealed l hl⟩

theorem neat_runFunction (plan : Plan String) : Neat (runFunction plan) := by
  have hcall : ∀ (index : Nat) (step : Step), (callLine index step).Sealed := by
    intro index step
    cases step <;> exact sealed_code 2 _
  have hsealed : ∀ l ∈ runFunction plan, l.Sealed := by
    intro l hl
    simp only [runFunction, List.mem_append, List.mem_mapIdx] at hl
    rcases hl with (hl | ⟨i, -, rfl⟩) | hl
    · revert l
      simp
    · exact hcall i _
    · revert l
      simp
  exact fun l hl => ⟨(holds_runFunction plan).flat l hl, hsealed l hl⟩

theorem neat_entry : Neat entry := by
  have hsealed : ∀ l ∈ entry, l.Sealed := by simp [entry]
  exact fun l hl => ⟨holds_entry.flat l hl, hsealed l hl⟩

/-- The functions that are the same in every script are neat, and none of them is empty. -/
theorem neat_fixedFunctions {hasLoop hasPagination : Bool} {b : Block}
    (hb : b ∈ fixedFunctions hasLoop hasPagination) : b ≠ [] ∧ Neat b := by
  obtain ⟨hne, hholds⟩ := holds_fixedFunctions hb
  have hsealed : ∀ l ∈ fixedFunctions true true |>.flatten, l.Sealed := by
    simp [fixedFunctions, findElement, waitForPage, runStep, currentRow, returnToList,
      paginationAvailable, firstRowHandle, waitForNextPage]
  have hmem : b ∈ fixedFunctions true true := by
    simp only [fixedFunctions, List.mem_append] at hb ⊢
    rcases hb with (hb | hb) | hb
    · exact .inl (.inl hb)
    · exact .inl (.inr (by split at hb <;> simp_all))
    · exact .inr (by split at hb <;> simp_all)
  exact ⟨hne, fun l hl => ⟨hholds.flat l hl, hsealed l (List.mem_flatten.2 ⟨b, hmem, hl⟩)⟩⟩

/-! ## The whole script -/

/-- A script of blocks whose lines are neat. -/
structure LaidOut (s : Script) : Prop where
  ne_nil : s.blocks ≠ []
  blocks : ∀ b ∈ s.blocks, b ≠ [] ∧ Neat b

/-- **Every script is laid out well**, whatever plan it is made from. -/
theorem laidOut_of_ofPlan {settings : Settings} {plan : Plan String} {count : String} {s : Script}
    (hcount : Text.Flat count) (h : ofPlan settings plan count = .ok s) : LaidOut s := by
  obtain ⟨steps, hsteps, h⟩ := exists_of_bind_ok h
  obtain rfl := Except.ok.inj h
  refine ⟨by simp, ?_⟩
  intro b hb
  simp only [List.mem_append, List.mem_cons, List.not_mem_nil, or_false] at hb
  rcases hb with (((rfl | rfl | rfl) | hb) | hb) | rfl | rfl
  · exact ⟨List.cons_ne_nil _ _, neat_summary plan hcount⟩
  · exact ⟨List.cons_ne_nil _ _, neat_imports⟩
  · exact ⟨List.cons_ne_nil _ _, neat_constants settings plan⟩
  · exact neat_fixedFunctions hb
  · obtain ⟨⟨index, step⟩, -, hstep⟩ := exists_of_mem_mapM hsteps b hb
    exact neat_stepFunction hstep
  · exact ⟨List.cons_ne_nil _ _, neat_runFunction plan⟩
  · exact ⟨List.cons_ne_nil _ _, neat_entry⟩

namespace LaidOut

variable {s : Script}

/-- The lines of the text are those that were put together. -/
theorem lines_text (h : LaidOut s) : Text.lines s.text = s.lines.map Line.text :=
  Script.lines_text h.ne_nil (fun b hb => (h.blocks b hb).1)
    fun b hb l hl => ((h.blocks b hb).2 l hl).1

/-- No carriage return is in the text, so a line feed is all that ends a line. -/
theorem not_mem_text (h : LaidOut s) : '\r' ∉ s.text.toList :=
  Script.not_mem_text h.ne_nil (fun b hb => (h.blocks b hb).1)
    fun b hb l hl => ((h.blocks b hb).2 l hl).1

theorem sealed_of_mem_lines (h : LaidOut s) : ∀ l ∈ s.lines, l.Sealed := by
  intro l hl
  rcases eq_blank_or_mem_of_mem_lines hl with rfl | ⟨b, hb, hl⟩
  · exact sealed_blank
  · exact ((h.blocks b hb).2 l hl).2

/-- **The code of the text** is that of the lines without the texts that were recorded. -/
theorem map_readCode_lines (h : LaidOut s) : (Text.lines s.text).map readCode
    = (s.lines.map Line.erased).map fun l => readCode l.text := by
  rw [h.lines_text, List.map_map, List.map_map]
  exact List.map_congr_left fun l hl => Line.readCode_text (h.sealed_of_mem_lines l hl)

end LaidOut

end Retrace.Script
