/-
What a script tells about its actions.

The number of actions stands on one line of a script, in its summary, and nothing else in the script
depends on it (`lines_of_ofPlan`). So where a log holds bounds that are out of place, the script of
the log and that of the log without them are the same but for this line.
-/
import Retrace.Proofs.Plan.InPlace
import Retrace.Proofs.Script.Layout

set_option autoImplicit false

namespace Retrace

namespace Script

/-- The first lines of a script, down to the one that tells the number of actions. -/
def opening (count : String) : List String :=
  ["\"\"\"", "Recorded browser workflow.", "", "actions: " ++ count]

theorem text_code (text : String) : (code 0 text).text = text := by
  simp [Line.text, code, Part.text]

/-- **The number of actions** is told on one line. The other lines do not depend on it. -/
theorem lines_of_ofPlan {settings : Settings} {plan : Plan String} {count count' : String}
    {s s' : Script} (hcount : Text.Flat count) (hcount' : Text.Flat count')
    (h : ofPlan settings plan count = .ok s) (h' : ofPlan settings plan count' = .ok s') :
    ∃ rest, Text.lines s.text = opening count ++ rest
      ∧ Text.lines s'.text = opening count' ++ rest := by
  have hlines := (laidOut_of_ofPlan hcount h).lines_text
  have hlines' := (laidOut_of_ofPlan hcount' h').lines_text
  obtain ⟨steps, hsteps, h⟩ := exists_of_bind_ok h
  obtain ⟨steps', hsteps', h'⟩ := exists_of_bind_ok h'
  obtain rfl := Except.ok.inj (hsteps.symm.trans hsteps')
  obtain rfl := Except.ok.inj h
  obtain rfl := Except.ok.inj h'
  have hopening : ∀ count : String,
      ((summary plan count).take 4).map Line.text = opening count := by
    intro count
    simp only [summary, List.take_succ_cons, List.take_zero, List.map_cons, List.map_nil, text_code]
    rfl
  have hrest : (summary plan count).drop 4 = (summary plan count').drop 4 := rfl
  have hsplit : ∀ (count : String) (b : Block) (blocks : List Block),
      (Script.lines ⟨summary plan count :: b :: blocks⟩).map Line.text = opening count
        ++ ((summary plan count).drop 4 ++ ([blank, blank]
          ++ Script.lines ⟨b :: blocks⟩)).map Line.text := by
    intro count b blocks
    rw [Script.lines, List.intercalate_cons_of_ne_nil (List.cons_ne_nil b blocks), ← hopening count,
      ← List.map_append, ← List.append_assoc (List.take ..), List.take_append_drop, Script.lines]
    simp only [List.append_assoc]
  exact ⟨_, hlines.trans (hsplit ..), hlines'.trans (by rw [hrest]; exact hsplit ..)⟩

/-- The script of a plan does not depend on what was counted. -/
theorem ofPlan_counted (settings : Settings) (plan : Plan String) (actionCount skipped : Nat)
    (count : String) :
    ofPlan settings { plan with actionCount, skipped } count = ofPlan settings plan count := rfl

/-- **Bounds out of place leave no trace.** Without them a log has the plan that it has with them,
but for the number of actions, and a script that tells this number and is the same otherwise. Where
a loop is open at the end, ending it changes neither the nodes nor the steps, and no more bounds are
left out. -/
theorem compile_inPlace (settings : Settings) (actions : List (Action String)) (baseUrl : String) :
    let plan := (Plan.ofActions actions baseUrl).1
    let cleared := (Plan.ofActions (inPlace false actions) baseUrl).1
    (cleared.skipped = 0 ∧ cleared.nodes = plan.nodes ∧ cleared.steps = plan.steps
      ∧ cleared.actionCount + plan.skipped = plan.actionCount)
    ∧ (∃ s s' rest, (compile settings actions baseUrl).1 = .ok s
      ∧ (compile settings (inPlace false actions) baseUrl).1 = .ok s'
      ∧ Text.lines s.text = opening (toString plan.actionCount) ++ rest
      ∧ Text.lines s'.text = opening (toString cleared.actionCount) ++ rest)
    ∧ ∀ l, (actions.foldl Plan.Draft.add { plan := { baseUrl } }).loop = some l →
      ∀ a : Action String, a.kind = .tableLoopEnd →
        let ended := (Plan.ofActions (actions ++ [a]) baseUrl).1
        ended.nodes = plan.nodes ∧ ended.steps = plan.steps ∧ ended.skipped = plan.skipped := by
  intro plan cleared
  have hcleared : cleared
      = { plan with actionCount := (inPlace false actions).length, skipped := 0 } :=
    Plan.ofActions_inPlace actions baseUrl
  have hskipped : plan.skipped + (inPlace false actions).length = actions.length :=
    Plan.skipped_add_length_inPlace actions baseUrl
  have hcount : plan.actionCount = actions.length := Plan.actionCount_ofActions actions baseUrl
  have hcount' : cleared.actionCount = (inPlace false actions).length := by rw [hcleared]
  have hsame : ∀ count, ofPlan settings cleared count = ofPlan settings plan count := by
    intro count
    rw [hcleared, ofPlan_counted]
  refine ⟨⟨?_, ?_, ?_, ?_⟩, ?_, ?_⟩
  · rw [hcleared]
  · rw [hcleared]
  · rw [hcleared]
  · rw [hcount, hcount']
    omega
  · obtain ⟨s, hs, -⟩ := exists_ofPlan settings (Plan.renders_ofActions actions baseUrl)
      (.repr plan.actionCount)
    obtain ⟨s', hs', -⟩ := exists_ofPlan settings (Plan.renders_ofActions actions baseUrl)
      (.repr cleared.actionCount)
    obtain ⟨rest, hlines, hlines'⟩ := lines_of_ofPlan (.repr _) (.repr _) hs hs'
    exact ⟨s, s', rest, hs, (hsame _).trans hs', hlines, hlines'⟩
  · intro l hloop a ha
    rw [Plan.ofActions_append_end hloop ha]
    exact ⟨rfl, rfl, rfl⟩

end Script

end Retrace
