/-
Two ways to begin a loop.

A table is picked by asking for a loop and clicking the table, or by clicking tables while the
modifier is held and letting it go. In between the pointer may move anywhere, clicks may hit no
table, and the page may be another one. All that the machine keeps of this is the mark, which is
the locator of the table that was clicked last (`markOf`), and what is shown at the moment; nothing
is handed out, and no reading is taken of the clock (`pointAll_held`).

When the modifier is let go, the mark is picked as a click on its table would have picked it. A
locator is never empty, since the empty text is no selector; so a table that was clicked is always
marked.
-/
import Retrace.Proofs.Locator.Container
import Retrace.Proofs.Recording.Seeking

set_option autoImplicit false

namespace Retrace

namespace TableLoop

/-! ## Pointing -/

/-- What the pointer does on a page. -/
inductive Pointing where
  | hover (event : Event)
  | click (event : Event)

/-- How far the machine has come, with the bounds that it has handed out on the way. -/
structure Passage where
  context : Context
  clock : Clock
  bounds : List (Action Json) := []

variable (settings : Settings)

/-- The pointer does one thing. -/
def Passage.point (s : Passage) : Pointing → Except Selector.SyntaxError Passage
  | .hover event => .ok { s with context := hover settings s.context event }
  | .click event => do
    let (_, o) ← click settings s.context s.clock event
    return { context := o.context, clock := o.clock, bounds := s.bounds ++ o.bound.toList }

/-- The pointer does one thing after the other, up to a click that fails. -/
def Passage.pointAll (s : Passage) (pointings : List Pointing) :
    Except Selector.SyntaxError Passage :=
  pointings.foldlM (Passage.point settings) s

/-- The table that is clicked, with its event. -/
def Pointing.picked? : Pointing → Option (Event × Nat)
  | .hover _ => none
  | .click event =>
    (event.target.bind (Interaction.findTable settings event.page)).map fun table => (event, table)

/-- The table that is clicked last. -/
def lastPicked? (pointings : List Pointing) : Option (Event × Nat) :=
  (pointings.filterMap (Pointing.picked? settings)).getLast?

/-- The locator of a table that is clicked. -/
def locator? (picked : Event × Nat) : Option String :=
  (Locator.synthesize picked.1.page (some picked.2) none).toOption

/-- The mark that the pointer leaves. -/
def markOf (pointings : List Pointing) : Option String :=
  (lastPicked? settings pointings).bind locator?

/-- All that is looked up for the tables that are clicked is accepted. -/
def TablesLocatable (pointings : List Pointing) : Prop :=
  ∀ p ∈ pointings, ∀ event table, p.picked? settings = some (event, table) →
    event.page.Locatable table none

variable {settings}

theorem lastPicked?_concat (pointings : List Pointing) (p : Pointing) :
    lastPicked? settings (pointings ++ [p])
      = (p.picked? settings).or (lastPicked? settings pointings) := by
  rw [lastPicked?, lastPicked?, List.filterMap_append]
  cases h : p.picked? settings with
  | none => simp [h]
  | some picked => simp [h]

theorem exists_locator? {event : Event} {table : Nat} (h : event.page.Locatable table none) :
    ∃ locator, Locator.synthesize event.page (some table) none = .ok locator ∧ locator ≠ ""
      ∧ locator? (event, table) = some locator := by
  obtain ⟨locator, hlocator⟩ := Page.locatable_none_iff.1 h
  refine ⟨locator, hlocator, Locator.ne_empty_of_synthesize hlocator, ?_⟩
  rw [locator?, hlocator]
  rfl

/-- A table that is clicked takes the place of the one before. -/
theorem markOf_concat {pointings : List Pointing} {p : Pointing}
    (h : TablesLocatable settings (pointings ++ [p])) :
    markOf settings (pointings ++ [p])
      = ((p.picked? settings).bind locator?).or (markOf settings pointings) := by
  rw [markOf, markOf, lastPicked?_concat]
  cases hp : p.picked? settings with
  | none => rfl
  | some picked =>
    obtain ⟨locator, -, -, hlocator⟩ := exists_locator? (h p (by simp) picked.1 picked.2 hp)
    rw [Option.some_or, Option.bind_some, hlocator, Option.some_or]

/-! ## With the modifier held -/

/-- **One thing.** While the modifier is held and no loop is open, the pointer changes the mark and
what is shown, and nothing is handed out. -/
theorem point_held {s : Passage} (hphase : s.context.phase = .inactive)
    (hheld : s.context.modifierHeld = true) {p : Pointing} (h : TablesLocatable settings [p]) :
    ∃ shown, s.point settings p = .ok { s with context := { s.context with
      markedTable := ((p.picked? settings).bind locator?).or s.context.markedTable
      highlightedTable := shown } } := by
  cases p with
  | hover event => exact ⟨_, rfl⟩
  | click event =>
    refine ⟨s.context.highlightedTable, ?_⟩
    rw [Passage.point, Pointing.picked?]
    cases htarget : event.target with
    | none =>
      -- nothing was hit, and the mark stays
      simp [click, htarget, bind, Except.bind, pure, Except.pure]
    | some i =>
      have hwanted : wanted? settings s.context event i
          = Interaction.findTable settings event.page i := by
        rw [wanted?, hphase, hheld]
      rw [click_eq htarget, hwanted, Option.bind_some]
      cases htable : Interaction.findTable settings event.page i with
      | none =>
        -- outside of tables
        simp [bind, Except.bind, pure, Except.pure]
      | some table =>
        have hpicked : (Pointing.click event).picked? settings = some (event, table) := by
          rw [Pointing.picked?, htarget, Option.bind_some, htable, Option.map_some]
        obtain ⟨locator, hlocator, hne, hmark⟩ :=
          exists_locator? (h (.click event) (by simp) event table hpicked)
        simp [hlocator, hmark, taken, hphase, hne, bind, Except.bind, pure, Except.pure,
          Functor.map, Except.map]

/-- **Any number of things.** What they come to is the mark. The induction is on what the pointer
does, from the end. -/
theorem pointAll_held {context : Context} (hphase : context.phase = .inactive)
    (hmark : context.markedTable = none) (clock : Clock) {pointings : List Pointing}
    (h : TablesLocatable settings pointings) :
    ∃ shown, Passage.pointAll settings { context := holdModifier context, clock } pointings
      = .ok { clock, context := { context with
          modifierHeld := true, markedTable := markOf settings pointings
          highlightedTable := shown } } := by
  induction pointings using List.reverseRecOn with
  | nil =>
    refine ⟨context.highlightedTable, ?_⟩
    -- no click leaves the mark of before, and there was none
    rw [show markOf settings [] = context.markedTable from hmark.symm]
    rfl
  | append_singleton pointings p ih =>
    obtain ⟨shown, hpointings⟩ := ih fun q hq => h q (by simp [hq])
    have hlast : TablesLocatable settings [p] := by
      intro q hq
      obtain rfl := List.mem_singleton.1 hq
      exact h q (by simp)
    obtain ⟨shown', hp⟩ := point_held (s := { clock, context := { context with
      modifierHeld := true, markedTable := markOf settings pointings
      highlightedTable := shown } }) hphase rfl hlast
    refine ⟨shown', ?_⟩
    rw [Passage.pointAll] at hpointings ⊢
    rw [List.foldlM_append, hpointings, markOf_concat h]
    simp only [bind, Except.bind, List.foldlM_cons, List.foldlM_nil, pure, Except.pure]
    rw [hp]

/-! ## The two ways -/

theorem Pointing.findTable_of_picked? {p : Pointing} {event : Event} {table : Nat}
    (h : p.picked? settings = some (event, table)) :
    ∃ i, event.target = some i ∧ Interaction.findTable settings event.page i = some table := by
  cases p with
  | hover _ => simp [picked?] at h
  | click e =>
    obtain ⟨t, ht, heq⟩ := Option.map_eq_some_iff.1 h
    obtain ⟨rfl, rfl⟩ := Prod.mk.inj heq
    exact Option.bind_eq_some_iff.1 ht

theorem exists_picked?_of_lastPicked? {pointings : List Pointing} {event : Event} {table : Nat}
    (h : lastPicked? settings pointings = some (event, table)) :
    ∃ p ∈ pointings, p.picked? settings = some (event, table) :=
  List.mem_filterMap.1 (List.mem_of_getLast? h)

/-- A click on a table, after a loop was asked for, begins the loop there. -/
theorem click_toggle {context : Context} (hphase : context.phase = .inactive) (clock : Clock)
    {event : Event} {i table : Nat} {locator : String} (htarget : event.target = some i)
    (htable : Interaction.findTable settings event.page i = some table)
    (hlocator : Locator.synthesize event.page (some table) none = .ok locator) :
    (toggle context clock).bound = none
      ∧ click settings (toggle context clock).context (toggle context clock).clock event
        = .ok (true, openLoop { context with phase := .selecting } clock locator) := by
  have hasked : toggle context clock
      = { context := { context with phase := .selecting }, clock } := by
    rw [toggle, hphase]
  have hwanted : wanted? settings { context with phase := .selecting } event i = some table :=
    htable
  rw [hasked, click_eq htarget, hwanted]
  refine ⟨rfl, ?_⟩
  dsimp only
  rw [hlocator]
  rfl

/-- **Both ways begin the same loop.** The modifier is held, the pointer does whatever it does on
whatever pages, and the modifier is let go. Nothing is handed out before. If no table was clicked,
nothing is handed out then, and all is as before but for what is shown. Otherwise it is the start of
a loop over the table that was clicked last, and the state is the one that a click on this table
leads to after a loop was asked for. -/
theorem releaseModifier_pointAll {context : Context} (hphase : context.phase = .inactive)
    (hheld : context.modifierHeld = false) (hmark : context.markedTable = none) (clock : Clock)
    {pointings : List Pointing} (h : TablesLocatable settings pointings) :
    ∃ held,
      Passage.pointAll settings { context := holdModifier context, clock } pointings = .ok held
        ∧ held.bounds = []
        ∧ (lastPicked? settings pointings = none →
          releaseModifier held.context held.clock
            = ({ context := { context with highlightedTable := none }, clock }, false))
        ∧ ∀ event table, lastPicked? settings pointings = some (event, table) →
          ∃ locator released,
            Locator.synthesize event.page (some table) none = .ok locator
              ∧ releaseModifier held.context held.clock = (released, false)
              ∧ released.bound = some { kind := .tableLoopStart, locator, timestamp := clock.now }
              ∧ ∀ clock', (toggle context clock').bound = none
                ∧ ∃ picked,
                  click settings (toggle context clock').context (toggle context clock').clock event
                      = .ok (true, picked)
                    ∧ picked.context = released.context
                    ∧ (clock'.now = clock.now → picked.bound = released.bound) := by
  obtain ⟨shown, hpointAll⟩ := pointAll_held hphase hmark clock h
  refine ⟨_, hpointAll, rfl, fun hnone => ?_, fun event table hlast => ?_⟩
  · have hnomark : markOf settings pointings = none := by
      rw [markOf, hnone, Option.bind_none]
    simp [releaseModifier, hnomark, hheld, hmark]
  · obtain ⟨p, hp, hpicked⟩ := exists_picked?_of_lastPicked? hlast
    obtain ⟨i, htarget, htable⟩ := p.findTable_of_picked? hpicked
    obtain ⟨locator, hlocator, hne, hmarked⟩ := exists_locator? (h p hp event table hpicked)
    have hmarkOf : markOf settings pointings = some locator := by
      rw [markOf, hlast, Option.bind_some, hmarked]
    -- the context that both ways end in
    let begun : Context := { context with
      phase := .selectingNext, subject := some locator, highlightedTable := none }
    refine ⟨locator, setBound begun clock .tableLoopStart locator, hlocator, ?_, rfl,
      fun clock' => ?_⟩
    · simp [releaseModifier, hmarkOf, hphase, openLoop, hne, begun, hheld, hmark]
    · obtain ⟨hbound, hclick⟩ := click_toggle hphase clock' htarget htable hlocator
      refine ⟨hbound, _, hclick, ?_, fun hnow => ?_⟩
      · simp [openLoop, hne, setBound, begun]
      · simp [openLoop, hne, setBound, hnow]

/-- A page with a table of one cell. -/
def cellPage : Page :=
  ((Page.empty.push "table" [] none).push "tr" [] (some 0)).push "td" [] (some 1)

/-- A page with a paragraph and a grid after it. -/
def gridPage : Page := (Page.empty.push "p" [] none).push "div" [("role", "grid")] none

/-- A click in the cell. -/
def cellClick : Event := { type := .click, page := cellPage, target := some 2 }

/-- A click on the grid. -/
def gridClick : Event := { type := .click, page := gridPage, target := some 1 }

/-- Clicks in the cell, on the grid of another page, and at last on the paragraph there. -/
def cellThenGrid : List Pointing :=
  [.hover { type := .mouseOver, page := cellPage, target := some 0 },
    .click cellClick, .click gridClick,
    .click { type := .click, page := gridPage, target := some 0 }]

theorem releaseModifier_pointAll_cellThenGrid :
    lastPicked? {} cellThenGrid = some (gridClick, 1)
      ∧ ∃ held, Passage.pointAll {}
          { context := holdModifier {}, clock := Clock.ofList [2.5] } cellThenGrid = .ok held
        ∧ (releaseModifier held.context held.clock).1.bound
          = some { kind := .tableLoopStart, locator := "div", timestamp := 2.5 } := by
  have htable : Interaction.findTable {} cellPage 2 = some 0 := by decide +kernel
  have hparagraph : Interaction.findTable {} gridPage 0 = none := by decide +kernel
  have hgrid : Interaction.findTable {} gridPage 1 = some 1 := by decide +kernel
  have hlast : lastPicked? {} cellThenGrid = some (gridClick, 1) := by
    simp [lastPicked?, cellThenGrid, Pointing.picked?, gridClick, hparagraph, hgrid]
  have hlocator : Locator.synthesize gridPage (some 1) none = .ok "div" := by decide +kernel
  have h : TablesLocatable {} cellThenGrid := by
    intro p hp event table hpicked
    simp only [cellThenGrid, List.mem_cons, List.not_mem_nil, or_false] at hp
    apply Page.locatable_none_iff.2
    obtain rfl | rfl | rfl | rfl := hp
    · simp [Pointing.picked?] at hpicked
    · obtain ⟨rfl, rfl⟩ : cellClick = event ∧ 0 = table := by
        simpa [Pointing.picked?, cellClick, htable] using hpicked
      exact ⟨"table", by decide +kernel⟩
    · obtain ⟨rfl, rfl⟩ : gridClick = event ∧ 1 = table := by
        simpa [Pointing.picked?, gridClick, hgrid] using hpicked
      exact ⟨"div", hlocator⟩
    · simp [Pointing.picked?, hparagraph] at hpicked
  obtain ⟨held, hheld, -, -, hpicked⟩ :=
    @releaseModifier_pointAll {} {} rfl rfl rfl (Clock.ofList [2.5]) cellThenGrid h
  obtain ⟨locator, released, hsynthesize, hreleased, hbound, -⟩ := hpicked gridClick 1 hlast
  obtain rfl : "div" = locator := Except.ok.inj (hlocator.symm.trans hsynthesize)
  refine ⟨hlast, held, hheld, ?_⟩
  rw [hreleased, hbound]
  rfl

end TableLoop

end Retrace
