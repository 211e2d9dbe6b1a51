/-
The compounds of a path are its normal form.

Every text is a path, also one with brackets that do not match, with a quote that is not closed, or
with a backslash at its end. Its compounds are never empty, and they have all its characters but
those that separate compounds where they stand (`Scan.flatMap_text_compounds`). When they are put
together again, they are read back, and so is any row of them (`compounds_join_iff`).

What carries this is where the scan cuts: only outside of quotes and brackets and behind a whole
escape. So each compound but the last one leads a scan from there back to there, whatever follows it
(`Scan.Takes`), and the last one is read to its end (`Scan.TakesLast`).

Where a path is split at its row, the row loses its positions. What is left is read back as one
compound, if anything is left, unless a position in it stands behind a backslash
(`solid_dropPositions`).
-/
import Mathlib.Data.Bool.AllAny
import Retrace.Proofs.Path.Row
import Retrace.Proofs.Path.Separators

set_option autoImplicit false

namespace Retrace.Path

/-! ## What is kept of a path -/

namespace Within

/-- The characters but those that separate compounds. -/
def kept : Within → List Char → List Char
  | _, [] => []
  | x, c :: cs => if x.separates c then (x.next c).kept cs else c :: (x.next c).kept cs

/-- No character separates compounds. -/
def Solid : Within → List Char → Prop
  | _, [] => True
  | x, c :: cs => x.separates c = false ∧ (x.next c).Solid cs

variable {x : Within} {cs ds : List Char}

theorem kept_sublist (x : Within) (cs : List Char) : (x.kept cs).Sublist cs := by
  induction cs generalizing x with
  | nil => exact List.Sublist.refl []
  | cons c cs ih =>
    rw [kept]
    split
    · exact (ih _).cons c
    · exact (ih _).cons_cons c

/-- Nothing is dropped of a text without separators. -/
theorem kept_eq_self_iff : x.kept cs = cs ↔ x.Solid cs := by
  induction cs generalizing x with
  | nil => simp [kept, Solid]
  | cons c cs ih =>
    rw [kept, Solid, ← ih]
    by_cases hsep : x.separates c = true
    · rw [if_pos hsep, hsep]
      -- what is left is shorter
      have hlength := (kept_sublist (x.next c) cs).length_le
      constructor
      · intro heq
        rw [heq, List.length_cons] at hlength
        omega
      · simp
    · rw [if_neg hsep, List.cons.injEq]
      simp [hsep]

/-- A text is solid if its parts are, each read from where the one before has led. -/
theorem solid_append : x.Solid (cs ++ ds) ↔ x.Solid cs ∧ (x.through cs).Solid ds := by
  induction cs generalizing x with
  | nil => simp [Solid]
  | cons c cs ih => rw [List.cons_append, Solid, Solid, ih, and_assoc, through_cons]

end Within

/-- The path without the characters that separate its compounds: the blanks and the signs of a child
that are not escaped, outside of quotes and brackets. -/
def withoutSeparators (path : String) : String := String.ofList (Within.kept {} path.toList)

namespace Scan

theorem flatMap_text_finished (s : Scan) : s.finished.flatMap (·.text.toList) = s.compound := by
  unfold finished
  split
  · next hnil => simp [List.isEmpty_iff.1 hnil]
  · simp

/-- An escaped character is kept. -/
theorem kept_backslash (s : Scan) (d : Char) (rest : List Char) :
    s.within.kept ('\\' :: d :: rest) = '\\' :: d :: s.within.kept rest := by
  have hback : isSeparator '\\' = false := by decide
  simp [Within.kept, Within.separates, Within.isOpen, Within.next, within, hback]

/-- **Nothing is lost.** The compounds have the characters of the path but those that separate
compounds where they stand. -/
theorem flatMap_text_compounds (s : Scan) (cs : List Char) :
    (s.compounds cs).flatMap (·.text.toList) = s.compound ++ s.within.kept cs := by
  induction s, cs using induction_on with
  | nil s => simp [compounds, flatMap_text_finished, Within.kept]
  | backslash s =>
    have hback : s.within.separates '\\' = false := by
      rw [Within.separates, show isSeparator '\\' = false by decide, Bool.and_false]
    rw [compounds_backslash, flatMap_text_finished, Within.kept, hback]
    rfl
  | escape s d rest ih =>
    have hwithin : ((s.push '\\').push d).within = s.within := rfl
    rw [compounds, ih, hwithin, kept_backslash]
    simp [push]
  | cut s c rest hopen hc ih =>
    have hsep : s.within.separates c = true := by
      rw [Within.separates, isOpen_within, hopen, hc, Bool.and_self]
    rw [compounds_cut hopen hc, List.flatMap_append, flatMap_text_finished, ih, Within.kept,
      if_pos hsep, next_within_of_isSeparator hopen hc, compound_past, within_past, List.nil_append]
  | taken s c rest hback hsep ih =>
    rw [compounds_taken hback hsep, ih, within_take hback, take_eq hback, Within.kept, hsep]
    simp

/-- Where nothing separates compounds, there is one compound. -/
theorem compounds_of_solid {s : Scan} {cs : List Char} (h : s.within.Solid cs) :
    s.compounds cs = ({ s with compound := s.compound ++ cs } : Scan).finished := by
  induction s, cs using induction_on with
  | nil s => simp [compounds]
  | backslash s => exact compounds_backslash s
  | escape s d rest ih =>
    have hrest : ((s.push '\\').push d).within.Solid rest := by
      rw [← Within.kept_eq_self_iff, kept_backslash] at h
      rw [← Within.kept_eq_self_iff]
      exact (List.cons.inj (List.cons.inj h).2).2
    rw [compounds, ih hrest]
    simp [push]
  | cut s c rest hopen hc ih =>
    have hsep := h.1
    rw [Within.separates, isOpen_within, hopen, hc] at hsep
    simp at hsep
  | taken s c rest hback hsep ih =>
    rw [compounds_taken hback hsep, ih (by rw [within_take hback]; exact h.2), take_eq hback]
    simp [finished]

/-! ## What a scan finds is legible -/

/-- A scan outside of quotes and brackets takes the text to its end. -/
def TakesLast (cs : List Char) : Prop :=
  ∀ s : Scan, s.isOpen = true →
    s.compounds cs = ({ s with compound := s.compound ++ cs } : Scan).finished

/-- What is taken whole is taken at the end as well. -/
theorem Takes.last {cs : List Char} (h : Takes cs) : TakesLast cs := by
  intro s hopen
  have hend := h s [] hopen
  rwa [List.append_nil, compounds] at hend

/-- The compound leads any scan from outside of quotes and brackets to where `s` is. -/
def Leads (s : Scan) : Prop :=
  ∀ (t : Scan) (rest : List Char), t.isOpen = true →
    t.compounds (s.compound ++ rest)
      = ({ s with
          combinator := t.combinator, compound := t.compound ++ s.compound } : Scan).compounds rest

variable {s : Scan}

/-- Before a compound there is nothing to go through. -/
theorem leads_of_isOpen (hopen : s.isOpen = true) (hnil : s.compound = []) : s.Leads := by
  intro t rest ht
  obtain ⟨hquote, hdepth⟩ := isOpen_iff.1 hopen
  obtain ⟨hquote', hdepth'⟩ := isOpen_iff.1 ht
  rw [hnil, List.nil_append, List.append_nil, hquote, hdepth, ← hquote', ← hdepth']

theorem Leads.escape (h : s.Leads) (d : Char) : ((s.push '\\').push d).Leads := by
  intro t rest ht
  have hcompound : ((s.push '\\').push d).compound ++ rest = s.compound ++ '\\' :: d :: rest := by
    simp [push]
  rw [hcompound, h t _ ht, compounds_escape]
  simp [push]

theorem Leads.take (h : s.Leads) {c : Char} (hback : c ≠ '\\')
    (hsep : s.within.separates c = false) : (s.take c).Leads := by
  intro t rest ht
  have hcompound : (s.take c).compound ++ rest = s.compound ++ c :: rest := by
    simp [take_eq hback]
  rw [hcompound, h t _ ht, compounds_taken (s := { s with
    combinator := t.combinator, compound := t.compound ++ s.compound }) hback hsep, take_eq hback,
    take_eq hback]
  simp [within]

/-- At the end of a scan, its compound is read to its end. -/
theorem Leads.last (h : s.Leads) : TakesLast s.compound := by
  intro t ht
  have hend := h t [] ht
  rw [List.append_nil, compounds] at hend
  rw [hend]
  rfl

/-- Where the scan cuts, its compound has led it back outside. -/
theorem Leads.takes (h : s.Leads) (hopen : s.isOpen = true) : Takes s.compound := by
  intro t rest ht
  obtain ⟨hquote, hdepth⟩ := isOpen_iff.1 hopen
  obtain ⟨hquote', hdepth'⟩ := isOpen_iff.1 ht
  rw [h t rest ht, hquote, hdepth, ← hquote', ← hdepth']

end Scan

/-- Compounds that are read back where they are put together: none is empty, all but the first one
have a combinator, and each leads a scan on to the next one. -/
inductive Legible : List Compound → Prop where
  | nil : Legible []
  | last {c : Compound} : c.text ≠ "" → Scan.TakesLast c.text.toList → Legible [c]
  | cons {c d : Compound} {rest : List Compound} : c.text ≠ "" → Scan.Takes c.text.toList →
    d.combinator.isSome = true → Legible (d :: rest) → Legible (c :: d :: rest)

namespace Scan

variable {s : Scan}

/-- Behind a combinator, every compound has one. -/
theorem isSome_combinator (hs : s.combinator.isSome = true) (cs : List Char) :
    ∀ c ∈ s.compounds cs, c.combinator.isSome = true := by
  have hfinished : ∀ s : Scan, s.combinator.isSome = true →
      ∀ c ∈ s.finished, c.combinator.isSome = true := by
    intro s hs c hc
    unfold finished at hc
    split at hc
    · simp at hc
    · obtain rfl := List.mem_singleton.1 hc
      exact hs
  induction s, cs using induction_on with
  | nil s =>
    rw [compounds]
    exact hfinished s hs
  | backslash s =>
    rw [compounds_backslash]
    exact hfinished _ hs
  | escape s d rest ih =>
    rw [compounds]
    exact ih hs
  | cut s c rest hopen hc ih =>
    have hpast : (s.past [c]).combinator.isSome = true := by
      unfold past pastBlank
      split_ifs
      · rfl
      · exact hs
      · rfl
    rw [compounds_cut hopen hc]
    exact List.forall_mem_append.2 ⟨hfinished s hs, ih hpast⟩
  | taken s c rest hback hsep ih =>
    rw [compounds_taken hback hsep]
    apply ih
    rw [take_eq hback]
    exact hs

/-- **What a scan finds is legible.** Each cut is made outside of quotes and brackets, where the
compound has led the scan back. -/
theorem legible_compounds (hs : s.Leads) (cs : List Char) : Legible (s.compounds cs) := by
  have hlast : ∀ s : Scan, TakesLast s.compound → Legible s.finished := by
    intro s hs
    unfold finished
    split
    · exact .nil
    · next hne => exact .last (by simpa using hne) (by simpa using hs)
  induction s, cs using induction_on with
  | nil s =>
    rw [compounds]
    exact hlast s hs.last
  | backslash s =>
    rw [compounds_backslash]
    apply hlast
    intro t ht
    have hend := hs t ['\\'] ht
    rw [compounds_backslash] at hend
    simpa [push, finished] using hend
  | escape s d rest ih =>
    rw [compounds]
    exact ih (hs.escape d)
  | cut s c rest hopen hc ih =>
    have hmore := ih (leads_of_isOpen (by simpa using hopen) (compound_past s [c]))
    rw [compounds_cut hopen hc]
    by_cases hnil : s.compound = []
    · simpa [finished, hnil] using hmore
    · have hone : s.finished = [⟨s.combinator, String.ofList s.compound⟩] := by
        simp [finished, hnil]
      have htext : String.ofList s.compound ≠ "" := by simpa using hnil
      rw [hone, List.singleton_append]
      -- what follows has a combinator
      have hsome := isSome_combinator (past_combinator hnil none [c]).2 rest
      cases hrest : (s.past [c]).compounds rest with
      | nil => exact .last htext (by simpa using hs.last)
      | cons d more =>
        rw [hrest] at hmore hsome
        exact .cons htext (by simpa using hs.takes hopen) (hsome d List.mem_cons_self) hmore
  | taken s c rest hback hsep ih =>
    rw [compounds_taken hback hsep]
    exact ih (hs.take hback hsep)

end Scan

theorem legible_compounds (path : String) : Legible (compounds path) :=
  Scan.legible_compounds (Scan.leads_of_isOpen rfl rfl) path.toList

/-! ## Compounds that are put together -/

namespace Legible

variable {cs ds outer inner : List Compound} {c row : Compound}

/-- No compound is empty. -/
theorem text_ne_empty (h : Legible cs) : ∀ c ∈ cs, c.text ≠ "" := by
  induction h with
  | nil => simp
  | last hne => simpa using hne
  | cons hne _ _ _ ih => exact List.forall_mem_cons.2 ⟨hne, ih⟩

/-- The end of a legible row is legible. -/
theorem right (h : Legible (cs ++ ds)) : Legible ds := by
  induction cs with
  | nil => exact h
  | cons c cs ih =>
    apply ih
    rw [List.cons_append] at h
    generalize cs ++ ds = rest at h
    cases h with
    | last => exact .nil
    | cons _ _ _ hrest => exact hrest

theorem head (h : Legible (c :: cs)) : Legible [c] := by
  cases h with
  | last hne htakes => exact .last hne htakes
  | cons hne htakes => exact .last hne htakes.last

theorem tail {c : Compound} (h : Legible (c :: cs)) : Legible cs :=
  right (show Legible ([c] ++ cs) from h)

theorem left (h : Legible (cs ++ ds)) : Legible cs := by
  induction cs with
  | nil => exact .nil
  | cons c cs ih =>
    have hrest := ih (tail h)
    cases cs with
    | nil => exact head h
    | cons d cs =>
      cases h with
      | cons hne htakes hsome _ => exact .cons hne htakes hsome hrest

/-- A piece of a legible row is legible. -/
theorem of_infix (h : Legible ds) (hpiece : cs <:+: ds) : Legible cs := by
  obtain ⟨before, after, rfl⟩ := hpiece
  exact h.left.right

/-- The combinator of the first compound does not matter. -/
theorem led_iff (k : Option Combinator) : Legible (led k cs) ↔ Legible cs := by
  have hled : ∀ (k : Option Combinator) (cs : List Compound), Legible cs → Legible (led k cs) := by
    intro k cs h
    cases h with
    | nil => exact .nil
    | last hne htakes => exact .last hne htakes
    | cons hne htakes hsome hrest => exact .cons hne htakes hsome hrest
  constructor
  · intro h
    cases cs with
    | nil => exact .nil
    | cons c rest => exact hled c.combinator _ h
  · exact hled k cs

/-- The last of the compounds can be replaced by any other that is legible. -/
theorem concat_iff (h : Legible (outer ++ row :: inner)) (hc : c.combinator = row.combinator) :
    Legible (outer ++ [c]) ↔ Legible [c] := by
  refine ⟨right, fun hlast => ?_⟩
  induction outer with
  | nil => exact hlast
  | cons d outer ih =>
    have hrest := ih (tail h)
    cases outer with
    | nil =>
      cases h with
      | cons hne htakes hsome _ => exact .cons hne htakes (by rw [hc]; exact hsome) hlast
    | cons d' outer =>
      cases h with
      | cons hne htakes hsome _ => exact .cons hne htakes hsome hrest

end Legible

theorem toList_join_cons_cons {c d : Compound} (rest : List Compound) {k : Combinator}
    (hd : d.combinator = some k) :
    (join (c :: d :: rest)).toList
      = c.text.toList ++ (k.text.toList ++ (join (d :: rest)).toList) := by
  simp [join, Compound.continued, hd]

/-- A combinator ends the compound and is kept for the next one. -/
theorem past_text (s : Scan) (hne : s.compound ≠ []) (k : Combinator) :
    s.past k.text.toList = { s with combinator := some k, compound := [] } := by
  cases k with
  | child =>
    have htext : '>' ∈ Combinator.child.text.toList := by decide
    rw [Scan.past, if_pos htext]
    rfl
  | descendant =>
    have htext : '>' ∉ Combinator.descendant.text.toList := by decide
    rw [Scan.past, if_neg htext]
    simp [Scan.pastBlank, hne]

/-- **Legible compounds are read back**, but for a combinator in front of the first one. -/
theorem Legible.compounds_join {cs : List Compound} (h : Legible cs) (k : Option Combinator) :
    Scan.compounds { combinator := k } (join cs).toList = led k cs := by
  induction h generalizing k with
  | nil => rfl
  | @last c hne htakes =>
    have htext : c.text.toList ≠ [] := by simpa using hne
    have hjoin : join [c] = c.text := by simp [join]
    rw [hjoin, htakes { combinator := k } rfl]
    simp [Scan.finished, htext, led]
  | @cons c d rest hne htakes hsome hrest ih =>
    obtain ⟨joint, hjoint⟩ := Option.isSome_iff_exists.1 hsome
    have htext : c.text.toList ≠ [] := by simpa using hne
    have hsep : ∀ c ∈ joint.text.toList, isSeparator c = true := by
      rw [← List.all_eq_true]
      cases joint <;> decide
    have hnonempty : joint.text.toList ≠ [] := by
      cases joint <;> decide
    rw [toList_join_cons_cons rest hjoint, htakes { combinator := k } _ rfl,
      Scan.compounds_separator rfl hnonempty hsep, past_text _ (by simpa using htext)]
    have hnext := ih (some joint)
    rw [hnext]
    simp [Scan.finished, htext, led, ← hjoint]

/-- Exactly the legible compounds are read back. -/
theorem compounds_join_iff {cs : List Compound} :
    compounds (join cs) = led none cs ↔ Legible cs := by
  constructor
  · intro heq
    have hlegible := legible_compounds (join cs)
    rw [heq] at hlegible
    exact (Legible.led_iff none).1 hlegible
  · intro h
    exact h.compounds_join none

theorem legible_singleton_iff {c : Compound} :
    Legible [c] ↔ compounds c.text = [⟨none, c.text⟩] := by
  rw [← compounds_join_iff]
  simp [join, led]

/-- One compound is legible if it is not empty and has no separator in it. -/
theorem legible_singleton_iff_solid {c : Compound} :
    Legible [c] ↔ c.text ≠ "" ∧ Within.Solid {} c.text.toList := by
  constructor
  · intro h
    refine ⟨h.text_ne_empty c (by simp), ?_⟩
    -- all of its characters are in the one compound
    have hkept := Scan.flatMap_text_compounds {} c.text.toList
    have hone : Scan.compounds {} c.text.toList = [⟨none, c.text⟩] := legible_singleton_iff.1 h
    rw [hone] at hkept
    rw [← Within.kept_eq_self_iff]
    simpa [Scan.within] using hkept.symm
  · rintro ⟨hne, hsolid⟩
    refine .last hne fun s hopen => Scan.compounds_of_solid ?_
    obtain ⟨hquote, hdepth⟩ := Scan.isOpen_iff.1 hopen
    rwa [Scan.within, hquote, hdepth]

/-! ## Positions -/

namespace Within

/-- A character that changes nothing where it stands: no backslash, no quote and no bracket. -/
def IsInert (c : Char) : Prop :=
  c ≠ '\\' ∧ c ≠ '"' ∧ c ≠ '\'' ∧ c ≠ '(' ∧ c ≠ '[' ∧ c ≠ ')' ∧ c ≠ ']'

instance (c : Char) : Decidable (IsInert c) := inferInstanceAs (Decidable (_ ∧ _))

/-- Only the two quotes of paths open a quote. -/
def Proper (x : Within) : Prop := ∀ q ∈ x.quote, q = '"' ∨ q = '\''

variable {x : Within}

theorem Proper.next (h : x.Proper) (c : Char) : (x.next c).Proper := by
  obtain ⟨depth, quote, escaped⟩ := x
  unfold Within.next
  cases quote with
  | some q =>
    dsimp only
    split_ifs
    · exact h
    · exact h
    · simp [Proper]
    · exact h
  | none =>
    dsimp only
    split_ifs with _ _ hquote
    · simp [Proper]
    · simp [Proper]
    · simpa [Proper] using hquote
    · simp [Proper]
    · simp [Proper]
    · simp [Proper]

/-- Characters that open and close nothing change nothing. -/
theorem through_inert (hx : x.Proper) (hopen : x.escaped = false) {cs : List Char}
    (hcs : ∀ c ∈ cs, IsInert c) : x.through cs = x := by
  induction cs with
  | nil => rfl
  | cons c cs ih =>
    obtain ⟨⟨hback, hdouble, hsingle, hround, hsquare, hround', hsquare'⟩, hcs⟩ :=
      List.forall_mem_cons.1 hcs
    have hnext : x.next c = x := by
      unfold Within.next
      cases hquote : x.quote with
      | none => simp [hopen, hback, hdouble, hsingle, hround, hsquare, hround', hsquare']
      | some q =>
        have hne : c ≠ q := by
          rcases hx q hquote with rfl | rfl
          · exact hdouble
          · exact hsingle
        simp [hopen, hback, hne]
    rw [through_cons, hnext, ih hcs]

/-- The brackets of a position close again. -/
theorem through_position (hx : x.Proper) (hopen : x.escaped = false) {digits : List Char}
    (hdigits : ∀ c ∈ digits, Text.isDigit c = true) :
    x.through (positionOpening ++ (digits ++ [')'])) = x := by
  have hsplit : positionOpening = ":nth-of-type".toList ++ ['('] := by decide
  have hname : ∀ c ∈ ":nth-of-type".toList, IsInert c := List.all_iff_forall_prop.1 (by decide)
  have hinert : ∀ c ∈ digits, IsInert c := by
    intro c hc
    have hdigit := hdigits c hc
    refine ⟨?_, ?_, ?_, ?_, ?_, ?_, ?_⟩ <;>
    · rintro rfl
      exact absurd hdigit (by decide)
  have hopening : (x.next '(').Proper ∧ (x.next '(').escaped = false := by
    refine ⟨hx.next '(', ?_⟩
    unfold Within.next
    cases x.quote with
    | none => simp [hopen]
    | some q =>
      simp only [hopen, Bool.false_eq_true, if_false]
      split_ifs <;> simp_all
  have hclosing : (x.next '(').next ')' = x := by
    obtain ⟨depth, quote, escaped⟩ := x
    obtain rfl : escaped = false := hopen
    cases quote with
    | none => simp [Within.next]
    | some q =>
      rcases hx q rfl with rfl | rfl
      · simp [Within.next]
      · simp [Within.next]
  rw [hsplit, through_append, through_append, through_append, through_inert hx hopen hname]
  simp only [through_cons, through_nil]
  rw [through_inert hopening.1 hopening.2 hinert, hclosing]

end Within

theorem exists_of_afterPosition? {cs left : List Char} (h : afterPosition? cs = some left) :
    ∃ digits, cs = positionOpening ++ (digits ++ [')']) ++ left
      ∧ ∀ c ∈ digits, Text.isDigit c = true := by
  unfold afterPosition? at h
  dsimp only at h
  split at h
  · next hprefix =>
    obtain ⟨more, rfl⟩ := List.isPrefixOf_iff_prefix.1 hprefix
    rw [List.drop_left] at h
    split at h
    · next d ds left' htake hdrop =>
      obtain rfl := Option.some.inj h
      refine ⟨d :: ds, ?_, ?_⟩
      · have hwhole := List.takeWhile_append_dropWhile (p := Text.isDigit) (l := more)
        rw [htake, hdrop] at hwhole
        simp [← hwhole]
      · intro c hc
        rw [← htake] at hc
        exact List.mem_takeWhile_imp hc
    · simp at h
  · simp at h

/-- **Without its positions** a text is as solid as with them, unless one of them stands behind a
backslash: its brackets close again, so what is behind it stands where it stood before. -/
theorem solid_dropPositions {x : Within} (hx : x.Proper) {cs : List Char}
    (hfirst : x.escaped = true → ¬positionOpening <+: cs)
    (hcs : ¬('\\' :: positionOpening) <:+: cs) (h : x.Solid cs) : x.Solid (dropPositions cs) := by
  induction cs using dropPositions.induct generalizing x with
  | case1 cs left hleft ih =>
    obtain ⟨digits, rfl, hdigits⟩ := exists_of_afterPosition? hleft
    have hprefix : positionOpening <+: positionOpening ++ (digits ++ [')']) ++ left := by
      rw [List.append_assoc]
      exact List.prefix_append _ _
    have hopen : x.escaped = false := by
      by_contra hescaped
      exact hfirst (by simpa using hescaped) hprefix
    have hsolid := (Within.solid_append.1 h).2
    rw [Within.through_position hx hopen hdigits] at hsolid
    have hdrop : dropPositions (positionOpening ++ (digits ++ [')']) ++ left)
        = dropPositions left := by
      rw [dropPositions]
      split
      · next left' heq => rw [Option.some.inj (hleft.symm.trans heq)]
      · next heq =>
        rw [hleft] at heq
        simp at heq
    rw [hdrop]
    apply ih hx
    · simp [hopen]
    · intro hpiece
      exact hcs (hpiece.trans (List.suffix_append _ _).isInfix)
    · exact hsolid
  | case2 => simpa [dropPositions] using h
  | case3 c rest hnone ih =>
    have hdrop : dropPositions (c :: rest) = c :: dropPositions rest := by
      rw [dropPositions]
      split
      · next heq => simp [hnone] at heq
      · rfl
    rw [hdrop]
    refine ⟨h.1, ih (hx.next c) ?_ ?_ h.2⟩
    · -- only a backslash escapes what is behind it
      intro hescaped hprefix
      have hback : c = '\\' := by
        by_contra hback
        unfold Within.next at hescaped
        cases hquote : x.quote <;> simp_all <;> split_ifs at hescaped <;> simp_all
      exact hcs (hback ▸ (List.cons_prefix_cons.2 ⟨rfl, hprefix⟩).isInfix)
    · intro hpiece
      exact hcs (hpiece.trans (List.suffix_cons c rest).isInfix)

/-! ## The row in a path -/

/-- The two parts into which a path is split at its row are read back. -/
structure ReadBack (path : String) (direct : Bool) (split : Option String × String) : Prop where
  /-- The path within the row is read as the compounds behind the row. -/
  within : ∃ inner, inner <:+ compounds path ∧ split.2 = join inner
    ∧ compounds split.2 = led none inner
  /-- The selector for the rows is read as the compounds down to the row, exactly if the row without
  its positions is still one compound; that is, if anything is left of it, unless a position in it
  stands behind a backslash. -/
  rows : ∀ rows ∈ split.1, rows = tableRows ∨ ∃ outer row inner found,
    compounds path = outer ++ row :: inner
      ∧ found = ⟨none, ":scope"⟩ :: led (some (if direct then .child else .descendant))
        (outer ++ [row.withoutPosition])
      ∧ rows = join found
      ∧ (compounds rows = found
        ↔ compounds row.withoutPosition.text = [⟨none, row.withoutPosition.text⟩])
      ∧ (¬('\\' :: positionOpening) <:+: row.text.toList →
        (compounds rows = found ↔ row.withoutPosition.text ≠ ""))

theorem join_cons_led (c : Compound) (k : Combinator) {cs : List Compound} (hne : cs ≠ []) :
    join (c :: led (some k) cs) = c.text ++ k.text ++ join cs := by
  obtain ⟨d, rest, rfl⟩ := List.exists_cons_of_ne_nil hne
  simp [join, led, Compound.continued, String.append_assoc]

/-- The scope in front can be read off again, and so it does not matter. -/
theorem legible_scope_iff {k : Combinator} {cs : List Compound} (hne : cs ≠ []) :
    Legible (⟨none, ":scope"⟩ :: led (some k) cs) ↔ Legible cs := by
  obtain ⟨d, rest, rfl⟩ := List.exists_cons_of_ne_nil hne
  constructor
  · intro h
    exact (Legible.led_iff (some k)).1 (Legible.tail h)
  · intro h
    have hplain : ∀ c ∈ ":scope".toList, Scan.IsPlain c := List.all_iff_forall_prop.1 (by decide)
    exact .cons (by decide) (Scan.takes_plain hplain) rfl ((Legible.led_iff (some k)).2 h)

/-- The row without its positions, where it stands. -/
theorem readBack_row {path : String} {outer inner found : List Compound} {row : Compound}
    {k : Combinator} (hsplit : compounds path = outer ++ row :: inner)
    (hfound : found = ⟨none, ":scope"⟩ :: led (some k) (outer ++ [row.withoutPosition])) :
    (compounds (join found) = found
        ↔ compounds row.withoutPosition.text = [⟨none, row.withoutPosition.text⟩])
      ∧ (¬('\\' :: positionOpening) <:+: row.text.toList →
        (compounds (join found) = found ↔ row.withoutPosition.text ≠ "")) := by
  have hlegible := legible_compounds path
  rw [hsplit] at hlegible
  have hiff : compounds (join found) = found ↔ Legible [row.withoutPosition] := by
    have hled : led none found = found := by rw [hfound, led]
    rw [← hlegible.concat_iff (c := row.withoutPosition) rfl,
      ← legible_scope_iff (k := k) (by simp), ← hfound, ← compounds_join_iff, hled]
  refine ⟨hiff.trans legible_singleton_iff, fun hpositions => ?_⟩
  have hrow : Legible [row] := (Legible.right hlegible).head
  have hproper : Within.Proper {} := by simp [Within.Proper]
  have hsolid : Within.Solid {} row.withoutPosition.text.toList := by
    have hwhole := (legible_singleton_iff_solid.1 hrow).2
    have hdrop := solid_dropPositions hproper (by simp) hpositions hwhole
    rwa [Compound.withoutPosition, String.toList_ofList]
  rw [hiff, legible_singleton_iff_solid, and_iff_left hsolid]

/-- **What a path is split into is read back.** -/
theorem readBack_splitRow (path : String) (direct : Bool) :
    ReadBack path direct (splitRow path direct) := by
  have hlegible := legible_compounds path
  -- whatever is behind the row is read back
  have hwithin : ∀ {inner : List Compound} {within : String}, inner <:+ compounds path →
      within = join inner → ∃ inner, inner <:+ compounds path ∧ within = join inner
        ∧ compounds within = led none inner := by
    rintro inner within hsuffix rfl
    exact ⟨inner, hsuffix, rfl, compounds_join_iff.2 (hlegible.of_infix hsuffix.isInfix)⟩
  unfold splitRow
  cases hall : compounds path with
  | nil => exact ⟨hwithin (List.nil_suffix) rfl, by simp⟩
  | cons first rest =>
    dsimp only
    cases hbehind : behindTableRow? (first :: rest) with
    | some inner =>
      obtain ⟨outer, row, hsplit, -⟩ := behindTableRow?_eq_some hbehind
      have hsuffix : inner <:+ compounds path := by
        rw [hall, hsplit]
        exact (List.suffix_cons row inner).trans (List.suffix_append outer _)
      exact ⟨hwithin hsuffix rfl, by simp⟩
    | none =>
      dsimp only
      split
      · next hsingle =>
        have hrest : rest = [] := by simp_all
        have hfirst : first.text = join [first] := by simp [join]
        have hsuffix : [first] <:+ compounds path := by simp [hall, hrest]
        exact ⟨hwithin hsuffix hfirst, by simp⟩
      · obtain ⟨outer, row, inner, hat, hsplit, -⟩ := splitAtRow_spec first rest
        rw [← hall] at hsplit
        have hsuffix : inner <:+ compounds path := by
          rw [hsplit]
          exact (List.suffix_cons row inner).trans (List.suffix_append outer _)
        rw [hat]
        refine ⟨hwithin hsuffix rfl, ?_⟩
        rintro rows ⟨⟩
        refine .inr ⟨outer, row, inner, _, hsplit, rfl, ?_⟩
        rw [← join_cons_led ⟨none, ":scope"⟩ (if direct then .child else .descendant) (by simp)]
        exact ⟨rfl, readBack_row hsplit rfl⟩

/-- **The compounds are a lossless normal form of the path**, whatever text it is. None of them is
empty; together they have all its characters but those that separate compounds where they stand; put
together again they are read as the same compounds, but for a combinator in front of the first one,
and so is any row of them. With the parts into which a path is split at its row it is the same. -/
theorem compounds_lossless (path : String) :
    (∀ c ∈ compounds path, c.text ≠ "")
      ∧ String.join ((compounds path).map Compound.text) = withoutSeparators path
      ∧ compounds (join (compounds path)) = led none (compounds path)
      ∧ (∀ piece, piece <:+: compounds path → compounds (join piece) = led none piece)
      ∧ ∀ direct, ReadBack path direct (splitRow path direct) := by
  have hlegible := legible_compounds path
  refine ⟨hlegible.text_ne_empty, ?_, compounds_join_iff.2 hlegible, ?_, readBack_splitRow path⟩
  · have hkept := Scan.flatMap_text_compounds {} path.toList
    rw [← String.toList_inj, String.toList_join, List.flatMap_map, withoutSeparators,
      String.toList_ofList]
    exact hkept
  · intro piece hpiece
    exact compounds_join_iff.2 (hlegible.of_infix hpiece)

/-- A path with a quote that is not closed, brackets that do not match, and a combinator in front.
In the quote and behind the bracket nothing is separated. -/
example : compounds "> a) b > c \"d > e" = [⟨some .child, "a) b > c \"d > e"⟩]
    ∧ compounds "a [b > c \\" = [⟨none, "a"⟩, ⟨some .descendant, "[b > c \\"⟩] := by
  decide +kernel

end Retrace.Path
