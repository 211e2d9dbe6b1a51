/-
Edits in a log.

Typing and choosing are edits: an edit is appended in place of the edits of the same element that
stand at the end of the log, and everything else is appended behind what there is (`Grown`). So two
edits of one element never stand side by side (`Merged`), and all other actions stay where they are
(`Grown.getElem?_eq`). An edit that comes again replaces itself: a log with both is the log with the
later one alone (`push_push`).
-/
import Mathlib.Data.List.Chain
import Mathlib.Data.List.DropRight
import Mathlib.Data.List.TakeWhile
import Retrace.Proofs.Action.Bounds

set_option autoImplicit false

namespace Retrace

variable {α : Type}

/-- Is an action of this kind appended in place of earlier ones on the same element? -/
def Kind.isEdit : Kind → Bool
  | .input | .select => true
  | .click | .label | .tableLoopStart | .tableLoopEnd | .tablePaginationNext => false

theorem Kind.isEdit_of_isBoundary {kind : Kind} (h : kind.isBoundary = true) :
    kind.isEdit = false := by
  cases kind <;> first | rfl | exact absurd h (by decide)

theorem Action.sameTarget_iff {a b : Action α} :
    a.sameTarget b = true ↔ a.kind = b.kind ∧ a.locator = b.locator := by
  simp [sameTarget]

namespace Log

/-- What can become of the actions of a log in one step. -/
inductive Grown (before : List (Action α)) : List (Action α) → Prop where
  | same : Grown before before
  /-- An action that is no edit comes behind what there is. -/
  | added (a : Action α) (hkind : a.kind.isEdit = false) : Grown before (before ++ [a])
  /-- An edit comes in place of all edits of the same sort and element at the end, if there are
  any. -/
  | edited (kept removed : List (Action α)) (a : Action α) (hkind : a.kind.isEdit = true)
      (hbefore : before = kept ++ removed)
      (hremoved : ∀ b ∈ removed, b.kind = a.kind ∧ b.locator = a.locator)
      (hkept : ∀ b ∈ kept.getLast?, ¬ (b.kind = a.kind ∧ b.locator = a.locator)) :
      Grown before (kept ++ [a])

/-- No two neighbours are edits of the same sort and element. -/
def Merged (actions : List (Action α)) : Prop :=
  actions.IsChain fun a b =>
    ¬ (a.kind.isEdit = true ∧ a.kind = b.kind ∧ a.locator = b.locator)

/-- The logs have the same address and the same actions, but for the time of the last one. -/
def SameButTime (l l' : Log α) : Prop :=
  l'.baseUrl = l.baseUrl ∧ (l'.actions = l.actions ∨ ∃ before a timestamp,
    l.actions = before ++ [a] ∧ l'.actions = before ++ [{ a with timestamp }])

theorem SameButTime.refl (l : Log α) : SameButTime l l := ⟨rfl, .inl rfl⟩

/-! ## Growing -/

section Grown

variable {before after : List (Action α)}

/-- **What is no edit stays where it is**, and as it is. -/
theorem Grown.getElem?_eq (h : Grown before after) {i : Nat} {a : Action α}
    (hi : before[i]? = some a) (hkind : a.kind.isEdit = false) : after[i]? = some a := by
  obtain ⟨hlt, -⟩ := List.getElem?_eq_some_iff.1 hi
  cases h with
  | same => exact hi
  | added b _ => rw [List.getElem?_append_left hlt, hi]
  | edited kept removed b hb hbefore hremoved _ =>
    subst hbefore
    by_cases hkept : i < kept.length
    · rw [List.getElem?_append_left hkept] at hi ⊢
      exact hi
    · -- what is removed is an edit
      rw [List.getElem?_append_right (by omega)] at hi
      obtain ⟨hsame, -⟩ := hremoved a (List.mem_of_getElem? hi)
      rw [hsame, hb] at hkind
      simp at hkind

theorem Grown.merged (h : Grown before after) (hbefore : Merged before) : Merged after := by
  cases h with
  | same => exact hbefore
  | added a hkind =>
    refine List.isChain_append.2 ⟨hbefore, .singleton a, ?_⟩
    rintro b - c hc ⟨hedit, hsame, -⟩
    obtain rfl : a = c := by simpa using hc
    simp [hsame, hkind] at hedit
  | edited kept removed a _ hsplit _ hkept =>
    subst hsplit
    refine List.isChain_append.2 ⟨List.IsChain.left_of_append hbefore, .singleton a, ?_⟩
    rintro b hb c hc ⟨-, hsame⟩
    obtain rfl : a = c := by simpa using hc
    exact hkept b hb hsame

end Grown

/-! ## Appends -/

/-- The edits that are dropped are those at the end, and all of them. -/
theorem dropEdits_spec (a : Action α) (actions : List (Action α)) :
    ∃ removed, actions = dropEdits a actions ++ removed
      ∧ (∀ b ∈ removed, b.sameTarget a = true)
      ∧ ∀ b ∈ (dropEdits a actions).getLast?, b.sameTarget a = false := by
  refine ⟨(actions.reverse.takeWhile (·.sameTarget a)).reverse, ?_, ?_, ?_⟩
  · rw [dropEdits, ← List.reverse_append, List.takeWhile_append_dropWhile, List.reverse_reverse]
  · intro b hb
    have hsame := List.mem_takeWhile_imp (List.mem_reverse.1 hb)
    exact hsame
  · intro b hb
    rw [dropEdits, List.getLast?_reverse] at hb
    have hhead := List.head?_dropWhile_not (·.sameTarget a) actions.reverse
    rw [Option.mem_def.1 hb] at hhead
    simpa using hhead

/-- **An append.** Edits, and only edits, are appended as such. -/
theorem grown_push (log : Log α) {a : Action α} {coalesce : Bool} (h : coalesce = a.kind.isEdit) :
    Grown log.actions (log.push a coalesce).actions := by
  obtain ⟨timestamp, hentry⟩ := log.exists_entry_eq a coalesce
  rw [push, hentry]
  cases hkind : a.kind.isEdit with
  | false =>
    rw [h, hkind]
    exact .added _ hkind
  | true =>
    obtain ⟨removed, hsplit, hremoved, hlast⟩ := dropEdits_spec a log.actions
    rw [h, hkind]
    refine .edited (dropEdits a log.actions) removed _ hkind hsplit ?_ ?_
    · intro b hb
      exact Action.sameTarget_iff.1 (hremoved b hb)
    · intro b hb hsame
      have htrue : b.sameTarget a = true := Action.sameTarget_iff.2 hsame
      rw [hlast b hb] at htrue
      simp at htrue

/-- Dropping is over once the last action is another one. -/
theorem dropEdits_append_singleton {a b : Action α} (h : b.sameTarget a = true)
    (actions : List (Action α)) : dropEdits a (actions ++ [b]) = dropEdits a actions := by
  simp [dropEdits, h]

theorem dropEdits_append_of_not_sameTarget {a b : Action α} (h : b.sameTarget a = false)
    (actions : List (Action α)) : dropEdits a (actions ++ [b]) = actions ++ [b] := by
  simp [dropEdits, h]

/-- What was kept for an action on the same target is as good as all of the list. -/
theorem dropEdits_kept {a b : Action α} (h : ∀ c : Action α, c.sameTarget b = c.sameTarget a)
    (coalesce : Bool) (actions : List (Action α)) :
    dropEdits b (kept coalesce a actions) = dropEdits b actions := by
  cases coalesce with
  | false => rfl
  | true =>
    have hsame : (fun c : Action α => c.sameTarget b) = fun c => c.sameTarget a := funext h
    rw [kept, if_pos rfl, dropEdits, dropEdits, dropEdits, List.reverse_reverse, hsame,
      List.dropWhile_idempotent]

/-- **An edit replaces itself.** Of two actions of the same sort and element, the later of which is
appended as an edit, the log holds the later one, as if it had come alone. -/
theorem push_push (log : Log α) {a b : Action α} (h : a.kind = b.kind ∧ a.locator = b.locator)
    (coalesce : Bool) : (log.push a coalesce).push b true = log.push b true := by
  obtain ⟨timestamp, hentry⟩ := log.exists_entry_eq a coalesce
  have hsame : ∀ c : Action α, c.sameTarget b = c.sameTarget a := by
    intro c
    rw [Action.sameTarget, Action.sameTarget, h.1, h.2]
  have hkept : kept true b (log.push a coalesce).actions = kept true b log.actions := by
    have hlast : (log.entry a coalesce).sameTarget b = true := by
      rw [hentry]
      exact Action.sameTarget_iff.2 h
    rw [kept, if_pos rfl, push, dropEdits_append_singleton hlast, dropEdits_kept hsame, kept,
      if_pos rfl]
  rw [push, entry, hkept]
  rfl

/-- The same edit at two times makes the same log, up to these times. -/
theorem sameButTime_push (log : Log α) (a : Action α) (timestamp : Float) :
    SameButTime (log.push a true) (log.push { a with timestamp } true) := by
  obtain ⟨first, hfirst⟩ := log.exists_entry_eq a true
  obtain ⟨second, hsecond⟩ := log.exists_entry_eq { a with timestamp } true
  refine ⟨rfl, .inr ⟨kept true a log.actions, { a with timestamp := first }, second, ?_, ?_⟩⟩
  · rw [push, hfirst]
  · rw [push, hsecond]
    rfl

end Log

end Retrace
