/-
What one append does to a log, and what a row of edits comes to.

An edit that is appended takes the place of the actions on the same target that stand at the end of
the log, whether these came as edits or not. So a row of actions on one target that ends with an
edit comes to that edit alone, to the letter: the time of the last action is measured against what
stays in the log and not against what it replaces (`appendAll_bind_append`).

In place, an append looks at the locator, takes edits off the end, and then adds the action. Its
result is that of the append as a function, and where it fails, it has not touched the log
(`run_appendInPlace`).
-/
import Retrace.Proofs.Action.Edits

set_option autoImplicit false

namespace Retrace.Log

variable {α : Type}

/-! ## In place -/

/-- Work on a log in place. What was done to the log before a failure stays done. -/
abbrev InPlace (α β : Type) := ExceptT MissingLocator (StateM (Log α)) β

/-- Takes actions off the end, one by one, as long as they do the same as `a`. -/
def popEdits (a : Action α) (actions : List (Action α)) : List (Action α) :=
  match _h : actions.getLast? with
  | some last => if last.sameTarget a then popEdits a actions.dropLast else actions
  | none => actions
termination_by actions.length
decreasing_by
  have hne : actions ≠ [] := by
    rintro rfl
    simp at _h
  rw [List.length_dropLast]
  exact Nat.sub_lt (List.length_pos_iff.2 hne) Nat.one_pos

/-- An append, step by step. -/
def appendInPlace (a : Action α) (coalesce : Bool) : InPlace α (Action α) := do
  if a.locator = "" then throw ⟨a.kind⟩
  if coalesce then
    modify fun log => { log with actions := popEdits a log.actions }
  let log ← get
  -- the time is measured against the action that is the last one now
  let stored := notBefore log.actions a
  set { log with actions := log.actions ++ [stored] }
  return stored

/-- **The loop.** It ends where the actions that do the same as `a` begin. The induction is on the
actions, from their end. -/
theorem popEdits_eq_dropEdits (a : Action α) (actions : List (Action α)) :
    popEdits a actions = dropEdits a actions := by
  induction actions using List.reverseRecOn with
  | nil =>
    rw [popEdits]
    rfl
  | append_singleton actions last ih =>
    rw [popEdits, List.getLast?_concat, List.dropLast_concat]
    dsimp only
    by_cases hsame : last.sameTarget a = true
    · rw [if_pos hsame, ih, dropEdits_append_singleton hsame]
    · rw [if_neg hsame, dropEdits_append_of_not_sameTarget (by simpa using hsame)]

/-- **An append in place** has the result of the append as a function. Where there is none, the log
is as it was. -/
theorem run_appendInPlace (log : Log α) (a : Action α) (coalesce : Bool) :
    (appendInPlace a coalesce).run.run log =
      match log.append a coalesce with
      | .ok (log', stored) => (.ok stored, log')
      | .error e => (.error e, log) := by
  unfold appendInPlace append
  by_cases ha : a.locator = ""
  · simp only [ha, if_true]
    rfl
  · simp only [ha, if_false]
    cases coalesce with
    | false => rfl
    | true =>
      have hpop : ∀ actions : List (Action α), popEdits a actions = kept true a actions :=
        popEdits_eq_dropEdits a
      simp only [hpop]
      rfl

/-! ## One append -/

/-- The new action as it is stored behind others: as it is, unless the last of them is later. -/
structure StoredBehind (before : List (Action α)) (a stored : Action α) : Prop where
  same : (∀ latest ∈ before.getLast?, ¬ a.timestamp < latest.timestamp) → stored = a
  later : ∀ latest ∈ before.getLast?, a.timestamp < latest.timestamp →
    stored = { a with timestamp := latest.timestamp }

theorem storedBehind_notBefore (before : List (Action α)) (a : Action α) :
    StoredBehind before a (notBefore before a) := by
  unfold notBefore
  cases hlast : before.getLast? with
  | none => exact ⟨fun _ => rfl, by simp [hlast]⟩
  | some latest =>
    refine ⟨fun h => if_neg (h latest hlast), ?_⟩
    rintro latest' hlatest hlt
    obtain rfl : latest = latest' := Option.some.inj (hlast.symm.trans hlatest)
    exact if_pos hlt

theorem append_of_located (log : Log α) {a : Action α} (ha : a.locator ≠ "") (coalesce : Bool) :
    log.append a coalesce = .ok (log.push a coalesce, log.entry a coalesce) :=
  if_neg ha

/-! ## Rows of edits -/

/-- An edit is stored behind what it does not replace, so it makes no difference to its entry
whether there are others on its target. -/
theorem entry_push (log : Log α) {a b : Action α} (h : a.kind = b.kind ∧ a.locator = b.locator)
    (coalesce : Bool) : (log.push a coalesce).entry b true = log.entry b true := by
  have hlast : ∀ l : Log α, (l.push b true).actions.getLast? = some (l.entry b true) :=
    fun l => List.getLast?_concat
  rw [← Option.some_inj, ← hlast, ← hlast, push_push log h coalesce]

/-- **Two appends.** An action and then an edit on its target come to the edit. -/
theorem append_bind_append (log : Log α) {a b : Action α}
    (h : a.kind = b.kind ∧ a.locator = b.locator) (hb : b.locator ≠ "") (coalesce : Bool) :
    (log.append a coalesce >>= fun (log, _) => log.append b true) = log.append b true := by
  have ha : a.locator ≠ "" := by rwa [h.2]
  rw [append_of_located log ha, append_of_located log hb, ← push_push log h coalesce,
    ← entry_push log h coalesce]
  exact append_of_located _ hb true

/-- A row of actions, each appended as told. -/
def appendAll (log : Log α) (edits : List (Action α × Bool)) : Except MissingLocator (Log α) :=
  edits.foldlM (fun log e => (·.1) <$> log.append e.1 e.2) log

/-- **A row of edits** comes to its last one. The induction is on the row, from its beginning. -/
theorem appendAll_bind_append (log : Log α) {edits : List (Action α × Bool)} {b : Action α}
    (h : ∀ e ∈ edits, e.1.kind = b.kind ∧ e.1.locator = b.locator) (hb : b.locator ≠ "") :
    (log.appendAll edits >>= fun log => log.append b true) = log.append b true := by
  induction edits generalizing log with
  | nil => rfl
  | cons e rest ih =>
    obtain ⟨hfirst, hrest⟩ := List.forall_mem_cons.1 h
    calc (log.appendAll (e :: rest) >>= fun log => log.append b true)
        = (log.append e.1 e.2 >>= fun (log, _) =>
            log.appendAll rest >>= fun log => log.append b true) := by
          simp only [appendAll, List.foldlM_cons, bind_assoc, map_eq_pure_bind, pure_bind]
      _ = (log.append e.1 e.2 >>= fun (log, _) => log.append b true) := by
          simp only [ih _ hrest]
      _ = log.append b true := append_bind_append log hfirst hb e.2

/-! ## The whole -/

/-- What appends do to a log. -/
structure Absorbing (log : Log α) : Prop where
  /-- An action and then an edit on its target come to the edit. -/
  twice : ∀ (a b : Action α) (coalesce : Bool), a.kind = b.kind → a.locator = b.locator →
    b.locator ≠ "" →
    (log.append a coalesce >>= fun (log, _) => log.append b true) = log.append b true
  /-- So does any row of actions on that target. -/
  row : ∀ (edits : List (Action α × Bool)) (b : Action α),
    (∀ e ∈ edits, e.1.kind = b.kind ∧ e.1.locator = b.locator) → b.locator ≠ "" →
    (log.appendAll edits >>= fun log => log.append b true) = log.append b true
  /-- An edit comes in place of the actions on its target at the end, and behind all others. -/
  edited : ∀ b : Action α, b.locator ≠ "" → ∃ kept removed stored,
    log.actions = kept ++ removed
      ∧ (∀ c ∈ removed, c.kind = b.kind ∧ c.locator = b.locator)
      ∧ (∀ c ∈ kept.getLast?, ¬ (c.kind = b.kind ∧ c.locator = b.locator))
      ∧ StoredBehind kept b stored
      ∧ log.append b true = .ok ({ log with actions := kept ++ [stored] }, stored)
  /-- Any other action comes behind all that there is. -/
  added : ∀ a : Action α, a.locator ≠ "" → ∃ stored, StoredBehind log.actions a stored
    ∧ log.append a false = .ok ({ log with actions := log.actions ++ [stored] }, stored)
  /-- In place, an append does the same. -/
  inPlace : ∀ (a : Action α) (coalesce : Bool), a.locator ≠ "" → ∃ log' stored,
    log.append a coalesce = .ok (log', stored)
      ∧ (appendInPlace a coalesce).run.run log = (.ok stored, log')
  /-- Without a locator it fails, and the log is as it was. -/
  refused : ∀ (a : Action α) (coalesce : Bool), a.locator = "" →
    log.append a coalesce = .error ⟨a.kind⟩
      ∧ (appendInPlace a coalesce).run.run log = (.error ⟨a.kind⟩, log)

/-- **Edits absorb what they repeat**, and appends touch nothing else. -/
theorem absorbing (log : Log α) : log.Absorbing where
  twice _ _ coalesce hkind hlocator hb := append_bind_append log ⟨hkind, hlocator⟩ hb coalesce
  row _ _ h hb := appendAll_bind_append log h hb
  edited b hb := by
    obtain ⟨removed, hsplit, hremoved, hkept⟩ := dropEdits_spec b log.actions
    refine ⟨dropEdits b log.actions, removed, log.entry b true, hsplit, ?_, ?_,
      storedBehind_notBefore _ b, append_of_located log hb true⟩
    · intro c hc
      exact Action.sameTarget_iff.1 (hremoved c hc)
    · intro c hc hsame
      have hdiffers := hkept c hc
      rw [Action.sameTarget_iff.2 hsame] at hdiffers
      exact Bool.false_ne_true hdiffers.symm
  added a ha := ⟨log.entry a false, storedBehind_notBefore _ a, append_of_located log ha false⟩
  inPlace a coalesce ha := by
    refine ⟨log.push a coalesce, log.entry a coalesce, append_of_located log ha coalesce, ?_⟩
    rw [run_appendInPlace, append_of_located log ha]
  refused a coalesce ha := by
    have herror : log.append a coalesce = .error ⟨a.kind⟩ := append_eq_error_iff.2 ⟨ha, rfl⟩
    exact ⟨herror, by rw [run_appendInPlace, herror]⟩

end Retrace.Log
