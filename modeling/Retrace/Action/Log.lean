/-
The log of recorded actions.

The order of the log is the order of execution, and nothing reorders it. A log grows at its end
only: an edit may replace the edits of the same element that stand right before it, and a new
action is never older than the one before it.
-/
import Retrace.Action.Basic

set_option autoImplicit false

namespace Retrace

/-- The place that a number denotes in a list of the given size: from zero at the front, or from -1
at the back. A number that denotes none gives the size, which is no place. -/
def placeOf (size : Nat) (index : Int) : Nat :=
  if 0 ≤ index then min index.toNat size
  else if (-index).toNat ≤ size then size - (-index).toNat
  else size

/-- The actions recorded so far, oldest first, and the address at which recording began. The
address is a value of the same sort as the values of the actions. -/
structure Log (α : Type) where
  baseUrl : α
  actions : List (Action α) := []

/-- An action without a locator cannot be recorded. -/
structure MissingLocator where
  kind : Kind
  deriving Repr, DecidableEq

def MissingLocator.message (e : MissingLocator) : String :=
  "Cannot record " ++ Text.quoted e.kind.name ++ " action without a locator"

namespace Log

variable {α β : Type}

def size (log : Log α) : Nat := log.actions.length

def last? (log : Log α) : Option (Action α) := log.actions.getLast?

/-- The action at a place that is counted from either end. -/
def get? (log : Log α) (index : Int) : Option (Action α) :=
  log.actions[placeOf log.size index]?

def map (f : α → β) (log : Log α) : Log β :=
  { baseUrl := f log.baseUrl, actions := log.actions.map (·.map f) }

/-! ## Growing -/

/-- The actions without the ones at the end that do the same as `a`. -/
def dropEdits (a : Action α) (actions : List (Action α)) : List (Action α) :=
  (actions.reverse.dropWhile (·.sameTarget a)).reverse

/-- The action, made no older than the latest one of the list. -/
def notBefore (actions : List (Action α)) (a : Action α) : Action α :=
  match actions.getLast? with
  | some latest =>
    if a.timestamp < latest.timestamp then { a with timestamp := latest.timestamp } else a
  | none => a

/-- What an action is added to: all of the list, or, for an edit, the list without the edits that
it replaces. -/
def kept (coalesce : Bool) (a : Action α) (actions : List (Action α)) : List (Action α) :=
  if coalesce then dropEdits a actions else actions

/-- The entry that is stored for an action. -/
def entry (log : Log α) (a : Action α) (coalesce : Bool) : Action α :=
  notBefore (kept coalesce a log.actions) a

/-- The log with an action added at its end. -/
def push (log : Log α) (a : Action α) (coalesce : Bool) : Log α :=
  { log with actions := kept coalesce a log.actions ++ [log.entry a coalesce] }

/-- Adds an action, which must have a locator, and hands back the entry that was stored. -/
def append (log : Log α) (a : Action α) (coalesce : Bool := false) :
    Except MissingLocator (Log α × Action α) :=
  if a.locator = "" then .error ⟨a.kind⟩ else .ok (log.push a coalesce, log.entry a coalesce)

/-- A log of the actions, each appended in turn. -/
def ofActions (actions : List (Action α)) (baseUrl : α) : Except MissingLocator (Log α) :=
  actions.foldlM (fun log a => (·.1) <$> log.append a) { baseUrl }

/-- The log without its actions, and with another address. -/
def clear (log : Log α) (baseUrl : α) : Log α := { log with baseUrl, actions := [] }

/-! ## What an append does -/

/-- Dropping edits takes actions off the end only. -/
theorem dropEdits_prefix (a : Action α) (actions : List (Action α)) :
    dropEdits a actions <+: actions := by
  have h := List.dropWhile_suffix (·.sameTarget a) (l := actions.reverse)
  simpa [dropEdits] using List.reverse_prefix.2 h

/-- An append fails exactly for want of a locator. -/
theorem append_eq_error_iff {log : Log α} {a : Action α} {coalesce : Bool} {e : MissingLocator} :
    log.append a coalesce = .error e ↔ a.locator = "" ∧ e = ⟨a.kind⟩ := by
  unfold append
  split
  · next h => exact ⟨fun he => ⟨h, (Except.error.inj he).symm⟩, fun he => by rw [he.2]⟩
  · next h => simp [h]

end Log

end Retrace
