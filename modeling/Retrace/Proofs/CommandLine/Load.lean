/-
When a log is refused without a word.

A text that is no log is refused in words, which say what is wrong and where, and a command hands
these words on. Two kinds of text are refused without any: those that the reader of JSON gives up
on, since a number has too many digits or too many containers stand in one another, and those with
a timestamp that is a whole number too large for a double, behind records that are in order
(`Log.Exceeds`). There are no others (`exceeds_iff`).
-/
import Retrace.CommandLine.Report
import Retrace.Proofs.Decimal.Overflow
import Retrace.Proofs.Except

set_option autoImplicit false

namespace Retrace

/-! ## Limits -/

/-- The reader gives up on the text. -/
def Json.ReadError.IsLimit (e : Json.ReadError) : Prop :=
  e.fault = .tooManyDigits ∨ e.fault = .tooDeep

namespace Action

/-- The record is an action with a locator. -/
def IsAccepted (record : Json) : Prop := ∃ a, ofRecord record = .ok a ∧ a.locator ≠ ""

/-- All is in order with the record but its timestamp, which is too large for a double. -/
def Overflows : Json → Prop
  | .obj fields =>
    let fields := legacyNames.foldl modernize fields
    (∃ kind, readKind fields = .ok kind) ∧ (∃ s, fields.get? "locator" = some (.str s))
      ∧ ∃ n, fields.get? "timestamp" = some (.int n) ∧ Decimal.overflowBound ≤ n.natAbs
  | _ => False

end Action

namespace Log

/-- The records of a JSON value that is taken as a log. -/
def recordsOf : Json → List Json
  | .arr records => records
  | .obj fields =>
    match (Fields.get? fields "actions").getD (.arr []) with
    | .arr records => records
    | _ => []
  | _ => []

/-- The first of the records that is not accepted has a timestamp that is too large. -/
def BreaksOff (records : List Json) : Prop :=
  ∃ before r after, records = before ++ r :: after
    ∧ (∀ b ∈ before, Action.IsAccepted b) ∧ Action.Overflows r

/-- The text goes beyond a limit. -/
def Exceeds (text : String) : Prop :=
  match Json.read text with
  | .error why => why.IsLimit
  | .ok v => BreaksOff (recordsOf v)

end Log

/-! ## Records -/

namespace Action

theorem readTimestamp_eq_overflow_iff (fields : Fields) :
    readTimestamp fields = .error .timestampOverflow
      ↔ ∃ n, fields.get? "timestamp" = some (.int n) ∧ Decimal.overflowBound ≤ n.natAbs := by
  unfold readTimestamp
  cases hfound : fields.get? "timestamp" with
  | none => simp [Json.truthy]
  | some found =>
    cases found with
    | int n =>
      by_cases hn : n = 0
      · have hbound : 0 < Decimal.overflowBound := Nat.pos_of_ne_zero (by decide)
        simp [Json.truthy, hn, hbound.ne']
      · have hiff := Decimal.ofInt?_eq_none_iff n
        cases hx : Decimal.ofInt? n with
        | none => simpa [Json.truthy, hn, hx] using hiff.1 hx
        | some x => simpa [Json.truthy, hn, hx] using hiff
    -- any other value is refused in words, if at all
    | null | bool b | float x | str s | arr items | obj members =>
      refine iff_of_false ?_ (by simp)
      rw [Option.getD_some]
      dsimp only
      split
      · simp
      · first | simp | split <;> simp

theorem readKind_ne_overflow (fields : Fields) :
    readKind fields ≠ .error .timestampOverflow := by
  unfold readKind
  dsimp only
  split <;> simp

/-- **A record** is refused without a word only for its timestamp. -/
theorem ofRecord_eq_overflow_iff (record : Json) :
    ofRecord record = .error .timestampOverflow ↔ Overflows record := by
  cases record with
  | obj fields =>
    rw [ofRecord, Overflows]
    dsimp only
    generalize legacyNames.foldl modernize fields = fields
    rw [← readTimestamp_eq_overflow_iff]
    cases hkind : readKind fields with
    | error e =>
      have hne := readKind_ne_overflow fields
      rw [hkind] at hne
      simpa [bind, Except.bind] using hne
    | ok kind =>
      cases hlocator : fields.get? "locator" with
      | none => simp [bind, Except.bind, throw, throwThe, MonadExceptOf.throw]
      | some found =>
        cases found with
        | str s =>
          cases readTimestamp fields <;> simp [bind, Except.bind, pure, Except.pure]
        | null | bool b | int n | float x | arr items | obj members =>
          simp [bind, Except.bind, throw, throwThe, MonadExceptOf.throw]
  | null | bool b | int n | float x | str s | arr items => simp [ofRecord, Overflows]

end Action

namespace Log

open CommandLine (isBeyondRange)

@[simp] theorem not_breaksOff_nil : ¬ BreaksOff [] := by simp [BreaksOff]

theorem breaksOff_cons {r : Json} {rest : List Json} :
    BreaksOff (r :: rest) ↔ Action.Overflows r ∨ Action.IsAccepted r ∧ BreaksOff rest := by
  constructor
  · rintro ⟨before, x, after, heq, hbefore, hx⟩
    cases before with
    | nil =>
      obtain ⟨rfl, -⟩ := List.cons.inj heq
      exact .inl hx
    | cons b before =>
      obtain ⟨rfl, rfl⟩ := List.cons.inj heq
      obtain ⟨hr, hbefore⟩ := List.forall_mem_cons.1 hbefore
      exact .inr ⟨hr, before, x, after, rfl, hbefore, hx⟩
  · rintro (hr | ⟨hr, before, x, after, rfl, hbefore, hx⟩)
    · exact ⟨[], r, rest, rfl, by simp, hr⟩
    · exact ⟨r :: before, x, after, rfl, List.forall_mem_cons.2 ⟨hr, hbefore⟩, hx⟩

/-- **Records** are refused without a word only for the first one that is not accepted. The
induction is on the records. -/
theorem addRecords_beyondRange_iff (log : Log String) (index : Nat) (records : List Json) :
    (∃ why, addRecords log index records = .error why ∧ isBeyondRange why = true)
      ↔ BreaksOff records := by
  induction records generalizing log index with
  | nil => simp [addRecords]
  | cons r rest ih =>
    rw [breaksOff_cons, addRecords, ← Action.ofRecord_eq_overflow_iff, Action.IsAccepted]
    cases hr : Action.ofRecord r with
    | error why => cases why <;> simp [isBeyondRange]
    | ok a =>
      by_cases hlocator : a.locator = ""
      · simp [append, hlocator, isBeyondRange]
      · simpa [append, hlocator] using ih (log.push a false) (index + 1)

/-- **A text** is refused without a word exactly if it goes beyond a limit. -/
theorem exceeds_iff (text : String) :
    Exceeds text ↔ ∃ why, ofText text = .error why ∧ isBeyondRange why = true := by
  unfold Exceeds ofText
  cases hread : Json.read text with
  | error why =>
    obtain ⟨fault, rest⟩ := why
    cases fault <;> simp [Json.ReadError.IsLimit, isBeyondRange]
  | ok v =>
    dsimp only
    cases v with
    | arr records => exact (addRecords_beyondRange_iff _ 0 records).symm
    | obj fields =>
      rw [ofJson, recordsOf]
      cases hactions : (Fields.get? fields "actions").getD (.arr []) with
      | arr records => exact (addRecords_beyondRange_iff _ 0 records).symm
      | null | bool b | int n | float x | str s | obj members => simp [isBeyondRange]
    | null | bool b | int n | float x | str s => simp [ofJson, recordsOf, isBeyondRange]

end Log

/-! ## Commands -/

namespace CommandLine

/-- **Logs are loaded, or refused in words**, unless their text goes beyond a limit; and only then a
command that reads a log fails without a word. -/
theorem readLog_told_iff (around : Surroundings) (path text : String) :
    (((∃ log, Log.ofText text = .ok log)
        ∨ ∃ why, Log.ofText text = .error why ∧ isBeyondRange why = false) ↔ ¬ Log.Exceeds text)
      ∧ (readLog around path = .error .beyondRange ↔ isPath path = true
        ∧ ∃ file, around.textAt path = .ok file ∧ Log.Exceeds (Text.ofFile file)) := by
  refine ⟨?_, ?_⟩
  · rw [Log.exceeds_iff]
    cases Log.ofText text <;> simp
  · simp only [Log.exceeds_iff]
    unfold readLog
    cases isPath path with
    | false => simp
    | true =>
      cases htext : around.textAt path with
      | error why => simp
      | ok file =>
        cases hlog : Log.ofText (Text.ofFile file) with
        | ok log => simp [hlog]
        | error why => cases hrange : isBeyondRange why <;> simp [hlog, hrange]

/-- A click whose timestamp has 401 digits. -/
def hugeTimestamp : List Char :=
  "[\x7b\"kind\":\"click\",\"locator\":\"a\",\"timestamp\":1".toList
    ++ List.replicate 400 '0' ++ "\x7d]".toList

/-- It is neither loaded nor refused in words. -/
theorem not_told_hugeTimestamp : ¬ ((∃ log, Log.ofText (String.ofList hugeTimestamp) = .ok log)
    ∨ ∃ why, Log.ofText (String.ofList hugeTimestamp) = .error why
      ∧ isBeyondRange why = false) := by
  have hrefused : ((Json.readChars hugeTimestamp).toOption.map fun v =>
      ((Log.ofJson v).mapError isBeyondRange).map fun _ => ()) = some (.error true) := by
    decide +kernel
  rw [Log.ofText, Json.read, String.toList_ofList]
  cases hread : Json.readChars hugeTimestamp with
  | error why => simp [hread, Except.toOption] at hrefused
  | ok v =>
    simp only [hread, Except.toOption, Option.map_some, Option.some.injEq] at hrefused
    rintro (⟨log, hlog⟩ | ⟨why, hwhy, htold⟩)
    · simp [hlog, Except.map, Except.mapError] at hrefused
    · simp [hwhy, htold, Except.map, Except.mapError] at hrefused

end CommandLine

end Retrace
