/-
Logs are read back from their text.

The record of an action says all of it but the sign of a zero: a timestamp that says nothing is read
as zero. Reading appends the records one by one, which could change their times, but a log that
came about by appending stands in order (`Reached.ordered`), and dropping the sign of zero keeps
that. The text of the records is read back as any value that fits.
-/
import Retrace.Proofs.Action.Order
import Retrace.Proofs.Json.RoundTrip

set_option autoImplicit false

namespace Retrace

/-! ## Records -/

namespace Action

variable {α : Type}

/-- The action at the same time, where a zero has no sign. -/
def unsigned (a : Action α) : Action α := { a with timestamp := Decimal.unsigned a.timestamp }

/-- The members of the record of an action. -/
def members (a : Action String) : Fields :=
  [("kind", .str a.kind.name), ("locator", .str a.locator)]
    ++ (a.value.map fun v => ("value", .str v)).toList
    ++ (a.label.map fun l => ("label", .str l)).toList
    ++ [("timestamp", .float a.timestamp)]

/-- The members of a record are those of the action, each under its name. -/
theorem get?_members (a : Action String) :
    a.members.get? "kind" = some (.str a.kind.name)
      ∧ a.members.get? "locator" = some (.str a.locator)
      ∧ a.members.get? "value" = a.value.map .str ∧ a.members.get? "label" = a.label.map .str
      ∧ a.members.get? "timestamp" = some (.float a.timestamp) := by
  obtain ⟨kind, locator, value, label, timestamp⟩ := a
  cases value <;> cases label <;> exact ⟨rfl, rfl, rfl, rfl, rfl⟩

/-- A record with the present name is left as it is. -/
theorem modernize_of_present {fields : Fields} {names : String × String} {v : Json}
    (h : fields.get? names.2 = some v) : modernize fields names = fields := by
  rw [modernize, h]

theorem readText_of_str {fields : Fields} {name : String} {text : Option String}
    (h : fields.get? name = text.map .str) : readText fields name = text := by
  cases text <;> simp [readText, h, Json.display]

/-- **An action is read back from its record**, up to the sign of a zero. -/
theorem ofRecord_toRecord (a : Action String) : ofRecord (a.toRecord .str) = .ok a.unsigned := by
  obtain ⟨hkind, hlocator, hvalue, hlabel, htimestamp⟩ := a.get?_members
  have hmodern : legacyNames.foldl modernize a.members = a.members := by
    rw [legacyNames, List.foldl_cons, @modernize_of_present _ ("type", "kind") _ hkind,
      List.foldl_cons, @modernize_of_present _ ("selector", "locator") _ hlocator, List.foldl_nil]
  have hreadKind : readKind a.members = .ok a.kind := by
    simp [readKind, hkind, Json.text?]
  have hreadTimestamp : readTimestamp a.members = .ok (Decimal.unsigned a.timestamp) := by
    rw [readTimestamp, htimestamp, Decimal.unsigned]
    by_cases hzero : (a.timestamp == 0) = true <;> simp [Json.truthy, bne, hzero]
  rw [show a.toRecord .str = .obj a.members from rfl, ofRecord, hmodern, hreadKind, hlocator,
    hreadTimestamp, readText_of_str hvalue, readText_of_str hlabel]
  rfl

/-- The record of an action is a flat object, but for its value. -/
theorem fits_toRecord {write : α → Json} {a : Action α} {room : Nat}
    (h : ∀ v ∈ a.value, (write v).Fits room) : (a.toRecord write).Fits (room + 1) := by
  obtain ⟨kind, locator, value, label, timestamp⟩ := a
  refine .obj ?_ ?_
  · cases value <;> cases label <;> simp [Fields.names]
  · cases value with
    | none => cases label <;> simp [Json.Fits.str, Json.Fits.float]
    | some v =>
      have hv : (write v).Fits room := h v rfl
      cases label <;> simp [hv, Json.Fits.str, Json.Fits.float]

end Action

/-! ## Logs -/

namespace Log

variable {α : Type}

/-- The log with all its times without the sign of a zero. -/
def unsigned (log : Log α) : Log α := { log with actions := log.actions.map Action.unsigned }

theorem Ordered.unsigned {actions : List (Action α)} (h : Ordered actions) :
    Ordered (actions.map Action.unsigned) := by
  refine ⟨?_, ?_⟩
  · intro a ha
    obtain ⟨b, hb, rfl⟩ := List.mem_map.1 ha
    exact h.located b hb
  · rw [List.isChain_map]
    exact h.chain.imp fun a b hab => by
      rwa [Action.unsigned, Action.unsigned, Decimal.unsigned_lt_unsigned]

/-- Records of actions in order are read back as these actions. -/
theorem addRecords_toRecords {baseUrl : String} {before actions : List (Action String)}
    (h : Ordered (before ++ actions.map Action.unsigned)) (index : Nat) :
    addRecords { baseUrl, actions := before } index (actions.map (·.toRecord .str))
      = .ok { baseUrl, actions := before ++ actions.map Action.unsigned } := by
  induction actions generalizing before index with
  | nil => simp [addRecords]
  | cons a rest ih =>
    have hassoc : before ++ [a.unsigned] ++ rest.map Action.unsigned
        = before ++ (a :: rest).map Action.unsigned := by simp
    have hfirst : Ordered (before ++ [a.unsigned]) := h.initial ⟨_, hassoc⟩
    rw [List.map_cons, addRecords, Action.ofRecord_toRecord]
    dsimp only
    rw [append_of_ordered hfirst]
    dsimp only
    rw [ih (by rwa [hassoc]), hassoc]

/-- The records of a log in order are read as that log. -/
theorem ofRecords_toRecords {log : Log String} (h : Ordered log.actions) :
    ofRecords (log.toRecords .str) log.baseUrl = .ok log.unsigned :=
  @addRecords_toRecords log.baseUrl [] log.actions h.unsigned 0

theorem ofJson_toJson {log : Log String} (h : Ordered log.actions) :
    ofJson (log.toJson .str) = .ok log.unsigned := by
  have hbaseUrl : readBaseUrl
      [("baseUrl", .str log.baseUrl), ("actions", .arr (log.toRecords .str))] = log.baseUrl := by
    by_cases hempty : log.baseUrl = ""
    · simp [readBaseUrl, Fields.get?, Json.truthy, hempty]
    · simp [readBaseUrl, Fields.get?, Json.truthy, Json.display, hempty]
  have hactions : Fields.get?
      [("baseUrl", .str log.baseUrl), ("actions", .arr (log.toRecords .str))] "actions"
        = some (.arr (log.toRecords .str)) := rfl
  rw [toJson, ofJson, hactions, hbaseUrl]
  exact ofRecords_toRecords h

/-- The records of a log are a list of flat objects, but for the values of the actions. -/
theorem fits_toRecords {write : α → Json} {log : Log α} {room : Nat}
    (h : ∀ a ∈ log.actions, ∀ v ∈ a.value, (write v).Fits room) :
    (Json.arr (log.toRecords write)).Fits (room + 2) := by
  refine .arr fun record hrecord => ?_
  obtain ⟨a, ha, rfl⟩ := List.mem_map.1 hrecord
  exact Action.fits_toRecord (h a ha)

theorem fits_toJson (log : Log String) : (log.toJson .str).Fits Json.maxDepth := by
  have hactions : (Json.arr (log.toRecords .str)).Fits (Json.maxDepth - 1) :=
    fits_toRecords fun _ _ v _ => .str v
  refine .obj (by simp [Fields.names]) ?_
  simpa using ⟨.str log.baseUrl, hactions⟩

/-- A log that comes about by appending, by clearing and by reading. -/
inductive Reached : Log String → Prop
  | fresh (baseUrl : String) : Reached { baseUrl }
  | append {log log' : Log String} {a stored : Action String} (coalesce : Bool) (h : Reached log)
    (happend : log.append a coalesce = .ok (log', stored)) : Reached log'
  | clear {log : Log String} (h : Reached log) (baseUrl : String) : Reached (log.clear baseUrl)
  | ofText {text : String} {log : Log String} (h : ofText text = .ok log) : Reached log
  | ofCollection {records : Json} {baseUrl : String} {log : Log String}
    (h : ofCollection records baseUrl = .ok log) : Reached log

/-- A log is in order however it was come by. -/
theorem Reached.ordered {log : Log String} (h : Reached log) : Ordered log.actions := by
  induction h with
  | fresh baseUrl => exact .nil
  | append coalesce _ happend ih => exact ih.append happend
  | clear _ baseUrl _ => exact .nil
  | ofText h => exact .ofText h
  | ofCollection h => exact .ofCollection h

/-- **A log is read back from its text and rebuilt from its actions.** The text may be laid out in
any way; what is read is the log up to the signs of zeros. -/
theorem ofText_toText {log : Log String} (h : Reached log) :
    (∀ indent, ofText (log.toText .str indent) = .ok log.unsigned)
      ∧ ofActions log.actions log.baseUrl = .ok log := by
  refine ⟨fun indent => ?_, ofActions_of_ordered h.ordered log.baseUrl⟩
  rw [ofText, toText, Json.read_write (fits_toJson log)]
  exact ofJson_toJson h.ordered

/-- A label without a text at no time that is a number, and an edit without a value at a negative
zero, one below the other. -/
def mixed : Log String :=
  { baseUrl := "https://example.org/"
    actions := [
      { kind := .label, locator := "#name", value := some "\"a\"\n", label := some ""
        timestamp := Decimal.nan },
      { kind := .input, locator := "#name", timestamp := -0.0 }] }

theorem ofText_toText_mixed :
    Reached mixed ∧ (∀ indent, ofText (mixed.toText .str indent) = .ok mixed.unsigned)
      ∧ ofActions mixed.actions mixed.baseUrl = .ok mixed := by
  have hfirst : Reached { mixed with actions := mixed.actions.take 1 } :=
    @Reached.append { baseUrl := mixed.baseUrl } _ mixed.actions[0] mixed.actions[0] false
      (.fresh mixed.baseUrl) rfl
  have hmixed : Reached mixed :=
    @Reached.append { mixed with actions := mixed.actions.take 1 } _ mixed.actions[1]
      mixed.actions[1] true hfirst rfl
  exact ⟨hmixed, ofText_toText hmixed⟩

end Log

end Retrace
