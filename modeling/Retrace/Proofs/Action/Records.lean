/-
Records are read one by one.

A list of records is a log if each record on its own is an action with a locator, and the log then
has one entry for each record, in their order: no two entries become one, and nothing but the time
of an entry depends on what stands before it (`ReadFrom`). Otherwise the first record that is not
accepted is the one that is told, with its place in the list (`RefusedAt`).

A record in the older form is read as in the present one, since the older names are replaced before
anything else is looked at. What a record comes to depends on what is found under its names, and not
on their order (`ofRecord_congr`), so the form is a relation between what is found (`OlderForm`).
-/
import Retrace.Proofs.CommandLine.Load

set_option autoImplicit false

namespace Retrace

/-! ## Members -/

namespace Fields

theorem get?_erase (fields : Fields) (name other : String) :
    (fields.erase name).get? other = if other = name then none else fields.get? other := by
  induction fields with
  | nil => simp [erase, get?]
  | cons f rest ih =>
    obtain ⟨n, v⟩ := f
    simp only [erase, get?] at ih ⊢
    by_cases hn : n = name
    · subst hn
      rw [List.filter_cons_of_neg (by simp), ih]
      by_cases h : other = n
      · simp [h]
      · simp [h, List.lookup_cons, beq_false_of_ne h]
    · rw [List.filter_cons_of_pos (by simpa using hn), List.lookup_cons, List.lookup_cons, ih]
      by_cases h : other = n
      · subst h
        simp [hn]
      · simp [beq_false_of_ne h]

end Fields

/-! ## Records of the older form -/

namespace Action

/-- A member is moved from its older name, unless there is one of the present name. -/
theorem get?_modernize (old new : String) (fields : Fields) (name : String) :
    (modernize fields (old, new)).get? name =
      if fields.get? new = none then
        if name = new then fields.get? old
        else if name = old then none
        else fields.get? name
      else fields.get? name := by
  unfold modernize
  dsimp only
  cases hnew : fields.get? new with
  | some v => simp
  | none =>
    rw [if_pos rfl]
    cases hold : fields.get? old with
    | none =>
      dsimp only
      by_cases hname : name = new
      · rw [if_pos hname, hname, hnew]
      · rw [if_neg hname]
        by_cases hname' : name = old
        · rw [if_pos hname', hname', hold]
        · rw [if_neg hname']
    | some v =>
      dsimp only
      rw [Fields.get?_set, Fields.get?_erase]

/-- The record with all its members under their present names. -/
def modern (fields : Fields) : Fields := legacyNames.foldl modernize fields

theorem modern_eq (fields : Fields) :
    modern fields = modernize (modernize fields ("type", "kind")) ("selector", "locator") := rfl

/-- What a record comes to depends on what is found under its names. -/
theorem ofRecord_congr {fields other : Fields}
    (h : ∀ name, (modern fields).get? name = (modern other).get? name) :
    ofRecord (.obj fields) = ofRecord (.obj other) := by
  have hkind : readKind (modern fields) = readKind (modern other) := by
    rw [readKind, readKind, h]
  have htimestamp : readTimestamp (modern fields) = readTimestamp (modern other) := by
    rw [readTimestamp, readTimestamp, h]
  have htext : ∀ name, readText (modern fields) name = readText (modern other) name := by
    intro name
    rw [readText, readText, h]
  simp only [modern] at h hkind htimestamp htext
  simp only [ofRecord, hkind, htimestamp, htext, h]

/-- The one record holds no older name, and the other is the same record with any of its members
under their older names. -/
structure Renamed (fields older : Fields) : Prop where
  present : ∀ names ∈ legacyNames, fields.get? names.1 = none
  moved : ∀ names ∈ legacyNames,
    (older.get? names.1 = none ∧ older.get? names.2 = fields.get? names.2)
      ∨ (older.get? names.1 = fields.get? names.2 ∧ older.get? names.2 = none)
  others : ∀ name, (∀ names ∈ legacyNames, name ≠ names.1 ∧ name ≠ names.2) →
    older.get? name = fields.get? name

/-- The same record, or the record in the older form. -/
inductive OlderForm : Json → Json → Prop
  | same (record : Json) : OlderForm record record
  | renamed {fields older : Fields} : Renamed fields older → OlderForm (.obj fields) (.obj older)

/-- A member that stands under either of its names is found under the present one. -/
theorem get?_modernize_of_moved {old new : String} {older : Fields}
    {found : Option Json} (h : (older.get? old = none ∧ older.get? new = found)
      ∨ (older.get? old = found ∧ older.get? new = none)) (name : String) :
    (modernize older (old, new)).get? name =
      if name = new then found else if name = old then none else older.get? name := by
  rw [get?_modernize]
  by_cases hname : name = new
  · subst hname
    rw [if_pos rfl, if_pos rfl]
    rcases h with ⟨hold, hnew⟩ | ⟨hold, hnew⟩
    · rw [hold, hnew]
      split
      · next hnone => exact hnone.symm
      · rfl
    · rw [if_pos hnew, hold]
  · rw [if_neg hname, if_neg hname]
    by_cases hname' : name = old
    · rw [if_pos hname', hname']
      rcases h with ⟨hold, -⟩ | ⟨-, hnew⟩
      · rw [hold, ite_self]
      · rw [if_pos hnew]
    · rw [if_neg hname', ite_self]

/-- **The older form** is read as the present one. -/
theorem ofRecord_eq_of_olderForm {record older : Json} (h : OlderForm record older) :
    ofRecord older = ofRecord record := by
  cases h with
  | same => rfl
  | @renamed fields older h =>
    obtain ⟨hpresent, hmoved, hothers⟩ := h
    simp only [legacyNames, List.forall_mem_cons, List.not_mem_nil, false_imp_iff,
      implies_true, and_true] at hpresent hmoved hothers
    refine ofRecord_congr fun name => ?_
    -- of both records, what is found under a name is what the first one has there
    have hmodern : ∀ g : Fields,
        ((g.get? "type" = none ∧ g.get? "kind" = fields.get? "kind")
          ∨ (g.get? "type" = fields.get? "kind" ∧ g.get? "kind" = none)) →
        ((g.get? "selector" = none ∧ g.get? "locator" = fields.get? "locator")
          ∨ (g.get? "selector" = fields.get? "locator" ∧ g.get? "locator" = none)) →
        (modern g).get? name = if name = "locator" then fields.get? "locator"
          else if name = "selector" then none
          else if name = "kind" then fields.get? "kind"
          else if name = "type" then none else g.get? name := by
      intro g hkind hlocator
      have hfirst := get?_modernize_of_moved hkind
      have hsecond :
          ((modernize g ("type", "kind")).get? "selector" = none
            ∧ (modernize g ("type", "kind")).get? "locator" = fields.get? "locator")
          ∨ ((modernize g ("type", "kind")).get? "selector" = fields.get? "locator"
            ∧ (modernize g ("type", "kind")).get? "locator" = none) := by
        simpa only [hfirst, String.reduceEq, if_false] using hlocator
      rw [modern_eq, get?_modernize_of_moved hsecond, hfirst]
    rw [hmodern older hmoved.1 hmoved.2, hmodern fields (.inl ⟨hpresent.1, rfl⟩)
      (.inl ⟨hpresent.2, rfl⟩)]
    by_cases hlocator : name = "locator"
    · rw [if_pos hlocator, if_pos hlocator]
    by_cases hselector : name = "selector"
    · simp only [if_neg hlocator, if_pos hselector]
    by_cases hkind : name = "kind"
    · simp only [if_neg hlocator, if_neg hselector, if_pos hkind]
    by_cases htype : name = "type"
    · simp only [if_neg hlocator, if_neg hselector, if_neg hkind, if_pos htype]
    simp only [if_neg hlocator, if_neg hselector, if_neg hkind, if_neg htype]
    exact hothers name ⟨⟨htype, hkind⟩, hselector, hlocator⟩

/-- The timestamp of the record, if it is a whole number, is not too large for a double. -/
def TimeFits : Json → Prop
  | .obj fields =>
    ∀ n, Fields.get? fields "timestamp" = some (.int n) → n.natAbs < Decimal.overflowBound
  | _ => True

/-- Both forms have their timestamp under the same name. -/
theorem get?_modern_timestamp (fields : Fields) :
    (modern fields).get? "timestamp" = fields.get? "timestamp" := by
  simp only [modern_eq, get?_modernize, String.reduceEq, if_false, ite_self]

/-- A record whose timestamp fits is refused in words, if at all. -/
theorem ne_overflow_of_timeFits {record : Json} (h : TimeFits record) {e : RecordError}
    (he : ofRecord record = .error e) : e ≠ .timestampOverflow := by
  rintro rfl
  rw [ofRecord_eq_overflow_iff] at he
  cases record with
  | obj fields =>
    obtain ⟨-, -, n, hn, hbound⟩ := he
    exact absurd (h n ((get?_modern_timestamp fields).symm.trans hn)) (Nat.not_lt.2 hbound)
  | null | bool b | int n | float x | str s | arr items => exact he

end Action

/-! ## Logs -/

namespace Log

open Retrace.Action (ofRecord IsAccepted TimeFits OlderForm)

/-- The log with the actions added at its end, one after the other. -/
def pushAll (log : Log String) (actions : List (Action String)) : Log String :=
  actions.foldl (fun log a => log.push a false) log

/-- The record is refused, with this as the reason, if it is the one at `index`. -/
def Refuses (index : Nat) (record : Json) (why : LogError) : Prop :=
  (∃ e, ofRecord record = .error e ∧ why = .record index e)
    ∨ (∃ a, ofRecord record = .ok a ∧ a.locator = "" ∧ why = .emptyLocator index)

/-- What comes of one record: an entry at the end of the log, or the reason of a refusal. -/
theorem addRecords_cons (log : Log String) (index : Nat) (r : Json) (rest : List Json) :
    (∃ a, ofRecord r = .ok a ∧ a.locator ≠ ""
        ∧ addRecords log index (r :: rest) = addRecords (log.push a false) (index + 1) rest)
      ∨ ∃ why, Refuses index r why ∧ addRecords log index (r :: rest) = .error why := by
  rw [addRecords]
  cases hr : ofRecord r with
  | error e => exact .inr ⟨_, .inl ⟨e, hr, rfl⟩, rfl⟩
  | ok a =>
    by_cases ha : a.locator = ""
    · refine .inr ⟨_, .inr ⟨a, hr, ha, rfl⟩, ?_⟩
      simp [append, ha]
    · refine .inl ⟨a, rfl, ha, ?_⟩
      simp [append, ha]

theorem not_isAccepted_of_refuses {index : Nat} {r : Json} {why : LogError}
    (h : Refuses index r why) : ¬ IsAccepted r := by
  rintro ⟨a, ha, hlocator⟩
  rcases h with ⟨e, he, -⟩ | ⟨b, hb, hempty, -⟩
  · rw [ha] at he
    nomatch he
  · obtain rfl : a = b := Except.ok.inj (ha.symm.trans hb)
    exact hlocator hempty

/-- **Records that are all accepted** are appended in turn. The induction is on the records. -/
theorem exists_addRecords_eq_ok {records : List Json} (h : ∀ r ∈ records, IsAccepted r)
    (log : Log String) (index : Nat) :
    ∃ actions, List.Forall₂ (fun r a => ofRecord r = .ok a) records actions
      ∧ addRecords log index records = .ok (log.pushAll actions) := by
  induction records generalizing log index with
  | nil => exact ⟨[], .nil, rfl⟩
  | cons r rest ih =>
    obtain ⟨hr, hrest⟩ := List.forall_mem_cons.1 h
    rcases addRecords_cons log index r rest with ⟨a, ha, -, heq⟩ | ⟨why, hwhy, -⟩
    · obtain ⟨actions, hall, hlog⟩ := ih hrest (log.push a false) (index + 1)
      exact ⟨a :: actions, .cons ha hall, heq.trans hlog⟩
    · exact absurd hr (not_isAccepted_of_refuses hwhy)

/-- **Records that are not all accepted** are refused for the first one that is not. -/
theorem exists_addRecords_eq_error {records : List Json} (h : ¬ ∀ r ∈ records, IsAccepted r)
    (log : Log String) (index : Nat) :
    ∃ before r after why, records = before ++ r :: after ∧ (∀ b ∈ before, IsAccepted b)
      ∧ Refuses (index + before.length) r why ∧ addRecords log index records = .error why := by
  induction records generalizing log index with
  | nil => simp at h
  | cons r rest ih =>
    rcases addRecords_cons log index r rest with ⟨a, ha, hlocator, heq⟩ | ⟨why, hwhy, heq⟩
    · have hr : IsAccepted r := ⟨a, ha, hlocator⟩
      have hrest : ¬ ∀ r ∈ rest, IsAccepted r := by
        intro hrest
        exact h (List.forall_mem_cons.2 ⟨hr, hrest⟩)
      obtain ⟨before, x, after, why, rfl, hbefore, hwhy, herror⟩ :=
        ih hrest (log.push a false) (index + 1)
      refine ⟨r :: before, x, after, why, rfl, List.forall_mem_cons.2 ⟨hr, hbefore⟩, ?_,
        heq.trans herror⟩
      rwa [List.length_cons, Nat.add_comm before.length, ← Nat.add_assoc]
    · exact ⟨[], r, rest, why, rfl, by simp, hwhy, heq⟩

/-! ## Entries -/

theorem actions_pushAll_concat (log : Log String) (actions : List (Action String))
    (a : Action String) : (log.pushAll (actions ++ [a])).actions
      = (log.pushAll actions).actions ++ [notBefore (log.pushAll actions).actions a] := by
  rw [pushAll, List.foldl_append]
  rfl

theorem baseUrl_pushAll (log : Log String) (actions : List (Action String)) :
    (log.pushAll actions).baseUrl = log.baseUrl := by
  induction actions generalizing log with
  | nil => rfl
  | cons a rest ih => exact ih (log.push a false)

theorem length_pushAll (log : Log String) (actions : List (Action String)) :
    (log.pushAll actions).actions.length = log.actions.length + actions.length := by
  induction actions using List.reverseRecOn with
  | nil => rfl
  | append_singleton actions a ih =>
    rw [actions_pushAll_concat, List.length_append, List.length_append, ih, Nat.add_assoc]
    rfl

/-- **Each action has its own entry**, made no older than the entry before it. The induction is on
the actions from their end, where the log grows. -/
theorem getElem?_pushAll (baseUrl : String) {actions : List (Action String)} {i : Nat}
    {a : Action String} (h : actions[i]? = some a) :
    (pushAll { baseUrl } actions).actions[i]?
      = some (notBefore ((pushAll { baseUrl } actions).actions.take i) a) := by
  induction actions using List.reverseRecOn generalizing i with
  | nil => simp at h
  | append_singleton actions last ih =>
    have hlength : (pushAll { baseUrl } actions).actions.length = actions.length := by
      simp [length_pushAll]
    rw [actions_pushAll_concat]
    rcases Nat.lt_trichotomy i actions.length with hlt | rfl | hgt
    · -- an entry further in front stays, and so does what stands before it
      rw [List.getElem?_append_left hlt] at h
      rw [List.getElem?_append_left (by omega), List.take_append_of_le_length (by omega)]
      exact ih h
    · obtain rfl : last = a := by simpa using h
      rw [← hlength, List.getElem?_concat_length, List.take_left]
    · rw [List.getElem?_eq_none (by simp; omega)] at h
      cases h

/-- The log has one entry for each record, in their order. The first is the action of its record,
and any other one is that too, but for its time if the entry before it is later. -/
structure ReadFrom (records : List Json) (log : Log String) : Prop where
  length_eq : log.actions.length = records.length
  first : ∀ r, records[0]? = some r → ∃ a, ofRecord r = .ok a ∧ log.actions[0]? = some a
  next : ∀ i r, records[i + 1]? = some r → ∃ a previous, ofRecord r = .ok a
    ∧ log.actions[i]? = some previous
    ∧ log.actions[i + 1]? = some { a with timestamp :=
        if a.timestamp < previous.timestamp then previous.timestamp else a.timestamp }

/-- The first record that is not accepted, and what is told of it. -/
structure RefusedAt (records : List Json) (index : Nat) (why : LogError) : Prop where
  before : ∀ j < index, ∀ r, records[j]? = some r → IsAccepted r
  refuses : ∃ r, records[index]? = some r ∧ Refuses index r why
  /-- It is refused as a record, in words. -/
  told : CommandLine.isBeyondRange why = false
  /-- The words begin with its place. -/
  message : ∃ text, why.message = "record " ++ toString index ++ ": " ++ text

theorem notBefore_concat (before : List (Action String)) (latest a : Action String) :
    notBefore (before ++ [latest]) a = { a with timestamp :=
      if a.timestamp < latest.timestamp then latest.timestamp else a.timestamp } := by
  rw [notBefore, List.getLast?_concat]
  dsimp only
  split <;> rfl

theorem readFrom_pushAll {records : List Json} {actions : List (Action String)} (baseUrl : String)
    (h : List.Forall₂ (fun r a => ofRecord r = .ok a) records actions) :
    ReadFrom records (pushAll { baseUrl } actions) := by
  have hlength : (pushAll { baseUrl } actions).actions.length = actions.length := by
    simp [length_pushAll]
  have haction : ∀ (i : Nat) r, records[i]? = some r → ∃ a, ofRecord r = .ok a
      ∧ actions[i]? = some a := by
    intro i r hr
    obtain ⟨hi, rfl⟩ := List.getElem?_eq_some_iff.1 hr
    have hi' : i < actions.length := h.length_eq ▸ hi
    exact ⟨actions[i], h.get hi hi', List.getElem?_eq_getElem hi'⟩
  refine ⟨hlength.trans h.length_eq.symm, ?_, ?_⟩
  · intro r hr
    obtain ⟨a, ha, hget⟩ := haction 0 r hr
    exact ⟨a, ha, getElem?_pushAll baseUrl hget⟩
  · intro i r hr
    obtain ⟨a, ha, hget⟩ := haction (i + 1) r hr
    have hi : i < (pushAll { baseUrl } actions).actions.length := by
      have hlt := (List.getElem?_eq_some_iff.1 hget).1
      omega
    refine ⟨a, _, ha, List.getElem?_eq_getElem hi, ?_⟩
    rw [getElem?_pushAll baseUrl hget, List.take_succ_eq_append_getElem hi, notBefore_concat]

theorem exists_message_eq {index : Nat} {r : Json} {why : LogError} (h : Refuses index r why) :
    ∃ text, why.message = "record " ++ toString index ++ ": " ++ text := by
  rcases h with ⟨e, -, rfl⟩ | ⟨a, -, -, rfl⟩
  · exact ⟨e.message, rfl⟩
  · refine ⟨"empty locator", ?_⟩
    rw [String.append_assoc]
    rfl

theorem isBeyondRange_of_refuses {index : Nat} {r : Json} {why : LogError} (hfits : TimeFits r)
    (h : Refuses index r why) : CommandLine.isBeyondRange why = false := by
  rcases h with ⟨e, he, rfl⟩ | ⟨a, -, -, rfl⟩
  · have hne := Action.ne_overflow_of_timeFits hfits he
    cases e <;> first | rfl | exact absurd rfl hne
  · rfl

/-- What is read of a row of records depends on what each of them is read as. -/
theorem addRecords_congr {records older : List Json}
    (h : List.Forall₂ (fun r o => ofRecord o = ofRecord r) records older) (log : Log String)
    (index : Nat) : addRecords log index older = addRecords log index records := by
  induction h generalizing log index with
  | nil => rfl
  | cons hr _ ih => simp only [addRecords, hr, ih]

/-- **Records are read one by one.** They are a log exactly if each of them is accepted; its entries
are theirs, in their order. Otherwise the first one that is not accepted is told, by its place. And
any of them may be in the older form. -/
theorem ofRecords_oneByOne {records : List Json} (hfits : ∀ r ∈ records, TimeFits r)
    (baseUrl : String) :
    ((∃ log, ofRecords records baseUrl = .ok log) ↔ ∀ r ∈ records, IsAccepted r)
      ∧ (∀ log, ofRecords records baseUrl = .ok log →
        log.baseUrl = baseUrl ∧ ReadFrom records log)
      ∧ ((¬ ∀ r ∈ records, IsAccepted r) →
        ∃ index why, ofRecords records baseUrl = .error why ∧ RefusedAt records index why)
      ∧ ∀ older, List.Forall₂ OlderForm records older →
        ofRecords older baseUrl = ofRecords records baseUrl := by
  have haccepted : (∀ r ∈ records, IsAccepted r) → ∃ log, ofRecords records baseUrl = .ok log
      ∧ log.baseUrl = baseUrl ∧ ReadFrom records log := by
    intro h
    obtain ⟨actions, hall, hlog⟩ := exists_addRecords_eq_ok h { baseUrl } 0
    exact ⟨_, hlog, baseUrl_pushAll _ actions, readFrom_pushAll baseUrl hall⟩
  have hrefused : (¬ ∀ r ∈ records, IsAccepted r) →
      ∃ index why, ofRecords records baseUrl = .error why ∧ RefusedAt records index why := by
    intro h
    obtain ⟨before, r, after, why, rfl, hbefore, hwhy, herror⟩ :=
      exists_addRecords_eq_error h { baseUrl } 0
    rw [Nat.zero_add] at hwhy
    refine ⟨before.length, why, herror, ⟨?_, ⟨r, by simp, hwhy⟩,
      isBeyondRange_of_refuses (hfits r (by simp)) hwhy, exists_message_eq hwhy⟩⟩
    intro j hj b hb
    rw [List.getElem?_append_left hj] at hb
    exact hbefore b (List.mem_of_getElem? hb)
  -- a list that is read has only records that are accepted
  have hall : ∀ log, ofRecords records baseUrl = .ok log → ∀ r ∈ records, IsAccepted r := by
    intro log hlog
    by_contra h
    obtain ⟨index, why, herror, -⟩ := hrefused h
    rw [hlog] at herror
    nomatch herror
  refine ⟨⟨fun ⟨log, hlog⟩ => hall log hlog, fun h => ?_⟩, ?_, hrefused, ?_⟩
  · obtain ⟨log, hlog, -⟩ := haccepted h
    exact ⟨log, hlog⟩
  · intro log hlog
    obtain ⟨log', hlog', hbaseUrl, hread⟩ := haccepted (hall log hlog)
    obtain rfl := Except.ok.inj (hlog.symm.trans hlog')
    exact ⟨hbaseUrl, hread⟩
  · intro older h
    exact addRecords_congr (h.imp fun _ _ => Action.ofRecord_eq_of_olderForm) _ 0

/-- Two clicks that are the same, the second one in the older form, and a label at an earlier
time. -/
def clicksThenLabel : List Json :=
  [.obj [("kind", .str "click"), ("locator", .str "#a"), ("timestamp", .int 5)],
    .obj [("selector", .str "#a"), ("timestamp", .int 5), ("type", .str "click")],
    .obj [("kind", .str "label"), ("locator", .str "h1"), ("value", .bool true),
      ("label", .str "Title"), ("timestamp", .float 3.0)]]

theorem ofRecords_oneByOne_clicksThenLabel : (∀ r ∈ clicksThenLabel, TimeFits r)
    ∧ ∃ log, ofRecords clicksThenLabel "page" = .ok log ∧ log.baseUrl = "page"
      ∧ ReadFrom clicksThenLabel log := by
  have hfive : 5 < Decimal.overflowBound := by
    rw [Decimal.overflowBound]
    norm_num
  have hfits : ∀ r ∈ clicksThenLabel, TimeFits r := by
    rw [clicksThenLabel]
    simp only [List.forall_mem_cons, List.not_mem_nil, false_imp_iff, implies_true, and_true]
    refine ⟨?_, ?_, ?_⟩
    · intro n hn
      cases hn
      exact hfive
    · intro n hn
      cases hn
      exact hfive
    · intro n hn
      cases hn
  have haccepted : ∀ r ∈ clicksThenLabel, IsAccepted r := by
    rw [clicksThenLabel]
    simp only [List.forall_mem_cons, List.not_mem_nil, false_imp_iff, implies_true, and_true]
    exact ⟨⟨_, rfl, by decide⟩, ⟨_, rfl, by decide⟩, ⟨_, rfl, by decide⟩⟩
  obtain ⟨hiff, hread, -⟩ := ofRecords_oneByOne hfits "page"
  obtain ⟨log, hlog⟩ := hiff.2 haccepted
  exact ⟨hfits, log, hlog, hread log hlog⟩

end Log

end Retrace
