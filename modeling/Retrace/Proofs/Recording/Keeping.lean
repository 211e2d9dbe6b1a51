/-
What a store keeps.

A store that was written once is read as an object, without a notice, and every further write
succeeds: in memory by nature, in a file because the values that were read fit and what is written
is read back. What a file held before is another matter. Its members may stand under names that are
no texts, and several of these may be written alike; but no name that is no text is written like one
of the three keys (`clear_of_mem_keys`), so each key is found again under the value that was set.

An append rebuilds the log from the records, so it does to the records what an append of a log does
(`Keeps.append`).
-/
import Retrace.Proofs.Action.RoundTrip
import Retrace.Recording.Session

set_option autoImplicit false

namespace Retrace

/-! ## What can be stored -/

/-- An action whose record says all of it: its value is a text, and its time is no negative zero. -/
structure Action.Storable (a : Action Json) : Prop where
  value : ∀ v ∈ a.value, ∃ s, v = .str s
  located : a.locator ≠ ""
  timestamp : Decimal.unsigned a.timestamp = a.timestamp

/-- A log of such actions, in order, with an address that is a text. -/
structure Log.Storable (log : Log Json) : Prop where
  baseUrl : ∃ u, log.baseUrl = .str u
  actions : ∀ a ∈ log.actions, a.Storable
  ordered : Log.Ordered log.actions

theorem Action.Storable.toRecord {a : Action Json} (h : a.Storable) :
    a.toRecord id = (a.map Json.display).toRecord .str := by
  obtain ⟨kind, locator, value, label, timestamp⟩ := a
  cases value with
  | none => rfl
  | some v =>
    obtain ⟨s, rfl⟩ := h.value v rfl
    rfl

/-- A value that is a text is displayed as that text. -/
theorem Action.Storable.map_display {a : Action Json} (h : a.Storable) :
    ((a.map Json.display).map .str) = a := by
  obtain ⟨kind, locator, value, label, timestamp⟩ := a
  cases value with
  | none => rfl
  | some v =>
    obtain ⟨s, rfl⟩ := h.value v rfl
    rfl

namespace Log.Storable

variable {log : Log Json}

theorem empty : Log.Storable { baseUrl := .str "" } := ⟨⟨"", rfl⟩, by simp, .nil⟩

/-- The log with its values as texts. -/
theorem toRecords (h : log.Storable) :
    log.toRecords id = (log.map Json.display).toRecords .str := by
  unfold Log.toRecords
  rw [Log.map, List.map_map]
  exact List.map_congr_left fun a ha => (h.actions a ha).toRecord

theorem map_display (h : log.Storable) :
    (log.actions.map (·.map Json.display)).map (·.map .str) = log.actions := by
  rw [List.map_map]
  exact (List.map_congr_left fun a ha => (h.actions a ha).map_display).trans
    (List.map_id log.actions)

/-- The records of the log are read as its actions. -/
theorem ofCollection (h : log.Storable) :
    Log.ofCollection (.arr (log.toRecords id))
      = .ok { baseUrl := "", actions := log.actions.map (·.map Json.display) } := by
  have hunsigned : (log.actions.map (·.map Json.display)).map Action.unsigned
      = log.actions.map (·.map Json.display) := by
    rw [List.map_map]
    refine List.map_congr_left fun a ha => ?_
    have htime : (a.map Json.display).timestamp = a.timestamp := rfl
    rw [Function.comp_apply, Action.unsigned, htime, (h.actions a ha).timestamp]
    rfl
  have hordered : Log.Ordered ([] ++ (log.actions.map (·.map Json.display)).map Action.unsigned) :=
    (h.ordered.map Json.display).unsigned
  have hread := @Log.addRecords_toRecords "" _ _ hordered 0
  rw [List.nil_append, hunsigned] at hread
  rw [h.toRecords]
  exact hread

end Log.Storable

/-! ## Appends -/

namespace Log

/-- The log after a write was done on it. -/
def replay (log : Log Json) (w : PendingWrite) : Log Json :=
  let log :=
    if log.actions.isEmpty && !log.baseUrl.truthy && w.baseUrl.truthy then
      { log with baseUrl := w.baseUrl }
    else log
  log.push w.action w.coalesce

end Log

/-- A write that can be done. -/
structure PendingWrite.Storable (w : PendingWrite) : Prop where
  action : w.action.Storable
  baseUrl : ∃ u, w.baseUrl = .str u

theorem Log.Storable.entry {log : Log Json} (h : log.Storable) {a : Action Json} (ha : a.Storable)
    (coalesce : Bool) : (log.entry a coalesce).Storable := by
  unfold Log.entry Log.notBefore
  split
  · next latest hlatest =>
    split
    · have hmem := Log.kept_subset coalesce a log.actions (List.mem_of_getLast? hlatest)
      exact ⟨ha.value, ha.located, (h.actions latest hmem).timestamp⟩
    · exact ha
  · exact ha

/-- An action that can be stored keeps the log so. -/
theorem Log.Storable.push {log : Log Json} (h : log.Storable) {a : Action Json} (ha : a.Storable)
    (coalesce : Bool) : (log.push a coalesce).Storable := by
  refine ⟨h.baseUrl, ?_, h.ordered.push ha.located coalesce⟩
  intro b hb
  rcases List.mem_append.1 hb with hb | hb
  · exact h.actions b (Log.kept_subset coalesce a log.actions hb)
  · rw [List.mem_singleton.1 hb]
    exact h.entry ha coalesce

/-- A write that was put off keeps the log so. -/
theorem Log.Storable.replay {log : Log Json} (h : log.Storable) {w : PendingWrite}
    (hw : w.Storable) : (log.replay w).Storable := by
  unfold Log.replay
  dsimp only
  split
  · have hbase : Log.Storable { log with baseUrl := w.baseUrl } :=
      ⟨hw.baseUrl, h.actions, h.ordered⟩
    exact hbase.push hw.action w.coalesce
  · exact h.push hw.action w.coalesce

namespace Store

/-- An append to the records is an append to the log. -/
theorem appended_eq {log : Log Json} {w : PendingWrite} (hw : w.Storable) :
    appended log w.action w.coalesce w.baseUrl
      = .ok [("actions", .arr ((log.replay w).toRecords id)),
          ("baseUrl", (log.replay w).baseUrl)] := by
  unfold appended Log.replay Log.append
  simp only [if_neg hw.action.located]

/-! ## What a file may hold -/

/-- The names under which a recording is kept. -/
def keys : List String := ["actions", "baseUrl", "isRecording"]

/-- No key is the text of a value. -/
theorem faults_read_key {key : String} (h : key ∈ keys) :
    Json.faults (Json.read key) = .error .expectingValue := by
  simp only [keys, List.mem_cons, List.not_mem_nil, or_false] at h
  rcases h with rfl | rfl | rfl <;> rfl

/-- A name that is no text is written like none of the keys: its text is that of a value. -/
theorem clear_of_mem_keys {key : String} (hkey : key ∈ keys) (name : Json) :
    Members.Clear key name := by
  intro hwritten
  by_cases htext : ∃ s, name = .str s
  · obtain ⟨s, rfl⟩ := htext
    rw [← hwritten, Members.writtenName]
  · have hread := Json.faults_read_write {} name
    rw [← Members.writtenName_of_ne fun s hs => htext ⟨s, hs⟩, hwritten,
      faults_read_key hkey] at hread
    exact absurd hread.symm (Json.reread_ne_expectingValue _ name)

/-- Setting keys and writing the names change places. -/
theorem toFields_merge (members : Members) {changes : Fields} (hkeys : ∀ f ∈ changes, f.1 ∈ keys) :
    (members.merge (.ofFields changes)).toFields = members.toFields.merge changes := by
  induction changes generalizing members with
  | nil => rfl
  | cons f rest ih =>
    obtain ⟨key, value⟩ := f
    have hset := Members.toFields_set
      (fun m (_ : m ∈ members) => clear_of_mem_keys (hkeys (key, value) (by simp)) m.1) value
    have hnext := ih (members.set (.str key) value) fun g hg => hkeys g (by simp [hg])
    rw [hset] at hnext
    exact hnext

/-- Members that can be written and read back, each key at most once among their written names. -/
structure Sound (members : Members) : Prop where
  values : ∀ m ∈ members, m.2.Fits (Json.maxDepth - 1)
  once : ∀ key ∈ keys, members.toFields.names.count key ≤ 1

/-- A member of limited depth keeps the data sound. -/
theorem Sound.set {members : Members} (h : Sound members) (name : Json) {value : Json}
    (hvalue : value.Fits (Json.maxDepth - 1)) : Sound (members.set name value) := by
  refine ⟨?_, ?_⟩
  · intro m hm
    rcases (Members.mem_set hm).2 with heq | ⟨m', hm', heq⟩
    · rwa [heq]
    · rw [heq]
      exact h.values m' hm'
  · intro key hkey
    exact Members.count_written_set_le (fun m _ => clear_of_mem_keys hkey m.1)
      (h.once key hkey) (clear_of_mem_keys hkey name) value

/-- Changes of limited depth keep the data sound. -/
theorem Sound.merge {members more : Members} (h : Sound members)
    (hmore : ∀ m ∈ more, m.2.Fits (Json.maxDepth - 1)) : Sound (members.merge more) := by
  induction more generalizing members with
  | nil => exact h
  | cons m rest ih =>
    exact ih (h.set m.1 (hmore m (by simp))) fun m' hm' => hmore m' (by simp [hm'])

theorem sound_emptyFields : Sound (.ofFields emptyFields) := by
  refine ⟨?_, by decide⟩
  intro m hm
  simp only [Members.ofFields, emptyFields, List.map_cons, List.map_nil, List.mem_cons,
    List.not_mem_nil, or_false] at hm
  rcases hm with rfl | rfl | rfl
  · exact .str _
  · exact .arr (by simp)
  · exact .bool _

/-- The elements of a value are less deep than the value. -/
theorem fits_of_elements? {v : Json} {items : List Json} {room : Nat}
    (h : v.Fits (room + 1)) (hitems : Log.elements? v = some items) : ∀ w ∈ items, w.Fits room := by
  cases h with
  | null => simp [Log.elements?] at hitems
  | bool b => simp [Log.elements?] at hitems
  | int hn => simp [Log.elements?] at hitems
  | float x => simp [Log.elements?] at hitems
  | str s =>
    obtain rfl := Option.some.inj hitems
    intro w hw
    obtain ⟨c, -, rfl⟩ := List.mem_map.1 hw
    exact .str _
  | arr hall =>
    obtain rfl := Option.some.inj hitems
    exact hall
  | obj hnames hfields =>
    obtain rfl := Option.some.inj hitems
    intro w hw
    obtain ⟨f, -, rfl⟩ := List.mem_map.1 hw
    exact .str _

/-- A pair of name and value is less deep than the item that it comes from. -/
theorem fits_of_pairOf {index : Nat} {item : Json} {pair : Json × Json} {room : Nat}
    (h : item.Fits (room + 1)) (hpair : pairOf index item = .ok pair) : pair.2.Fits room := by
  unfold pairOf at hpair
  split at hpair
  · simp at hpair
  · next name value helements =>
    split at hpair
    · obtain rfl := Except.ok.inj hpair
      exact fits_of_elements? h helements value (by simp)
    · simp at hpair
  · simp at hpair

/-- Whatever the text of a file says, its members are sound. -/
theorem sound_of_mergeValue {v : Json} {members : Members} (h : v.Fits Json.maxDepth)
    (hmerge : mergeValue (.ofFields emptyFields) v = .ok members) : Sound members := by
  unfold mergeValue at hmerge
  split at hmerge
  · next fields =>
    obtain rfl := Except.ok.inj hmerge
    cases h with
    | obj hnames hfields =>
      refine sound_emptyFields.merge fun m hm => ?_
      obtain ⟨f, hf, rfl⟩ := List.mem_map.1 hm
      exact hfields f hf
  · split at hmerge
    · simp at hmerge
    · next items hitems =>
      obtain ⟨pairs, hpairs, hmerge⟩ := exists_of_bind_ok hmerge
      obtain rfl := Except.ok.inj hmerge
      have hall := @fits_of_elements? _ _ 984 h hitems
      refine sound_emptyFields.merge fun m hm => ?_
      obtain ⟨⟨index, item⟩, hitem, hpair⟩ := exists_of_mem_mapM hpairs m hm
      obtain ⟨k, hk, heq⟩ := List.mem_mapIdx.1 hitem
      obtain ⟨rfl, rfl⟩ := Prod.mk.inj heq
      have hvalue := @fits_of_pairOf _ _ _ 983 (hall _ (List.getElem_mem hk)) hpair
      exact hvalue.mono (by decide)

/-! ## Writing and reading back -/

/-- Members of an object that a file can hold. -/
structure Writable (fields : Fields) : Prop where
  values : ∀ f ∈ fields, f.2.Fits (Json.maxDepth - 1)
  once : ∀ key ∈ keys, fields.names.count key ≤ 1

/-- Sound data can be written, and read again. -/
theorem Sound.writable {members : Members} (h : Sound members) : Writable members.toFields := by
  refine ⟨?_, h.once⟩
  intro f hf
  obtain ⟨m, hm, rfl⟩ := List.mem_map.1 hf
  exact h.values m hm

theorem Writable.set {fields : Fields} (h : Writable fields) (name : String) {value : Json}
    (hvalue : value.Fits (Json.maxDepth - 1)) : Writable (fields.set name value) := by
  refine ⟨?_, fun key hkey => Fields.count_names_set_le (h.once key hkey) name value⟩
  intro f hf
  rcases Fields.mem_set hf with heq | hf
  · rwa [heq]
  · exact h.values f hf

theorem Writable.merge {fields changes : Fields} (h : Writable fields)
    (hchanges : ∀ f ∈ changes, f.2.Fits (Json.maxDepth - 1)) : Writable (fields.merge changes) := by
  induction changes generalizing fields with
  | nil => exact h
  | cons f rest ih =>
    exact ih (h.set f.1 (hchanges f (by simp))) fun g hg => hchanges g (by simp [hg])

/-- The store is read as the members, without a notice, and can be written again. -/
structure Holds (store : Store) (fields : Fields) : Prop where
  read_eq : store.read = (.ok (.members (.ofFields fields)), [])
  writable : ∀ path text, store = .file path text → Writable fields

/-- What was put into a store is found there. -/
theorem holds_put (store : Store) {fields : Fields}
    (hfile : ∀ path text, store = .file path text → Writable fields) {records : List Json}
    (hrecords : fields.get? "actions" = some (.arr records)) :
    (store.put (.obj fields)).result = .ok () ∧ (store.put (.obj fields)).notices = []
      ∧ ∃ held, (store.put (.obj fields)).store.Holds held
        ∧ ∀ key ∈ keys, ∀ v, fields.get? key = some v → held.get? key = some v := by
  cases store with
  | memory data =>
    exact ⟨rfl, rfl, fields, ⟨rfl, fun path text h => by simp [put] at h⟩, fun _ _ _ h => h⟩
  | file path text =>
    have hwritable := hfile path text rfl
    have hread := Json.read_write_obj hwritable.values { indent := some 2 }
    have hempty : Writable emptyFields := sound_emptyFields.writable
    have hvalues : ∀ f ∈ Fields.ofList fields, f.2.Fits (Json.maxDepth - 1) := by
      intro f hf
      obtain ⟨g, hg, heq⟩ := Fields.mem_ofList hf
      rw [heq]
      exact hwritable.values g hg
    refine ⟨?_, rfl, emptyFields.merge (.ofList fields), ⟨?_, ?_⟩, ?_⟩
    · simp [put, checkSize, hrecords]
    · rw [put, read, hread]
      simp only [mergeValue, Members.merge_ofFields]
      rfl
    · exact fun _ _ _ => hempty.merge hvalues
    · intro key hkey v hv
      have honce := List.nodup_iff_count_le_one.1 (Fields.nodup_ofList fields) key
      rw [Fields.get?_merge honce, Fields.ofList, Fields.get?_merge (hwritable.once key hkey), hv]
      rfl

/-! ## Operations -/

/-- What a store keeps of a recording. Where `recording` is none, nothing is said of it. -/
def Keeps (store : Store) (log : Log Json) (recording : Option Json) : Prop :=
  ∃ fields, store.Holds fields ∧ fields.get? "actions" = some (.arr (log.toRecords id))
    ∧ fields.get? "baseUrl" = some log.baseUrl
    ∧ ∀ v ∈ recording, fields.get? "isRecording" = some v

/-- What an operation that succeeds leads to. -/
structure Outcome.Succeeds (o : Outcome Unit) (log : Log Json) (recording : Option Json) :
    Prop where
  result : o.result = .ok ()
  notices : o.notices = []
  keeps : o.store.Keeps log recording

theorem withData_of_holds {store : Store} {fields : Fields} (h : store.Holds fields)
    (f : Data → Outcome Unit) : store.withData f = f (.members (.ofFields fields)) := by
  rw [withData, h.read_eq]
  rfl

/-- What is committed is kept. -/
theorem succeeds_commit (store : Store) {members : Members} {changes written : Fields}
    (hwritten : (members.merge (.ofFields changes)).toFields = written)
    (hfile : ∀ path text, store = .file path text → Writable written)
    {log : Log Json} {recording : Option Json}
    (hactions : written.get? "actions" = some (.arr (log.toRecords id)))
    (hbaseUrl : written.get? "baseUrl" = some log.baseUrl)
    (hrecording : ∀ v ∈ recording, written.get? "isRecording" = some v) :
    (store.commit (.members members) changes).Succeeds log recording := by
  obtain ⟨hresult, hnotices, held, hheld, hfound⟩ := holds_put store hfile hactions
  have hcommit : store.commit (.members members) changes
      = { store.put (.obj written) with changes := changesOf members changes } := by
    simp only [commit, Data.toJson, hwritten, hresult]
  rw [hcommit]
  exact ⟨hresult, hnotices, held, hheld, hfound _ (by decide) _ hactions,
    hfound _ (by decide) _ hbaseUrl, fun v hv => hfound _ (by decide) v (hrecording v hv)⟩

/-- A change that fits is written, and the store shows what was changed. -/
theorem Holds.succeeds_commit {store : Store} {fields changes : Fields} (h : store.Holds fields)
    (hfits : ∀ f ∈ changes, f.2.Fits (Json.maxDepth - 1)) {log : Log Json} {recording : Option Json}
    (hactions : (fields.merge changes).get? "actions" = some (.arr (log.toRecords id)))
    (hbaseUrl : (fields.merge changes).get? "baseUrl" = some log.baseUrl)
    (hrecording : ∀ v ∈ recording, (fields.merge changes).get? "isRecording" = some v) :
    (store.commit (.members (.ofFields fields)) changes).Succeeds log recording := by
  have hfile : ∀ path text, store = .file path text → Writable (fields.merge changes) :=
    fun path text hfile => (h.writable path text hfile).merge hfits
  refine Store.succeeds_commit store ?_ hfile hactions hbaseUrl hrecording
  rw [Members.merge_ofFields, Members.toFields_ofFields]

/-- An append keeps the log that the write leads to. -/
theorem Keeps.append {store : Store} {log : Log Json} {recording : Option Json}
    (h : store.Keeps log recording) (hlog : log.Storable) {w : PendingWrite} (hw : w.Storable) :
    (store.append w.action w.coalesce w.baseUrl).Succeeds (log.replay w) recording := by
  obtain ⟨fields, hholds, hactions, hbaseUrl, hrecording⟩ := h
  have hreplay := hlog.replay hw
  have hlogOf : logOf (.members (.ofFields fields)) = .ok log := by
    have hmap : (⟨"", log.actions.map (·.map Json.display)⟩ : Log String).map Json.str
        = { log with baseUrl := .str "" } := by
      rw [Log.map, hlog.map_display]
    rw [logOf, need, Members.get?_ofFields, hactions, need, Members.get?_ofFields, hbaseUrl]
    simp only [bind, Except.bind, hlog.ofCollection, hmap]
    rfl
  rw [Store.append, withData_of_holds hholds, hlogOf]
  simp only [bind, Except.bind, appended_eq hw]
  refine hholds.succeeds_commit ?_ ?_ ?_ ?_
  · obtain ⟨u, hu⟩ := hreplay.baseUrl
    have hrecords : (Json.arr ((log.replay w).toRecords id)).Fits (Json.maxDepth - 1) := by
      refine Log.fits_toRecords fun a ha v hv => ?_
      obtain ⟨s, rfl⟩ := (hreplay.actions a ha).value v hv
      exact .str s
    simpa [hu] using ⟨hrecords, Json.Fits.str u⟩
  · simp [Fields.merge, Fields.get?_set]
  · simp [Fields.merge, Fields.get?_set]
  · intro v hv
    simpa [Fields.merge, Fields.get?_set] using hrecording v hv

/-- The mark of a recording is set without a change of the log. -/
theorem Keeps.setRecording {store : Store} {log : Log Json} {recording : Option Json}
    (h : store.Keeps log recording) (b : Bool) :
    (store.setRecording (.bool b)).Succeeds log (some (.bool b)) := by
  obtain ⟨fields, hholds, hactions, hbaseUrl, -⟩ := h
  rw [Store.setRecording, withData_of_holds hholds]
  refine hholds.succeeds_commit ?_ ?_ ?_ ?_
  · simpa using Json.Fits.bool b
  · simpa [Fields.merge, Fields.get?_set] using hactions
  · simpa [Fields.merge, Fields.get?_set] using hbaseUrl
  · simp [Fields.merge, Fields.get?_set]

/-- A store that is reset keeps an empty log. -/
theorem Keeps.reset {store : Store} {log : Log Json} {recording : Option Json}
    (h : store.Keeps log recording) :
    store.reset.Succeeds { baseUrl := .str "" } recording := by
  obtain ⟨fields, hholds, -, -, hrecording⟩ := h
  rw [Store.reset, withData_of_holds hholds]
  refine hholds.succeeds_commit ?_ ?_ ?_ ?_
  · simpa using ⟨Json.Fits.arr (by simp), Json.Fits.str ""⟩
  · simp [Fields.merge, Fields.get?_set, Log.toRecords]
  · simp [Fields.merge, Fields.get?_set]
  · intro v hv
    simpa [Fields.merge, Fields.get?_set] using hrecording v hv

/-- What was read from a file can be written again, whoever wrote it. -/
theorem writable_of_read {path : String} {text : Option String} {members : Members}
    {notices : List Notice}
    (h : (Store.file path text).read = (.ok (.members members), notices)) :
    Writable members.toFields := by
  cases text with
  | none =>
    have heq := Data.members.inj (Except.ok.inj (Prod.mk.inj h).1)
    exact heq ▸ sound_emptyFields.writable
  | some text =>
    rw [read] at h
    split at h
    · next v hread =>
      obtain ⟨found, hfound, heq⟩ := exists_of_bind_ok (Prod.mk.inj h).1
      obtain rfl := Data.members.inj (Except.ok.inj heq)
      exact (sound_of_mergeValue (Json.fits_of_read hread) hfound).writable
    · simp at h
    · simp at h
    · have heq := Data.members.inj (Except.ok.inj (Prod.mk.inj h).1)
      exact heq ▸ sound_emptyFields.writable

/-- Whatever was in the store before, a reset that succeeds keeps an empty log. -/
theorem keeps_of_reset {store : Store} (h : store.reset.result = .ok ()) :
    store.reset.store.Keeps { baseUrl := .str "" } none := by
  have hfits : ∀ f ∈ ([("actions", .arr []), ("baseUrl", .str "")] : Fields),
      f.2.Fits (Json.maxDepth - 1) := by
    simpa using ⟨Json.Fits.arr (by simp), Json.Fits.str ""⟩
  unfold Store.reset withData at h ⊢
  split at h
  · simp at h
  · next data notices hread =>
    cases data with
    | single found => simp [commit] at h
    | members members =>
      have hfile : ∀ path text, store = .file path text →
          Writable (members.toFields.merge [("actions", .arr []), ("baseUrl", .str "")]) := by
        rintro path text rfl
        exact (writable_of_read hread).merge hfits
      have hcommit := @Store.succeeds_commit store _ _ _ (toFields_merge members (by decide))
        hfile { baseUrl := .str "" } none
        (by simp [Fields.merge, Fields.get?_set, Log.toRecords])
        (by simp [Fields.merge, Fields.get?_set]) (by simp)
      exact hcommit.keeps

end Store

end Retrace
