/-
The operations that write to a store.

They work alike: the data is read, the members to set are worked out from it, and these are set
(`Edit.run_eq`). So an edit is refused and leaves the store as it is, or it puts the members it has
read with its own ones set (`Edit.run_cases`). It sets no name but the three keys.

What was put into a file is read in the order in which it stands there, since the three keys come
first in all that was read (`Settled`). That a member is found again takes that its name is a text.
-/
import Retrace.Proofs.Recording.Keeping

set_option autoImplicit false

namespace Retrace.Store

/-! ## What a file is read as -/

/-- Members as a file is read: the three keys first, and each name once. -/
structure Settled (fields : Fields) : Prop where
  begins : emptyFields.names <+: fields.names
  nodup : fields.names.Nodup
  values : ∀ f ∈ fields, f.2.Fits (Json.maxDepth - 1)

theorem Settled.merge {fields changes : Fields} (h : Settled fields)
    (hchanges : ∀ f ∈ changes, f.2.Fits (Json.maxDepth - 1)) : Settled (fields.merge changes) := by
  refine ⟨h.begins.trans (fields.names_prefix_merge changes),
    Fields.nodup_merge h.nodup changes, ?_⟩
  intro f hf
  rcases Fields.mem_merge hf with ⟨g, hg, heq⟩ | hf
  · exact heq ▸ hchanges g hg
  · exact h.values f hf

/-- The three keys stand first already. -/
theorem Settled.merge_self {fields : Fields} (h : Settled fields) :
    emptyFields.merge fields = fields := by
  obtain ⟨hbegins, hnodup, -⟩ := h
  match fields with
  | [] | [_] | [_, _] => simp [emptyFields, Fields.names] at hbegins
  | (n₁, u) :: (n₂, a) :: (n₃, r) :: rest =>
    obtain ⟨rfl, rfl, rfl⟩ : "baseUrl" = n₁ ∧ "actions" = n₂ ∧ "isRecording" = n₃ := by
      simpa [emptyFields, Fields.names] using hbegins
    exact @Fields.merge_of_nodup [("baseUrl", u), ("actions", a), ("isRecording", r)] rest hnodup

/-- Settled members that were written to a file are read from it. -/
theorem Settled.read {fields : Fields} (h : Settled fields) (path : String) :
    (Store.file path (some (Json.write { indent := some 2 } (.obj fields)))).read
      = (.ok (.members (.ofFields fields)), []) := by
  rw [Store.read, Json.read_write_obj h.values, Fields.ofList_of_nodup h.nodup]
  simp only [mergeValue, Members.merge_ofFields, h.merge_self]
  rfl

/-- What was read from a file is settled, where its names are texts. -/
theorem settled_of_read {path : String} {text : Option String} {fields : Fields}
    {notices : List Notice}
    (h : (Store.file path text).read = (.ok (.members (.ofFields fields)), notices)) :
    Settled fields := by
  have hvalues : ∀ f ∈ fields, f.2.Fits (Json.maxDepth - 1) := by
    have hwritable := writable_of_read h
    rw [Members.toFields_ofFields] at hwritable
    exact hwritable.values
  -- whatever the text says, it was set on top of the members of an empty store
  have hmerge : ∃ more : Members,
      Members.ofFields fields = (Members.ofFields emptyFields).merge more := by
    cases text with
    | none => exact ⟨[], (Data.members.inj (Except.ok.inj (Prod.mk.inj h).1)).symm⟩
    | some text =>
      rw [Store.read] at h
      split at h
      · obtain ⟨members, hmembers, heq⟩ := exists_of_bind_ok (Prod.mk.inj h).1
        obtain rfl := Data.members.inj (Except.ok.inj heq)
        unfold mergeValue at hmembers
        split at hmembers
        · exact ⟨_, (Except.ok.inj hmembers).symm⟩
        · split at hmembers
          · cases hmembers
          · obtain ⟨pairs, -, hpairs⟩ := exists_of_bind_ok hmembers
            exact ⟨pairs, (Except.ok.inj hpairs).symm⟩
      · simp at h
      · simp at h
      · exact ⟨[], (Data.members.inj (Except.ok.inj (Prod.mk.inj h).1)).symm⟩
  obtain ⟨more, hmore⟩ := hmerge
  obtain ⟨-, more, rfl⟩ := Members.exists_ofFields_of_merge hmore.symm
  rw [Members.merge_ofFields] at hmore
  have heq : fields = emptyFields.merge more := by
    have hnames := congrArg Members.toFields hmore
    rwa [Members.toFields_ofFields, Members.toFields_ofFields] at hnames
  refine ⟨?_, ?_, hvalues⟩
  · rw [heq]
    exact emptyFields.names_prefix_merge more
  · rw [heq]
    exact Fields.nodup_merge (by decide) more

/-! ## Appends -/

theorem mem_of_get? {members : Members} {name v : Json} (h : members.get? name = some v) :
    ∃ m ∈ members, m.2 = v := by
  obtain ⟨m, hm, hv⟩ := Option.map_eq_some_iff.1 h
  exact ⟨m, List.mem_of_find?_eq_some hm, hv⟩

/-- A stored log has texts as the values of its actions, and its address is a stored value. -/
theorem logOf_eq_ok {members : Members} {log : Log Json} (h : logOf (.members members) = .ok log) :
    (∀ a ∈ log.actions, ∀ v ∈ a.value, ∃ s, v = .str s) ∧ ∃ m ∈ members, m.2 = log.baseUrl := by
  obtain ⟨records, -, h⟩ := exists_of_bind_ok h
  obtain ⟨u, hu, h⟩ := exists_of_bind_ok h
  have hmem : ∃ m ∈ members, m.2 = u := by
    unfold need at hu
    dsimp only at hu
    split at hu
    · next hget => exact Except.ok.inj hu ▸ mem_of_get? hget
    · cases hu
  dsimp only at h
  split at h
  · next read hread =>
    obtain rfl := Except.ok.inj h
    refine ⟨fun a ha v hv => ?_, hmem⟩
    obtain ⟨b, -, rfl⟩ := List.mem_map.1 ha
    obtain ⟨s, -, rfl⟩ := Option.map_eq_some_iff.1 hv
    exact ⟨s, rfl⟩
  · cases h

/-- The address that an append leaves behind, where the log has one already and another is given. -/
def addressAfter (actions : List (Action Json)) (old given : Json) : Json :=
  if actions.isEmpty && !old.truthy && given.truthy then given else old

theorem appended_eq_addressAfter (actions : List (Action Json)) (old given : Json) (a : Action Json)
    (coalesce : Bool) :
    appended { baseUrl := old, actions } a coalesce given
      = if a.locator = "" then .error (.missingLocator ⟨a.kind⟩)
        else .ok [
          ("actions", .arr ((Log.push { baseUrl := old, actions } a coalesce).toRecords id)),
          ("baseUrl", addressAfter actions old given)] := by
  have hlog : (if actions.isEmpty && !old.truthy && given.truthy then
      ({ baseUrl := given, actions } : Log Json) else { baseUrl := old, actions })
        = { baseUrl := addressAfter actions old given, actions } := by
    unfold addressAfter
    split <;> rfl
  unfold appended Log.append
  dsimp only
  rw [hlog]
  by_cases ha : a.locator = ""
  · rw [if_pos ha, if_pos ha]
  · rw [if_neg ha, if_neg ha]
    rfl

theorem withData_of_ok {store : Store} {data : Data} (hread : store.read.1 = .ok data) {α : Type}
    (f : Data → Outcome α) :
    (store.withData f).store = (f data).store ∧ (store.withData f).result = (f data).result := by
  unfold Store.withData
  generalize store.read = read at hread ⊢
  obtain ⟨_, notices⟩ := read
  obtain rfl : _ = Except.ok data := hread
  exact ⟨rfl, rfl⟩

theorem withData_of_error {store : Store} {e : Error} (hread : store.read.1 = .error e) {α : Type}
    (f : Data → Outcome α) :
    (store.withData f).store = store ∧ (store.withData f).result = .error e := by
  unfold Store.withData
  generalize store.read = read at hread ⊢
  obtain ⟨_, notices⟩ := read
  obtain rfl : _ = Except.error e := hread
  exact ⟨rfl, rfl⟩

theorem load_eq {store : Store} {fields : Fields} {notices : List Notice}
    (hread : store.read = (.ok (.members (.ofFields fields)), notices)) :
    store.load.result = .ok (.obj fields) := by
  rw [load, withData, hread]
  show Except.ok (Json.obj (Members.ofFields fields).toFields) = _
  rw [Members.toFields_ofFields]

/-- What is committed is put into the place of the data. -/
theorem commit_members (store : Store) (members : Members) (changes : Fields) :
    (store.commit (.members members) changes).store
        = (store.put (.obj (members.merge (.ofFields changes)).toFields)).store
      ∧ (store.commit (.members members) changes).result
        = (store.put (.obj (members.merge (.ofFields changes)).toFields)).result := by
  unfold commit
  dsimp only [Data.toJson]
  split
  · next hresult => exact ⟨rfl, rfl⟩
  · exact ⟨rfl, rfl⟩

/-! ## Edits -/

/-- An operation that writes. -/
inductive Edit where
  | append (a : Action Json) (coalesce : Bool) (baseUrl : Json)
  | reset
  | setRecording (value : Json)

namespace Edit

def run (store : Store) : Edit → Outcome Unit
  | .append a coalesce baseUrl => store.append a coalesce baseUrl
  | .reset => store.reset
  | .setRecording value => store.setRecording value

/-- The members that the edit sets, or why it cannot. -/
def changes (data : Data) : Edit → Except Error Fields
  | .append a coalesce baseUrl => do appended (← logOf data) a coalesce baseUrl
  | .reset => .ok [("actions", .arr []), ("baseUrl", .str "")]
  | .setRecording value => .ok [("isRecording", value)]

/-- The names under which the edit sets something. -/
def names : Edit → List String
  | .append .. | .reset => ["actions", "baseUrl"]
  | .setRecording _ => ["isRecording"]

/-- The values of the edit can be read from a file at the place where they are put. -/
def Fits : Edit → Prop
  | .append a _ baseUrl =>
    (∀ v ∈ a.value, v.Fits (Json.maxDepth - 3)) ∧ baseUrl.Fits (Json.maxDepth - 1)
  | .reset => True
  | .setRecording value => value.Fits (Json.maxDepth - 1)

theorem nodup_names (e : Edit) : e.names.Nodup := by
  cases e <;> simp [names]

theorem names_changes {data : Data} {e : Edit} {changes : Fields}
    (h : e.changes data = .ok changes) : changes.names = e.names := by
  cases e with
  | append a coalesce baseUrl =>
    obtain ⟨⟨old, actions⟩, -, happended⟩ := exists_of_bind_ok h
    rw [appended_eq_addressAfter] at happended
    split at happended
    · cases happended
    · rw [← Except.ok.inj happended]
      rfl
  | reset => rw [← Except.ok.inj h]; rfl
  | setRecording value => rw [← Except.ok.inj h]; rfl

/-- No edit sets anything but the keys of a recording. -/
theorem mem_keys_of_mem_changes {data : Data} {e : Edit} {changes : Fields}
    (h : e.changes data = .ok changes) : ∀ f ∈ changes, f.1 ∈ keys := by
  have hnames : ∀ name ∈ e.names, name ∈ keys := by
    cases e <;> simp [names, keys]
  intro f hf
  exact hnames f.1 (names_changes h ▸ List.mem_map_of_mem hf)

/-- Where the stored values and those of the edit fit, so do the values that are set. -/
theorem fits_changes {members : Members} (hmembers : ∀ m ∈ members, m.2.Fits (Json.maxDepth - 1))
    {e : Edit} (he : e.Fits) {changes : Fields} (h : e.changes (.members members) = .ok changes) :
    ∀ f ∈ changes, f.2.Fits (Json.maxDepth - 1) := by
  cases e with
  | append a coalesce baseUrl =>
    obtain ⟨⟨old, actions⟩, hlog, happended⟩ := exists_of_bind_ok h
    obtain ⟨htexts, m, hm, hold⟩ := logOf_eq_ok hlog
    rw [appended_eq_addressAfter] at happended
    split at happended
    · cases happended
    · rw [← Except.ok.inj happended, List.forall_mem_cons, List.forall_mem_singleton]
      refine ⟨Log.fits_toRecords fun b hb v hv => ?_, ?_⟩
      · -- what was stored has texts for values by now, so only the new action brings its own
        rcases List.mem_append.1 hb with hb | hb
        · obtain ⟨s, rfl⟩ := htexts b (Log.kept_subset coalesce a actions hb) v hv
          exact .str s
        · obtain ⟨timestamp, hentry⟩ := Log.exists_entry_eq ⟨old, actions⟩ a coalesce
          rw [List.mem_singleton.1 hb, hentry] at hv
          exact he.1 v hv
      · unfold addressAfter
        split
        · exact he.2
        · have hold : m.2 = old := hold
          exact hold ▸ hmembers m hm
  | reset =>
    rw [← Except.ok.inj h, List.forall_mem_cons, List.forall_mem_singleton]
    exact ⟨.arr (by simp), .str ""⟩
  | setRecording value =>
    rw [← Except.ok.inj h, List.forall_mem_singleton]
    exact he

theorem run_eq (store : Store) (e : Edit) :
    e.run store = store.withData fun data =>
      match e.changes data with
      | .ok changes => store.commit data changes
      | .error why => { store, result := .error why } := by
  cases e <;> rfl

/-- Where members are read and can be set, what comes of the edit is what comes of setting them. -/
theorem run_of_changes {store : Store} {members : Members} {notices : List Notice}
    (hread : store.read = (.ok (.members members), notices)) {e : Edit} {changes : Fields}
    (hchanges : e.changes (.members members) = .ok changes) :
    e.run store = { store.commit (.members members) changes with notices } := by
  have hsilent : (store.commit (.members members) changes).notices = [] := by
    unfold commit
    dsimp only
    split <;> cases store <;> rfl
  rw [run_eq, withData, hread]
  simp only [hchanges, hsilent, List.append_nil]

/-- An edit of members under texts whose write succeeds puts them with its own ones set, and tells
of all changes. -/
theorem run_of_ok {store : Store} {fields : Fields} {notices : List Notice}
    (hread : store.read = (.ok (.members (.ofFields fields)), notices)) {e : Edit}
    {changes : Fields} (hchanges : e.changes (.members (.ofFields fields)) = .ok changes)
    (hput : (store.put (.obj (fields.merge changes))).result = .ok ()) :
    e.run store = {
      store := (store.put (.obj (fields.merge changes))).store, result := .ok ()
      changes := changesOf (.ofFields fields) changes, notices } := by
  have hmerged : Data.toJson (.members ((Members.ofFields fields).merge (.ofFields changes)))
      = .obj (fields.merge changes) := by
    rw [Members.merge_ofFields, Data.toJson, Members.toFields_ofFields]
  rw [run_of_changes hread hchanges]
  simp only [commit, hmerged, hput]

/-- An edit is refused, or else its members are put into the place of those that were read. -/
theorem run_cases (store : Store) (e : Edit) :
    (∃ why notices, e.run store = { store, result := .error why, notices })
      ∨ ∃ members notices changes, store.read = (.ok (.members members), notices)
        ∧ e.changes (.members members) = .ok changes := by
  rw [run_eq, withData]
  rcases hread : store.read with ⟨found, notices⟩
  cases found with
  | error why => exact .inl ⟨why, notices, rfl⟩
  | ok data =>
    dsimp only
    cases hchanges : e.changes data with
    | error why => exact .inl ⟨why, notices, by simp⟩
    | ok changes =>
      cases data with
      | single found => exact .inl ⟨.notAMapping found, notices, by simp [commit]⟩
      | members members => exact .inr ⟨members, notices, changes, rfl, hchanges⟩

/-- Only an edit that leaves the actions alone may leave a file behind whose actions have no
number. -/
theorem checkSize_merge {data : Data} {e : Edit} {changes : Fields}
    (h : e.changes data = .ok changes) (fields : Fields) :
    checkSize (.obj (fields.merge changes))
      = if "actions" ∈ e.names then .ok () else checkSize (.obj fields) := by
  cases e with
  | append a coalesce baseUrl =>
    obtain ⟨⟨old, actions⟩, -, happended⟩ := exists_of_bind_ok h
    rw [appended_eq_addressAfter] at happended
    split at happended
    · cases happended
    · rw [← Except.ok.inj happended]
      simp [checkSize, Fields.merge, Fields.get?_set, names]
  | reset =>
    rw [← Except.ok.inj h]
    simp [checkSize, Fields.merge, Fields.get?_set, names]
  | setRecording value =>
    rw [← Except.ok.inj h]
    simp [checkSize, Fields.merge, Fields.get?_set, names]

/-- What an edit puts into the place of members that were read is read from there. -/
theorem read_put {store : Store} {fields : Fields} {notices : List Notice}
    (hread : store.read = (.ok (.members (.ofFields fields)), notices)) {e : Edit} (he : e.Fits)
    {changes : Fields} (hchanges : e.changes (.members (.ofFields fields)) = .ok changes) :
    (store.put (.obj (fields.merge changes))).store.read
      = (.ok (.members (.ofFields (fields.merge changes))), []) := by
  cases store with
  | memory data => rfl
  | file path text =>
    have hsettled := settled_of_read hread
    refine (hsettled.merge (fits_changes ?_ he hchanges)).read path
    intro m hm
    obtain ⟨f, hf, rfl⟩ := List.mem_map.1 hm
    exact hsettled.values f hf

end Edit

end Retrace.Store
