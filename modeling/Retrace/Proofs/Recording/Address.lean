/-
Stores that differ in their address only.

The address comes from the first page that has one, so two recordings of the same actions may be
stored under different addresses. Beside that, their stores are the same, and stay so through every
operation: nothing but the address itself is made of the address, and either of two addresses that
fit anywhere is read back from a file. So the operations succeed or fail alike. A reset takes the
difference away.
-/
import Retrace.Proofs.Recording.Edit

set_option autoImplicit false

namespace Retrace

/-- A value that says nothing fits wherever a container may stand. -/
theorem Json.fits_of_not_truthy {v : Json} (h : v.truthy = false) : v.Fits 1 := by
  cases v with
  | null => exact .null
  | bool b => exact .bool b
  | int n =>
    obtain rfl : n = 0 := by simpa [truthy] using h
    exact .int (by decide)
  | float x => exact .float x
  | str s => exact .str s
  | arr items =>
    obtain rfl : items = [] := by simpa [truthy] using h
    exact .arr (by simp)
  | obj fields =>
    obtain rfl : fields = [] := by simpa [truthy] using h
    exact .obj (by simp [Fields.names]) (by simp)

/-- Two addresses that are one, or both fit anywhere. -/
def SameUse (u v : Json) : Prop := u = v ∨ u.Fits 1 ∧ v.Fits 1

/-! ## Members -/

namespace Fields

/-- The same members, but for the address. -/
inductive Alike : Fields → Fields → Prop where
  | same (fields : Fields) : Alike fields fields
  | address {u v : Json} (hu : u.Fits 1) (hv : v.Fits 1) (rest : Fields) :
    Alike (("baseUrl", u) :: rest) (("baseUrl", v) :: rest)
  | cons {name : String} (hname : name ≠ "baseUrl") (w : Json) {fields others : Fields}
    (h : Alike fields others) : Alike ((name, w) :: fields) ((name, w) :: others)

/-- An address that is set takes the difference away. -/
theorem Alike.set_address {fields others : Fields} (h : fields.Alike others) (u : Json) :
    fields.set "baseUrl" u = others.set "baseUrl" u := by
  induction h with
  | same => rfl
  | address => rfl
  | cons hname w _ ih => rw [set, set, if_neg hname, if_neg hname, ih]

/-- Setting two addresses makes no other difference. -/
theorem alike_set_address {u v : Json} (h : SameUse u v) (fields : Fields) :
    (fields.set "baseUrl" u).Alike (fields.set "baseUrl" v) := by
  rcases h with rfl | ⟨hu, hv⟩
  · exact .same _
  · induction fields with
    | nil => exact .address hu hv []
    | cons f rest ih =>
      obtain ⟨name, w⟩ := f
      by_cases hname : name = "baseUrl"
      · rw [set, set, if_pos hname, if_pos hname, hname]
        exact .address hu hv rest
      · rw [set, set, if_neg hname, if_neg hname]
        exact .cons hname w ih

theorem Alike.set {fields others : Fields} (h : fields.Alike others) (name : String) (v : Json) :
    (fields.set name v).Alike (others.set name v) := by
  by_cases hkey : name = "baseUrl"
  · rw [hkey, h.set_address]
    exact .same _
  · induction h with
    | same => exact .same _
    | address hu hv rest =>
      rw [Fields.set, Fields.set, if_neg (Ne.symm hkey), if_neg (Ne.symm hkey)]
      exact .address hu hv _
    | cons hname w h ih =>
      rw [Fields.set, Fields.set]
      split
      · exact .cons hname v h
      · exact .cons hname w ih

theorem Alike.merge {fields others : Fields} (h : fields.Alike others) (more : Fields) :
    (fields.merge more).Alike (others.merge more) := by
  induction more generalizing fields others with
  | nil => exact h
  | cons f rest ih => exact ih (h.set f.1 f.2)

theorem Alike.merge_of {fields others : Fields} (h : fields.Alike others) (base : Fields) :
    (base.merge fields).Alike (base.merge others) := by
  induction h generalizing base with
  | same => exact .same _
  | address hu hv rest => exact (alike_set_address (.inr ⟨hu, hv⟩) base).merge rest
  | cons hname w _ ih => exact ih (base.set _ w)

theorem Alike.get?_of_ne {fields others : Fields} (h : fields.Alike others) {key : String}
    (hkey : key ≠ "baseUrl") : fields.get? key = others.get? key := by
  induction h with
  | same => rfl
  | address => simp [get?, List.lookup_cons, beq_false_of_ne hkey]
  | @cons name hname w _ _ _ ih =>
    unfold get? at ih ⊢
    rw [List.lookup_cons, List.lookup_cons, ih]

theorem Alike.get?_address {fields others : Fields} (h : fields.Alike others) :
    Option.Rel SameUse (fields.get? "baseUrl") (others.get? "baseUrl") := by
  induction h with
  | same fields =>
    cases fields.get? "baseUrl" with
    | none => exact .none
    | some u => exact .some (.inl rfl)
  | address hu hv rest => exact .some (.inr ⟨hu, hv⟩)
  | @cons name hname w _ _ _ ih =>
    unfold get? at ih ⊢
    rwa [List.lookup_cons, List.lookup_cons, beq_false_of_ne (Ne.symm hname)]

/-- Members that are alike are read back alike, or not at all. -/
theorem Alike.reread {fields others : Fields} (h : fields.Alike others) (room : Nat) :
    (∃ fault, Json.rereadFields (room + 1) fields = .error fault
        ∧ Json.rereadFields (room + 1) others = .error fault)
      ∨ ∃ read read', Json.rereadFields (room + 1) fields = .ok read
        ∧ Json.rereadFields (room + 1) others = .ok read' ∧ Alike read read' := by
  induction h with
  | same fields =>
    cases Json.rereadFields (room + 1) fields with
    | error fault => exact .inl ⟨fault, rfl, rfl⟩
    | ok read => exact .inr ⟨read, read, rfl, rfl, .same read⟩
  | @address u v hu hv rest =>
    rw [Json.rereadFields, Json.rereadFields, (hu.mono (by omega)).reread,
      (hv.mono (by omega)).reread]
    cases Json.rereadFields (room + 1) rest with
    | error fault => exact .inl ⟨fault, rfl, rfl⟩
    | ok read => exact .inr ⟨_, _, rfl, rfl, .address hu hv read⟩
  | cons hname w _ ih =>
    rw [Json.rereadFields, Json.rereadFields]
    cases Json.reread (room + 1) w with
    | error fault => exact .inl ⟨fault, rfl, rfl⟩
    | ok w =>
      rcases ih with ⟨fault, hread, hread'⟩ | ⟨read, read', hread, hread', halike⟩
      · rw [hread, hread']
        exact .inl ⟨fault, rfl, rfl⟩
      · rw [hread, hread']
        exact .inr ⟨_, _, rfl, rfl, .cons hname w halike⟩

end Fields

/-! ## Stores -/

namespace Store

/-- The same store, or two that differ in the address they keep. -/
inductive Alike : Store → Store → Prop where
  | same (store : Store) : Alike store store
  | memory {fields others : Fields} (h : fields.Alike others) :
    Alike (.memory (.obj fields)) (.memory (.obj others))
  | file (path : String) {fields others : Fields} (h : fields.Alike others) :
    Alike (.file path (some (Json.write { indent := some 2 } (.obj fields))))
      (.file path (some (Json.write { indent := some 2 } (.obj others))))

/-- The same data, or members that differ in the address. -/
inductive Data.Alike : Data → Data → Prop where
  | same (data : Data) : Alike data data
  | members {fields others : Fields} (h : fields.Alike others) :
    Alike (.members (.ofFields fields)) (.members (.ofFields others))

/-- Two outcomes with the same result, and stores that differ in the address at most. -/
structure Outcome.Alike {α : Type} (o o' : Outcome α) : Prop where
  store : o.store.Alike o'.store
  result : o.result = o'.result

variable {store other : Store}

/-- What is read from stores that are alike. -/
theorem Alike.read (h : store.Alike other) :
    (∃ e, store.read.1 = .error e ∧ other.read.1 = .error e)
      ∨ ∃ data data', store.read.1 = .ok data ∧ other.read.1 = .ok data' ∧ data.Alike data' := by
  have hsame (result : Except Error Data) : (∃ e, result = .error e ∧ result = .error e)
      ∨ ∃ data data', result = .ok data ∧ result = .ok data' ∧ data.Alike data' := by
    cases result with
    | error e => exact .inl ⟨e, rfl, rfl⟩
    | ok data => exact .inr ⟨data, data, rfl, rfl, .same data⟩
  cases h with
  | same => exact hsame _
  | memory h => exact .inr ⟨_, _, rfl, rfl, .members h⟩
  | @file path fields others h =>
    have hfields := Json.faults_read_write { indent := some 2 } (.obj fields)
    have hothers := Json.faults_read_write { indent := some 2 } (.obj others)
    have hdepth : Json.maxDepth = 983 + 1 + 1 := rfl
    rw [hdepth, Json.reread] at hfields hothers
    rcases h.reread 983 with ⟨fault, hread, hread'⟩ | ⟨read, read', hread, hread', halike⟩
    · -- both texts are at fault, and in the same way
      rw [hread] at hfields
      rw [hread'] at hothers
      obtain ⟨rest, hfields⟩ := Json.exists_of_faults hfields
      obtain ⟨rest', hothers⟩ := Json.exists_of_faults hothers
      have heq : (Store.file path
            (some (Json.write { indent := some 2 } (.obj fields)))).read.1
          = (Store.file path (some (Json.write { indent := some 2 } (.obj others)))).read.1 := by
        rw [Store.read, Store.read, hfields, hothers]
        cases fault <;> rfl
      rw [heq]
      exact hsame _
    · rw [hread] at hfields
      rw [hread'] at hothers
      refine .inr ⟨.members (.ofFields (emptyFields.merge (.ofList read))),
        .members (.ofFields (emptyFields.merge (.ofList read'))), ?_, ?_, .members ?_⟩
      · rw [Store.read, Json.eq_ok_of_faults hfields]
        simp only [mergeValue, Members.merge_ofFields]
        rfl
      · rw [Store.read, Json.eq_ok_of_faults hothers]
        simp only [mergeValue, Members.merge_ofFields]
        rfl
      · exact (halike.merge_of []).merge_of emptyFields

/-- What is put in the place of alike data is the same. -/
theorem Alike.put_eq (h : store.Alike other) (data : Json) : store.put data = other.put data := by
  cases h <;> rfl

theorem alike_put (store : Store) {fields others : Fields} (h : fields.Alike others) :
    (store.put (.obj fields)).Alike (store.put (.obj others)) := by
  cases store with
  | memory data => exact ⟨.memory h, rfl⟩
  | file path text =>
    refine ⟨.file path h, ?_⟩
    rw [put, put, checkSize, checkSize, h.get?_of_ne (by decide)]

/-! ## Operations -/

theorem Alike.withData {α : Type} (h : store.Alike other) {f g : Data → Outcome α}
    (hfg : ∀ data data', data.Alike data' → (f data).Alike (g data')) :
    (store.withData f).Alike (other.withData g) := by
  rcases h.read with ⟨e, hread, hread'⟩ | ⟨data, data', hread, hread', halike⟩
  · obtain ⟨hstore, hresult⟩ := withData_of_error hread f
    obtain ⟨hstore', hresult'⟩ := withData_of_error hread' g
    exact ⟨by rwa [hstore, hstore'], by rw [hresult, hresult']⟩
  · obtain ⟨hstore, hresult⟩ := withData_of_ok hread f
    obtain ⟨hstore', hresult'⟩ := withData_of_ok hread' g
    have hboth := hfg data data' halike
    exact ⟨by rw [hstore, hstore']; exact hboth.store, by rw [hresult, hresult', hboth.result]⟩

/-- The members of alike data as they are written once the keys are set. -/
theorem Data.Alike.merge {members members' : Members}
    (h : Data.Alike (.members members) (.members members')) {changes changes' : Fields}
    (hkeys : ∀ f ∈ changes, f.1 ∈ keys) (hkeys' : ∀ f ∈ changes', f.1 ∈ keys)
    (hchanges : ∀ fields others : Fields, fields.Alike others →
      (fields.merge changes).Alike (others.merge changes')) :
    (members.merge (.ofFields changes)).toFields.Alike
      (members'.merge (.ofFields changes')).toFields := by
  rw [toFields_merge members hkeys, toFields_merge members' hkeys']
  refine hchanges _ _ ?_
  cases h with
  | same => exact .same _
  | members h =>
    rw [Members.toFields_ofFields, Members.toFields_ofFields]
    exact h

/-- Committing changes to members, where these come out alike. -/
theorem Alike.commit_members (h : store.Alike other) {members members' : Members}
    {changes changes' : Fields}
    (hmerge : (members.merge (.ofFields changes)).toFields.Alike
      (members'.merge (.ofFields changes')).toFields) :
    (store.commit (.members members) changes).Alike
      (other.commit (.members members') changes') := by
  obtain ⟨hstore, hresult⟩ := store.commit_members members changes
  obtain ⟨hstore', hresult'⟩ := other.commit_members members' changes'
  rw [← h.put_eq] at hstore' hresult'
  have hput := store.alike_put hmerge
  exact ⟨by rw [hstore, hstore']; exact hput.store, by rw [hresult, hresult', hput.result]⟩

/-- Committing changes that are alike. -/
theorem Alike.commit (h : store.Alike other) {data data' : Data} (hdata : data.Alike data')
    {changes changes' : Fields} (hkeys : ∀ f ∈ changes, f.1 ∈ keys)
    (hkeys' : ∀ f ∈ changes', f.1 ∈ keys)
    (hchanges : ∀ fields others : Fields, fields.Alike others →
      (fields.merge changes).Alike (others.merge changes')) :
    (store.commit data changes).Alike (other.commit data' changes') := by
  cases hdata with
  | same data =>
    cases data with
    | single found => exact ⟨h, rfl⟩
    | members members => exact h.commit_members (Data.Alike.merge (.same _) hkeys hkeys' hchanges)
  | members hfields =>
    exact h.commit_members (Data.Alike.merge (.members hfields) hkeys hkeys' hchanges)

theorem Alike.setRecording (h : store.Alike other) (v : Json) :
    (store.setRecording v).Alike (other.setRecording v) :=
  h.withData fun _ _ hdata =>
    h.commit hdata (by simp [keys]) (by simp [keys]) fun _ _ hfields => hfields.merge _

theorem Alike.reset (h : store.Alike other) : store.reset.Alike other.reset :=
  h.withData fun _ _ hdata =>
    h.commit hdata (by simp [keys]) (by simp [keys]) fun _ _ hfields => hfields.merge _

/-- After a reset that succeeds, no difference is left. -/
theorem Alike.reset_eq (h : store.Alike other) (hok : store.reset.result = .ok ()) :
    store.reset.store = other.reset.store := by
  unfold Store.reset at hok ⊢
  rcases h.read with ⟨e, hread, -⟩ | ⟨data, data', hread, hread', hdata⟩
  · rw [(withData_of_error hread _).2] at hok
    cases hok
  · obtain ⟨hstore, hresult⟩ := withData_of_ok hread fun data =>
      store.commit data [("actions", .arr []), ("baseUrl", .str "")]
    rw [hresult] at hok
    rw [hstore, (withData_of_ok hread' _).1]
    cases hdata with
    | same data =>
      cases data with
      | single found => cases hok
      | members members =>
        rw [(store.commit_members _ _).1, (other.commit_members _ _).1, h.put_eq]
    | @members fields others hfields =>
      have hmerge : fields.merge [("actions", .arr []), ("baseUrl", .str "")]
          = others.merge [("actions", .arr []), ("baseUrl", .str "")] :=
        (hfields.set "actions" (.arr [])).set_address (.str "")
      rw [(store.commit_members _ _).1, (other.commit_members _ _).1, h.put_eq,
        Members.merge_ofFields, Members.merge_ofFields, hmerge]

/-! ## Appends -/

/-- The logs of alike data are the same but for the address. -/
theorem Data.Alike.logOf {data data' : Data} (h : data.Alike data') :
    (∃ e, Store.logOf data = .error e ∧ Store.logOf data' = .error e)
      ∨ ∃ actions u v, Store.logOf data = .ok { baseUrl := u, actions }
        ∧ Store.logOf data' = .ok { baseUrl := v, actions } ∧ SameUse u v := by
  cases h with
  | same data =>
    cases Store.logOf data with
    | error e => exact .inl ⟨e, rfl, rfl⟩
    | ok log => exact .inr ⟨log.actions, log.baseUrl, log.baseUrl, rfl, rfl, .inl rfl⟩
  | @members fields others h =>
    have hactions : Fields.get? fields "actions" = Fields.get? others "actions" :=
      h.get?_of_ne (by decide)
    have haddress := h.get?_address
    unfold Store.logOf need
    simp only [Members.get?_ofFields, hactions]
    cases Fields.get? others "actions" with
    | none => exact .inl ⟨_, rfl, rfl⟩
    | some records =>
      generalize fields.get? "baseUrl" = address at haddress ⊢
      generalize others.get? "baseUrl" = address' at haddress ⊢
      cases haddress with
      | none => exact .inl ⟨_, rfl, rfl⟩
      | some huse =>
        simp only [bind, Except.bind]
        cases Log.ofCollection records with
        | error e => exact .inl ⟨_, rfl, rfl⟩
        | ok log => exact .inr ⟨_, _, _, rfl, rfl, huse⟩

theorem sameUse_addressAfter (actions : List (Action Json)) {old old' given given' : Json}
    (h : SameUse old old') (hgiven : given.Fits 1) (hgiven' : given'.Fits 1) :
    SameUse (addressAfter actions old given) (addressAfter actions old' given') := by
  rcases h with rfl | ⟨hold, hold'⟩
  · unfold addressAfter
    by_cases hbare : (actions.isEmpty && !old.truthy) = true
    · -- what is replaced says nothing
      have hold : old.Fits 1 :=
        Json.fits_of_not_truthy (by simpa using (Bool.and_eq_true_iff.1 hbare).2)
      rw [hbare, Bool.true_and, Bool.true_and]
      right
      constructor
      · split
        · exact hgiven
        · exact hold
      · split
        · exact hgiven'
        · exact hold
    · rw [Bool.not_eq_true] at hbare
      rw [hbare]
      exact .inl rfl
  · unfold addressAfter
    right
    constructor
    · split
      · exact hgiven
      · exact hold
    · split
      · exact hgiven'
      · exact hold'

/-- An append under either of two addresses that fit anywhere. -/
theorem Alike.append (h : store.Alike other) (a : Action Json) (coalesce : Bool) {u v : Json}
    (hu : u.Fits 1) (hv : v.Fits 1) :
    (store.append a coalesce u).Alike (other.append a coalesce v) := by
  refine h.withData fun data data' hdata => ?_
  rcases hdata.logOf with ⟨e, hlog, hlog'⟩ | ⟨actions, old, old', hlog, hlog', hold⟩
  · rw [hlog, hlog']
    exact ⟨h, rfl⟩
  · rw [hlog, hlog']
    simp only [bind, Except.bind, appended_eq_addressAfter]
    by_cases ha : a.locator = ""
    · simp only [ha, if_true]
      exact ⟨h, rfl⟩
    · simp only [ha, if_false]
      refine h.commit hdata (by simp [keys]) (by simp [keys]) fun fields others hfields => ?_
      have hactions := hfields.set "actions"
        (.arr ((Log.push { baseUrl := old, actions } a coalesce).toRecords id))
      have haddress := Fields.alike_set_address (sameUse_addressAfter actions hold hu hv)
        (others.set "actions"
          (.arr ((Log.push { baseUrl := old, actions } a coalesce).toRecords id)))
      rw [← hactions.set_address] at haddress
      exact haddress

end Store

end Retrace
