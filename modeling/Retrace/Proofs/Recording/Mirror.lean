/-
Edits are done as a whole or not at all, and what is told of them makes a mirror.

An edit that is refused leaves the store as it is and tells nothing; any other puts the members that
were read with its own ones set, and tells of each of these that differs (`Exact`). In a file this
fails in two ways, and no other (`Spoils`): a name that is no text comes back as another name, and
actions that have no number are found out when the file has been written already.

Who starts from what is read and sets whatever is told stays in step with the store. A value that is
set without being told is equal to the one before, so by transitivity of equality the copy is equal
to the store under every name, however many such steps there were.
-/
import Retrace.Proofs.Json.Equality
import Retrace.Proofs.Recording.Edit

set_option autoImplicit false

namespace Retrace.Store

/-! ## What is to come of an edit -/

/-- The change that is to be told of a name. -/
def changeOf (before after : Members) (key : String) : Option Change :=
  let change : Change :=
    ⟨key, (before.get? (.str key)).getD .null, (after.get? (.str key)).getD .null⟩
  if change.before.differs change.after then some change else none

/-- The edit is done as a whole or not at all. What has changed under its own names is told once,
and nothing else is. -/
inductive Exact (store : Store) (e : Edit) : Prop where
  | refused {why : Error} (hresult : (e.run store).result = .error why)
    (hstore : (e.run store).store = store) (hsilent : (e.run store).changes = [])
  | done {before after : Members} {notices : List Notice} {changes : Fields}
    (hresult : (e.run store).result = .ok ())
    (hbefore : store.read = (.ok (.members before), notices))
    (hafter : (e.run store).store.read = (.ok (.members after), []))
    (hchanges : e.changes (.members before) = .ok changes)
    (hset : after = before.merge (.ofFields changes))
    (hkept : ∀ name, (∀ key ∈ e.names, name ≠ .str key) → after.get? name = before.get? name)
    (htold : (e.run store).changes = e.names.filterMap (changeOf before after))

/-- The edit writes a file that is not fit for it. -/
inductive Spoils : Store → Edit → Prop where
  /-- A name that is no text is written as one. -/
  | renamed {path : String} {text : Option String} {e : Edit} {members : Members}
    {notices : List Notice} {changes : Fields}
    (hread : (Store.file path text).read = (.ok (.members members), notices))
    (hchanges : e.changes (.members members) = .ok changes)
    (hsized : "actions" ∈ e.names ∨ checkSize (.obj members.toFields) = .ok ())
    (hname : ∃ m ∈ members, ∀ s, m.1 ≠ .str s) : Spoils (.file path text) e
  /-- The number of the actions is asked for after the file has been written, and they have none. -/
  | unsized {path : String} {text : Option String} {value : Json} {members : Members}
    {notices : List Notice}
    (hread : (Store.file path text).read = (.ok (.members members), notices))
    (hunsized : checkSize (.obj members.toFields) ≠ .ok ())
    (htext : text ≠ some (Json.write { indent := some 2 }
      (.obj (members.toFields.merge [("isRecording", value)])))) :
    Spoils (.file path text) (.setRecording value)

/-! ## What comes of it -/

theorem changesOf_eq {fields changes : Fields} (h : changes.names.Nodup) :
    changesOf (.ofFields fields) changes
      = changes.names.filterMap
          (changeOf (.ofFields fields) (.ofFields (fields.merge changes))) := by
  rw [changesOf, Fields.names, List.filterMap_map, ← List.filterMap_eq_filter, List.filterMap_map]
  refine List.filterMap_congr fun f hf => ?_
  have hset := @Fields.get?_merge_of_mem fields changes h f hf
  simp only [Function.comp_apply, changeOf, Members.get?_ofFields, hset, Option.getD_some]
  rfl

theorem exact_of_ok {store : Store} {fields : Fields} {notices : List Notice}
    (hread : store.read = (.ok (.members (.ofFields fields)), notices)) {e : Edit} (he : e.Fits)
    {changes : Fields} (hchanges : e.changes (.members (.ofFields fields)) = .ok changes)
    (hput : (store.put (.obj (fields.merge changes))).result = .ok ()) : store.Exact e := by
  have hrun := Edit.run_of_ok hread hchanges hput
  have hnames := Edit.names_changes hchanges
  have hnodup : changes.names.Nodup := hnames ▸ e.nodup_names
  have hmerge := Members.merge_ofFields fields changes
  refine @Exact.done _ _ (.ofFields fields) (.ofFields (fields.merge changes)) notices changes
    (by rw [hrun]) hread ?_ hchanges hmerge.symm ?_ ?_
  · rw [hrun]
    exact Edit.read_put hread he hchanges
  · rw [← hnames, ← hmerge]
    exact fun name hname => Members.get?_merge_of_ne hname
  · rw [hrun, ← hnames]
    exact changesOf_eq hnodup

/-- Whatever was written to a file in the place of members is read under texts. -/
theorem exists_ofFields_of_read {path : String} {fields : Fields} {style : Json.Style}
    {members : Members} {notices : List Notice}
    (h : (Store.file path (some (Json.write style (.obj fields)))).read
      = (.ok (.members members), notices)) : ∃ held, members = .ofFields held := by
  have hfaults := Json.faults_read_write style (.obj fields)
  rw [Store.read] at h
  split at h
  · next v hv =>
    rw [hv, show Json.maxDepth = 984 + 1 from rfl, Json.reread, map_eq_pure_bind] at hfaults
    obtain ⟨read, -, hread⟩ := exists_of_bind_ok hfaults.symm
    obtain rfl := Except.ok.inj hread
    simp only [mergeValue, Members.merge_ofFields] at h
    exact ⟨_, (Data.members.inj (Except.ok.inj (Prod.mk.inj h).1)).symm⟩
  · simp at h
  · simp at h
  · exact ⟨emptyFields, (Data.members.inj (Except.ok.inj (Prod.mk.inj h).1)).symm⟩

/-- An edit of a file that is not refused writes the file, whatever comes of it. -/
theorem run_file {path : String} {text : Option String} {members : Members}
    {notices : List Notice}
    (hread : (Store.file path text).read = (.ok (.members members), notices)) {e : Edit}
    {changes : Fields} (hchanges : e.changes (.members members) = .ok changes) :
    (e.run (.file path text)).store = .file path (some (Json.write { indent := some 2 }
        (.obj (members.toFields.merge changes))))
      ∧ (e.run (.file path text)).result = checkSize (.obj (members.toFields.merge changes))
      ∧ ∀ why, checkSize (.obj (members.toFields.merge changes)) = .error why →
        (e.run (.file path text)).changes = [] := by
  have hmerged := toFields_merge members (Edit.mem_keys_of_mem_changes hchanges)
  rw [Edit.run_of_changes hread hchanges, ← hmerged]
  obtain ⟨hstore, hresult⟩ := (Store.file path text).commit_members members changes
  refine ⟨hstore, hresult, fun why hwhy => ?_⟩
  simp only [commit, put, Data.toJson, hwhy]

/-- What spoils a file is not exact. -/
theorem Spoils.not_exact {store : Store} {e : Edit} (h : store.Spoils e) : ¬ store.Exact e := by
  intro hexact
  cases h with
  | @renamed path text _ members notices changes hread hchanges hsized hname =>
    obtain ⟨hstore, hresult, -⟩ := run_file hread hchanges
    have hok : (e.run (.file path text)).result = .ok () := by
      rw [hresult, Edit.checkSize_merge hchanges]
      split
      · rfl
      · next hactions => exact hsized.resolve_left hactions
    cases hexact with
    | refused hfailed =>
      rw [hok] at hfailed
      cases hfailed
    | done _ hbefore hafter _ hset =>
      -- the name would have to be there still, but what is read of the file now has texts only
      obtain rfl := Data.members.inj (Except.ok.inj (Prod.mk.inj (hread.symm.trans hbefore)).1)
      rw [hstore] at hafter
      obtain ⟨held, hheld⟩ := exists_ofFields_of_read hafter
      obtain ⟨⟨old, rfl⟩, -⟩ := Members.exists_ofFields_of_merge (hset.symm.trans hheld)
      obtain ⟨m, hm, hnot⟩ := hname
      obtain ⟨f, -, rfl⟩ := List.mem_map.1 hm
      exact hnot f.1 rfl
  | @unsized path text value members notices hread hunsized htext =>
    have hchanges : (Edit.setRecording value).changes (.members members)
        = .ok [("isRecording", value)] := rfl
    obtain ⟨hstore, hresult, -⟩ := run_file hread hchanges
    rw [Edit.checkSize_merge hchanges, if_neg (by simp [Edit.names])] at hresult
    cases hexact with
    | refused _ hkept =>
      rw [hstore] at hkept
      exact htext (Store.file.inj hkept).2.symm
    | done hok => exact hunsized (hresult.symm.trans hok)

/-- An edit that does not spoil a file is refused, or sets members under texts. -/
theorem run_of_not_spoils {store : Store} {e : Edit} (h : ¬ store.Spoils e) :
    ((∃ why, (e.run store).result = .error why) ∧ (e.run store).store = store
        ∧ (e.run store).changes = [])
      ∨ ∃ fields notices changes, store.read = (.ok (.members (.ofFields fields)), notices)
        ∧ e.changes (.members (.ofFields fields)) = .ok changes
        ∧ (store.put (.obj (fields.merge changes))).result = .ok () := by
  rcases Edit.run_cases store e with
    ⟨why, notices, hrun⟩ | ⟨members, notices, changes, hread, hchanges⟩
  · rw [hrun]
    exact .inl ⟨⟨why, rfl⟩, rfl, rfl⟩
  cases store with
  | memory data =>
    cases data with
    | obj fields =>
      obtain ⟨hmembers, -⟩ := Prod.mk.inj hread
      obtain rfl := Data.members.inj (Except.ok.inj hmembers)
      exact .inr ⟨fields, notices, changes, hread, hchanges, rfl⟩
    | _ => cases hread
  | file path text =>
    obtain ⟨hstore, hresult, hsilent⟩ := run_file hread hchanges
    have hsize := Edit.checkSize_merge hchanges members.toFields
    by_cases hsized : "actions" ∈ e.names ∨ checkSize (.obj members.toFields) = .ok ()
    · have hnames : ∀ m ∈ members, ∃ s, m.1 = .str s := by
        intro m hm
        by_contra hname
        exact h (.renamed hread hchanges hsized ⟨m, hm, not_exists.1 hname⟩)
      rw [← Members.ofFields_toFields hnames] at hread hchanges
      refine .inr ⟨_, notices, changes, hread, hchanges, hsize.trans ?_⟩
      split
      · rfl
      · next hactions => exact hsized.resolve_left hactions
    · -- only the flag of a recording is set where the actions have no number
      obtain ⟨hactions, hunsized⟩ := not_or.1 hsized
      cases e with
      | setRecording value =>
        obtain rfl := Except.ok.inj hchanges
        rw [if_neg hactions] at hsize
        cases hwhy : checkSize (.obj members.toFields) with
        | ok size => exact absurd hwhy hunsized
        | error why =>
          rw [hwhy] at hsize
          refine .inl ⟨⟨why, hresult.trans hsize⟩, ?_, hsilent why hsize⟩
          rw [hstore]
          by_contra htext
          exact h (.unsized hread hunsized fun heq => htext (by rw [heq]))
      | _ => simp [Edit.names] at hactions

/-- **An edit is exact, unless it spoils a file.** -/
theorem exact_iff (store : Store) {e : Edit} (he : e.Fits) : store.Exact e ↔ ¬ store.Spoils e := by
  refine ⟨fun hexact hspoils => hspoils.not_exact hexact, fun h => ?_⟩
  rcases run_of_not_spoils h with
    ⟨⟨why, hwhy⟩, hstore, hsilent⟩ | ⟨fields, notices, changes, hread, hchanges, hput⟩
  · exact .refused hwhy hstore hsilent
  · exact exact_of_ok hread he hchanges hput

/-- The flag of a recording is not set exactly in a file whose actions are null: the file is
written, the edit fails all the same, and nobody is told. -/
theorem not_exact_nullActions :
    ¬ (Store.file "actions.json" (some "\x7b\"actions\": null\x7d")).Exact
      (.setRecording (.bool true)) := by
  have hfits : (Json.obj [("actions", .null)]).Fits Json.maxDepth :=
    .obj (by decide) (by simpa using .null)
  have htext : Json.write {} (.obj [("actions", .null)]) = "\x7b\"actions\": null\x7d" := by
    decide +kernel
  have hread : (Store.file "actions.json" (some "\x7b\"actions\": null\x7d")).read
      = (.ok (.members (.ofFields
          [("baseUrl", .str ""), ("actions", .null), ("isRecording", .bool false)])), []) := by
    rw [← htext, Store.read, Json.read_write hfits]
    rfl
  refine Spoils.not_exact (.unsized hread ?_ ?_)
  · rw [Members.toFields_ofFields]
    rintro ⟨⟩
  · rw [Members.toFields_ofFields]
    decide +kernel

/-! ## A copy that is kept by what is told -/

/-- The copy with every change set that is told. -/
def follow (copy : Fields) (told : List Change) : Fields :=
  told.foldl (fun copy c => copy.set c.key c.after) copy

namespace Edit

/-- The store after the edits. -/
def after (store : Store) (edits : List Edit) : Store :=
  edits.foldl (fun store e => (e.run store).store) store

/-- All that is told of the edits, in order. -/
def toldAll (store : Store) : List Edit → List Change
  | [] => []
  | e :: rest => (e.run store).changes ++ toldAll (e.run store).store rest

end Edit

/-- The copy has the names of the members, and under each of them an equal value. -/
def Agrees (copy fields : Fields) : Prop :=
  ∀ name, Option.Rel Json.Equal (copy.get? name) (fields.get? name)

theorem Agrees.refl (fields : Fields) : Agrees fields fields := by
  intro name
  cases fields.get? name with
  | none => exact .none
  | some v => exact .some (.inl rfl)

/-- A member that is set, and told of if it differs. -/
theorem Agrees.set {copy fields : Fields} (h : Agrees copy fields) {key : String} {u : Json}
    (hkey : fields.get? key = some u) (v : Json) :
    Agrees (copy.set key v) (fields.set key v)
      ∧ (u.differs v = false → Agrees copy (fields.set key v)) := by
  constructor
  · intro name
    rw [Fields.get?_set, Fields.get?_set]
    split
    · exact .some (.inl rfl)
    · exact h name
  · intro hsame name
    rw [Fields.get?_set]
    split
    · next hname =>
      have hcopy := h name
      rw [hname, hkey] at hcopy
      rw [hname]
      generalize copy.get? key = w at hcopy ⊢
      cases hcopy with
      | some hequal => exact .some (hequal.trans (Json.equal_of_not_differs hsame))
    · exact h name

/-- Members that are set one after the other. What they are compared with are the members before the
first of them, which is no matter as long as no name comes twice. -/
theorem Agrees.merge {before copy fields changes : Fields} (h : Agrees copy fields)
    (hnodup : changes.names.Nodup)
    (hbefore : ∀ f ∈ changes, ∃ u, before.get? f.1 = some u ∧ fields.get? f.1 = some u) :
    Agrees (follow copy (changesOf (.ofFields before) changes)) (fields.merge changes) := by
  induction changes generalizing copy fields with
  | nil => exact h
  | cons f rest ih =>
    obtain ⟨key, v⟩ := f
    obtain ⟨hkey, hrest⟩ := List.nodup_cons.1 hnodup
    obtain ⟨⟨u, hold, hfields⟩, hothers⟩ := List.forall_mem_cons.1 hbefore
    -- the names that follow are others, so what they are compared with is still in place
    have hnext : ∀ f ∈ rest, ∃ u, before.get? f.1 = some u
        ∧ Fields.get? (fields.set key v) f.1 = some u := by
      intro f hf
      obtain ⟨w, hw, hw'⟩ := hothers f hf
      have hne : f.1 ≠ key := fun heq => hkey (heq ▸ List.mem_map_of_mem (f := (·.1)) hf)
      exact ⟨w, hw, by rw [Fields.get?_set, if_neg hne, hw']⟩
    obtain ⟨htold, hsilent⟩ := h.set hfields v
    have hchange : changesOf (.ofFields before) ((key, v) :: rest)
        = (if u.differs v then [⟨key, u, v⟩] else []) ++ changesOf (.ofFields before) rest := by
      simp only [changesOf, List.map_cons, List.filter_cons, Members.get?_ofFields, hold,
        Option.getD_some]
      split <;> rfl
    rw [hchange]
    cases hdiffers : u.differs v with
    | true => exact ih htold hrest hnext
    | false => exact ih (hsilent hdiffers) hrest hnext

/-! ## Runs -/

/-- In memory, where nothing sees to it otherwise, there are the three keys. -/
def Keyed : Store → Prop
  | .memory data => ∀ key ∈ keys, data.fields.has key = true
  | .file .. => True

/-- No edit of the run spoils a file. -/
def Unspoilt (store : Store) : List Edit → Prop
  | [] => True
  | e :: rest => ¬ store.Spoils e ∧ (e.run store).store.Unspoilt rest

/-- All three keys are there, wherever the members are kept. -/
theorem Keyed.has {store : Store} (h : store.Keyed) {fields : Fields} {notices : List Notice}
    (hread : store.read = (.ok (.members (.ofFields fields)), notices)) :
    ∀ key ∈ keys, fields.has key = true := by
  cases store with
  | memory data =>
    cases data with
    | obj found =>
      have hmembers := Data.members.inj (Except.ok.inj (Prod.mk.inj hread).1)
      obtain rfl : found = fields := by
        rw [← Members.toFields_ofFields found, hmembers, Members.toFields_ofFields]
      exact h
    | _ => cases hread
  | file path text =>
    have hempty : ∀ key ∈ keys, key ∈ emptyFields.names := by decide
    exact fun key hkey => Fields.has_iff.2 ((settled_of_read hread).begins.subset (hempty key hkey))

variable {store : Store}

/-- The copy follows an edit that does not spoil a file. -/
theorem Agrees.run {copy fields : Fields} (h : Agrees copy fields)
    (hload : store.load.result = .ok (.obj fields)) (hkeyed : store.Keyed) {e : Edit} (he : e.Fits)
    (hspoils : ¬ store.Spoils e) :
    ∃ held, (e.run store).store.load.result = .ok (.obj held) ∧ (e.run store).store.Keyed
      ∧ Agrees (follow copy (e.run store).changes) held := by
  rcases run_of_not_spoils hspoils with
    ⟨-, hstore, hsilent⟩ | ⟨found, notices, changes, hread, hchanges, hput⟩
  · rw [hstore, hsilent]
    exact ⟨fields, hload, hkeyed, h⟩
  · obtain rfl : fields = found := Json.obj.inj (Except.ok.inj (hload.symm.trans (load_eq hread)))
    have hhas := hkeyed.has hread
    rw [Edit.run_of_ok hread hchanges hput]
    refine ⟨fields.merge changes, load_eq (Edit.read_put hread he hchanges), ?_, ?_⟩
    · cases store with
      | memory data =>
        intro key hkey
        have hmem := (fields.names_prefix_merge changes).subset (Fields.has_iff.1 (hhas key hkey))
        exact Fields.has_iff.2 hmem
      | file path text => trivial
    · refine h.merge (Edit.names_changes hchanges ▸ e.nodup_names) fun f hf => ?_
      obtain ⟨u, hu⟩ := Option.isSome_iff_exists.1
        (hhas f.1 (Edit.mem_keys_of_mem_changes hchanges f hf))
      exact ⟨u, hu, hu⟩

theorem Agrees.after {copy fields : Fields} (h : Agrees copy fields)
    (hload : store.load.result = .ok (.obj fields)) (hkeyed : store.Keyed) {edits : List Edit}
    (hedits : ∀ e ∈ edits, e.Fits) (hunspoilt : store.Unspoilt edits) :
    ∃ held, (Edit.after store edits).load.result = .ok (.obj held)
      ∧ Agrees (follow copy (Edit.toldAll store edits)) held := by
  induction edits generalizing store fields copy with
  | nil => exact ⟨fields, hload, h⟩
  | cons e rest ih =>
    obtain ⟨he, hrest⟩ := List.forall_mem_cons.1 hedits
    obtain ⟨held, hnext, hkeyed', hfollow⟩ := h.run hload hkeyed he hunspoilt.1
    obtain ⟨last, hlast, hagrees⟩ := ih hfollow hnext hkeyed' hrest hunspoilt.2
    refine ⟨last, hlast, ?_⟩
    rw [Edit.toldAll, follow, List.foldl_append]
    exact hagrees

/-- **Edits are exact where they do not spoil a file, and what they tell makes a mirror.** Who
starts with what is loaded and sets whatever is told holds what is loaded then, up to equality. -/
theorem exact_and_mirrored (store : Store) :
    (∀ e : Edit, e.Fits → (store.Exact e ↔ ¬ store.Spoils e))
      ∧ ∀ edits : List Edit, (∀ e ∈ edits, e.Fits) → store.Unspoilt edits → store.Keyed →
        ∀ fields, store.load.result = .ok (.obj fields) →
          ∃ held, (Edit.after store edits).load.result = .ok (.obj held)
            ∧ Agrees (follow fields (Edit.toldAll store edits)) held :=
  ⟨fun _ he => exact_iff store he, fun _ hedits hunspoilt hkeyed fields hload =>
    (Agrees.refl fields).after hload hkeyed hedits hunspoilt⟩

/-! ## Files that are never spoilt -/

/-- The members stand under texts, and in a file the actions have a number. -/
def Regular (store : Store) : Prop :=
  ∃ fields notices, store.read = (.ok (.members (.ofFields fields)), notices)
    ∧ ∀ path text, store = .file path text → checkSize (.obj fields) = .ok ()

theorem Regular.not_spoils (h : store.Regular) (e : Edit) : ¬ store.Spoils e := by
  obtain ⟨fields, notices, hread, hsized⟩ := h
  intro hspoils
  cases hspoils with
  | renamed hmembers _ _ hname =>
    obtain rfl := Data.members.inj (Except.ok.inj (Prod.mk.inj (hread.symm.trans hmembers)).1)
    obtain ⟨m, hm, hnot⟩ := hname
    obtain ⟨f, -, rfl⟩ := List.mem_map.1 hm
    exact hnot f.1 rfl
  | unsized hmembers hunsized =>
    obtain rfl := Data.members.inj (Except.ok.inj (Prod.mk.inj (hread.symm.trans hmembers)).1)
    rw [Members.toFields_ofFields] at hunsized
    exact hunsized (hsized _ _ rfl)

theorem Regular.run (h : store.Regular) {e : Edit} (he : e.Fits) : (e.run store).store.Regular := by
  rcases run_of_not_spoils (h.not_spoils e) with
    ⟨-, hstore, -⟩ | ⟨fields, notices, changes, hread, hchanges, hput⟩
  · rwa [hstore]
  · rw [Edit.run_of_ok hread hchanges hput]
    refine ⟨_, [], Edit.read_put hread he hchanges, fun path text hfile => ?_⟩
    cases store with
    | memory data => cases hfile
    | file path text => exact hput

/-- A regular store stays so, whatever is done to it. -/
theorem Regular.unspoilt (h : store.Regular) {edits : List Edit} (hedits : ∀ e ∈ edits, e.Fits) :
    store.Unspoilt edits := by
  induction edits generalizing store with
  | nil => trivial
  | cons e rest ih =>
    obtain ⟨he, hrest⟩ := List.forall_mem_cons.1 hedits
    exact ⟨h.not_spoils e, ih (h.run he) hrest⟩

theorem regular_empty (path : String) : (Store.file path none).Regular :=
  ⟨emptyFields, [], rfl, fun _ _ _ => rfl⟩

/-- A click is recorded, then the same text is typed twice, then all is taken back. -/
def retractions : List Edit := [
  .append { kind := .click, locator := "#q" } false (.str "https://example.org/"),
  .append { kind := .input, locator := "#q", value := some (.str "a"), timestamp := 1.0 } true
    (.str ""),
  .append { kind := .input, locator := "#q", value := some (.str "a"), timestamp := 1.0 } true
    (.str ""),
  .setRecording (.bool true), .reset]

theorem exact_and_mirrored_retractions :
    (∀ e ∈ retractions, (Store.file "actions.json" none).Exact e)
      ∧ (Store.file "actions.json" none).Unspoilt retractions
      ∧ ∃ held, (Edit.after (.file "actions.json" none) retractions).load.result = .ok (.obj held)
        ∧ Agrees (follow emptyFields (Edit.toldAll (.file "actions.json" none) retractions))
          held := by
  have hfits : ∀ e ∈ retractions, e.Fits := by
    simp [retractions, Edit.Fits, Json.Fits.str, Json.Fits.bool]
  have hregular := regular_empty "actions.json"
  have hunspoilt := hregular.unspoilt hfits
  obtain ⟨hexact, hmirrored⟩ := exact_and_mirrored (.file "actions.json" none)
  exact ⟨fun e he => (hexact e (hfits e he)).2 (hregular.not_spoils e), hunspoilt,
    hmirrored retractions hfits hunspoilt trivial emptyFields rfl⟩

end Retrace.Store
