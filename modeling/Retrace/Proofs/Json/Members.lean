/-
Members of an object, and members under names of any sort.

Setting a name that is there changes nothing but its value, and any other name goes to the end. So
members that are set one after the other keep each name once, and where no name comes twice they are
the members themselves. Under names of any sort the same holds of every text that no other name is
written like (`Clear`).
-/
import Mathlib.Data.List.Nodup
import Retrace.Json.Members

set_option autoImplicit false

namespace Retrace.Fields

/-- The names of the members, in their order. -/
def names (fields : Fields) : List String := fields.map (·.1)

theorem has_iff {fields : Fields} {name : String} :
    fields.has name = true ↔ name ∈ fields.names := by
  induction fields with
  | nil => simp [has, get?, names]
  | cons f rest ih =>
    obtain ⟨n, v⟩ := f
    simp only [has, get?, names, List.map_cons, List.mem_cons, List.lookup_cons] at ih ⊢
    by_cases hn : name = n
    · simp [hn]
    · rw [beq_false_of_ne hn]
      simp [hn, ih]

/-- A new member comes last. -/
theorem set_of_notMem {fields : Fields} {name : String} (h : name ∉ fields.names) (value : Json) :
    set name value fields = fields ++ [(name, value)] := by
  induction fields with
  | nil => rfl
  | cons f rest ih =>
    obtain ⟨n, v⟩ := f
    obtain ⟨hne, hrest⟩ : name ≠ n ∧ name ∉ names rest := by simpa [names] using h
    rw [set, if_neg (Ne.symm hne), ih hrest, List.cons_append]

/-- A name keeps its place if its value is set again. -/
theorem names_set (fields : Fields) (name : String) (value : Json) :
    (set name value fields).names
      = if name ∈ fields.names then fields.names else fields.names ++ [name] := by
  induction fields with
  | nil => rfl
  | cons f rest ih =>
    obtain ⟨n, v⟩ := f
    by_cases hn : n = name
    · simp [set, hn, names]
    · rw [set, if_neg hn]
      simp only [names, List.map_cons, List.mem_cons, Ne.symm hn, false_or] at ih ⊢
      rw [ih]
      by_cases hname : name ∈ rest.map (·.1) <;> simp [hname]

/-- Setting a member repeats no name. -/
theorem nodup_set {fields : Fields} (h : fields.names.Nodup) (name : String) (value : Json) :
    (set name value fields).names.Nodup := by
  rw [names_set]
  split
  · exact h
  · next hname => exact List.nodup_append.2 ⟨h, by simp, by grind⟩

/-- How often a name comes after setting. -/
theorem count_names_set_le {fields : Fields} {key : String} (h : fields.names.count key ≤ 1)
    (name : String) (value : Json) : (set name value fields).names.count key ≤ 1 := by
  rw [names_set]
  split
  · exact h
  · next hname =>
    rw [List.count_append]
    by_cases heq : name = key
    · subst heq
      simp [List.count_eq_zero.2 hname]
    · simpa [heq] using h

/-- A member after setting is the one that was set, or one that was there. -/
theorem mem_set {fields : Fields} {name : String} {value : Json} {f : String × Json}
    (h : f ∈ set name value fields) : f.2 = value ∨ f ∈ fields := by
  induction fields with
  | nil => exact .inl (by rw [List.mem_singleton.1 h])
  | cons g rest ih =>
    obtain ⟨n, v⟩ := g
    rw [set] at h
    split at h
    · rcases List.mem_cons.1 h with rfl | h
      · exact .inl rfl
      · exact .inr (List.mem_cons_of_mem _ h)
    · rcases List.mem_cons.1 h with rfl | h
      · exact .inr List.mem_cons_self
      · exact (ih h).imp_right (List.mem_cons_of_mem _)

/-! ## Setting one after the other -/

/-- Merging repeats no name. -/
theorem nodup_merge {fields : Fields} (h : fields.names.Nodup) (more : Fields) :
    (fields.merge more).names.Nodup := by
  induction more generalizing fields with
  | nil => exact h
  | cons f rest ih => exact ih (nodup_set h f.1 f.2)

theorem mem_merge {fields more : Fields} {f : String × Json} (h : f ∈ fields.merge more) :
    (∃ g ∈ more, f.2 = g.2) ∨ f ∈ fields := by
  induction more generalizing fields with
  | nil => exact .inr h
  | cons g rest ih =>
    rcases ih h with ⟨g', hg', hf⟩ | hf
    · exact .inl ⟨g', List.mem_cons_of_mem _ hg', hf⟩
    · exact (mem_set hf).imp_left fun hg => ⟨g, List.mem_cons_self, hg⟩

theorem names_prefix_set (fields : Fields) (name : String) (value : Json) :
    fields.names <+: (fields.set name value).names := by
  rw [names_set]
  split
  · exact List.prefix_rfl
  · exact List.prefix_append _ _

/-- New names come behind the old ones, which stay as they are. -/
theorem names_prefix_merge (fields more : Fields) : fields.names <+: (fields.merge more).names := by
  induction more generalizing fields with
  | nil => exact List.prefix_rfl
  | cons f rest ih => exact (fields.names_prefix_set f.1 f.2).trans (ih _)

/-- Of members that are set one after the other, what is set under a name that comes once is found
there. -/
theorem get?_merge {fields more : Fields} {key : String} (h : more.names.count key ≤ 1) :
    (fields.merge more).get? key = (more.get? key).or (fields.get? key) := by
  induction more generalizing fields with
  | nil => rfl
  | cons f rest ih =>
    obtain ⟨n, v⟩ := f
    simp only [names, List.map_cons, List.count_cons] at h
    have hstep := @ih (fields.set n v) (by rw [names]; omega)
    rw [get?_set] at hstep
    rw [merge, List.foldl_cons]
    refine hstep.trans ?_
    by_cases hn : key = n
    · subst hn
      have hrest : get? rest key = none := by
        have hnot : key ∉ rest.map (·.1) := by
          rw [← List.count_eq_zero]
          simp only [beq_self_eq_true, if_true] at h
          omega
        rw [get?, List.lookup_eq_none_iff]
        intro p hp
        simpa using fun heq : key = p.1 => hnot (heq ▸ List.mem_map_of_mem hp)
      rw [hrest, if_pos rfl]
      simp [get?]
    · simp [get?, List.lookup_cons, hn, beq_false_of_ne hn]

/-- A change is found under its name. -/
theorem get?_merge_of_mem {fields more : Fields} (h : more.names.Nodup) {f : String × Json}
    (hf : f ∈ more) : (fields.merge more).get? f.1 = some f.2 := by
  have hfind : more.get? f.1 = some f.2 := by
    induction more with
    | nil => cases hf
    | cons g rest ih =>
      obtain ⟨n, v⟩ := g
      obtain ⟨hn, hrest⟩ := List.nodup_cons.1 h
      rw [get?, List.lookup_cons]
      rcases List.mem_cons.1 hf with rfl | hf
      · rw [beq_self_eq_true]
      · have hne : f.1 ≠ n := fun heq => hn (heq ▸ List.mem_map_of_mem (f := (·.1)) hf)
        rw [beq_false_of_ne hne]
        exact ih hrest hf
  rw [get?_merge (List.nodup_iff_count_le_one.1 h f.1), hfind]
  rfl

/-- Where no name is shared, merging is putting one behind the other. -/
theorem merge_of_nodup {fields more : Fields} (h : (fields ++ more).names.Nodup) :
    fields.merge more = fields ++ more := by
  induction more generalizing fields with
  | nil => exact (List.append_nil fields).symm
  | cons f rest ih =>
    obtain ⟨n, v⟩ := f
    have hn : n ∉ fields.names := by
      simp only [names, List.map_append, List.map_cons, List.nodup_append] at h
      exact fun hmem => h.2.2 n hmem n (by simp) rfl
    have hassoc : fields ++ [(n, v)] ++ rest = fields ++ (n, v) :: rest := by simp
    have hstep := @ih (fields ++ [(n, v)]) (by rwa [hassoc])
    rw [hassoc] at hstep
    rw [← hstep, merge, List.foldl_cons, set_of_notMem hn]
    rfl

/-- Members whose names differ are what they are read as. -/
theorem ofList_of_nodup {fields : Fields} (h : fields.names.Nodup) : ofList fields = fields :=
  @merge_of_nodup [] fields h

theorem nodup_ofList (fields : Fields) : (ofList fields).names.Nodup :=
  @nodup_merge [] (by simp [names]) fields

theorem mem_ofList {fields : Fields} {f : String × Json} (h : f ∈ ofList fields) :
    ∃ g ∈ fields, f.2 = g.2 :=
  (mem_merge h).resolve_right (by simp)

end Retrace.Fields

namespace Retrace.Members

theorem merge_ofFields (fields more : Fields) :
    (ofFields fields).merge (ofFields more) = ofFields (fields.merge more) := by
  induction more generalizing fields with
  | nil => rfl
  | cons f rest ih =>
    have hstep := ih (fields.set f.1 f.2)
    rw [← set_ofFields] at hstep
    exact hstep

/-- A text equals nothing but itself. -/
theorem same_str {name : Json} {key : String} :
    name.same (.str key) = true ↔ name = .str key := by
  cases name <;> simp [Json.same, Json.number?]

theorem str_same {key : String} {name : Json} :
    (Json.str key).same name = true ↔ name = .str key := by
  cases name with
  | str s => simpa [Json.same] using eq_comm
  | _ => simp [Json.same, Json.number?]

theorem writtenName_of_ne {name : Json} (h : ∀ s, name ≠ .str s) :
    writtenName name = Json.write {} name := by
  unfold writtenName
  split
  · exact absurd rfl (h _)
  · rfl

/-- The name is not written like the given one, unless it is the same. -/
def Clear (key : String) (name : Json) : Prop := writtenName name = key → name = .str key

/-- Where no other name is written like it, setting a member and writing the names change places. -/
theorem toFields_set {members : Members} {key : String} (h : ∀ m ∈ members, Clear key m.1)
    (value : Json) :
    (members.set (.str key) value).toFields = members.toFields.set key value := by
  induction members with
  | nil => rfl
  | cons m rest ih =>
    obtain ⟨n, v⟩ := m
    have hrest := ih fun m hm => h m (List.mem_cons_of_mem _ hm)
    by_cases hn : n = .str key
    · subst hn
      simp [set, toFields, Fields.set, Json.same, writtenName]
    · have hwritten : writtenName n ≠ key := fun heq => hn (h (n, v) (by simp) heq)
      rw [set, if_neg (by rwa [same_str])]
      simp only [toFields, List.map_cons, Fields.set, if_neg hwritten] at hrest ⊢
      rw [hrest]

/-- A member after setting has a name that was there or was set, and likewise a value. -/
theorem mem_set {members : Members} {name value : Json} {m : Json × Json}
    (h : m ∈ members.set name value) :
    (m.1 = name ∨ ∃ m' ∈ members, m.1 = m'.1) ∧ (m.2 = value ∨ ∃ m' ∈ members, m.2 = m'.2) := by
  induction members with
  | nil =>
    rw [List.mem_singleton.1 h]
    exact ⟨.inl rfl, .inl rfl⟩
  | cons m' rest ih =>
    obtain ⟨n, v⟩ := m'
    rw [set] at h
    split at h
    · rcases List.mem_cons.1 h with rfl | h
      · exact ⟨.inr ⟨(n, v), by simp, rfl⟩, .inl rfl⟩
      · exact ⟨.inr ⟨m, by simp [h], rfl⟩, .inr ⟨m, by simp [h], rfl⟩⟩
    · rcases List.mem_cons.1 h with rfl | h
      · exact ⟨.inr ⟨(n, v), by simp, rfl⟩, .inr ⟨(n, v), by simp, rfl⟩⟩
      · obtain ⟨hname, hvalue⟩ := ih h
        refine ⟨hname.imp_right ?_, hvalue.imp_right ?_⟩
        · rintro ⟨m', hm', heq⟩
          exact ⟨m', by simp [hm'], heq⟩
        · rintro ⟨m', hm', heq⟩
          exact ⟨m', by simp [hm'], heq⟩

/-- A name that is set comes at most once among the written names, if it did so before. -/
theorem count_written_set_le {members : Members} {key : String}
    (hclear : ∀ m ∈ members, Clear key m.1) (h : members.toFields.names.count key ≤ 1)
    {name : Json} (hname : Clear key name) (value : Json) :
    (members.set name value).toFields.names.count key ≤ 1 := by
  by_cases hkey : writtenName name = key
  · rw [hname hkey, toFields_set hclear]
    exact Fields.count_names_set_le h key value
  · have hsame : ∀ ms : Members, (ms.set name value).toFields.names.count key
        = ms.toFields.names.count key := by
      intro ms
      induction ms with
      | nil => simp [set, toFields, Fields.names, hkey]
      | cons m rest ih =>
        obtain ⟨n, v⟩ := m
        rw [set]
        split
        · rfl
        · simp only [toFields, Fields.names, List.map_cons, List.count_cons] at ih ⊢
          rw [ih]
    rwa [hsame]

/-! ## Members under texts -/

/-- A name that is not set finds what it found before. -/
theorem get?_set_of_ne {members : Members} {key : String} {name : Json} (h : name ≠ .str key)
    (value : Json) : (members.set (.str key) value).get? name = members.get? name := by
  induction members with
  | nil =>
    have hkey : (Json.str key).same name = false := by
      rwa [← Bool.not_eq_true, str_same]
    simp [set, get?, hkey]
  | cons m rest ih =>
    obtain ⟨n, v⟩ := m
    rw [set]
    split
    · next hn =>
      obtain rfl := same_str.1 hn
      have hkey : (Json.str key).same name = false := by
        rwa [← Bool.not_eq_true, str_same]
      simp [get?, hkey]
    · unfold get? at ih ⊢
      rw [List.find?_cons, List.find?_cons]
      split
      · rfl
      · exact ih

theorem get?_merge_of_ne {members : Members} {changes : Fields} {name : Json}
    (h : ∀ key ∈ changes.names, name ≠ .str key) :
    (members.merge (ofFields changes)).get? name = members.get? name := by
  induction changes generalizing members with
  | nil => rfl
  | cons f rest ih =>
    obtain ⟨hne, hrest⟩ := List.forall_mem_cons.1 h
    exact (ih hrest).trans (get?_set_of_ne hne f.2)

/-- Where all names are texts, the members are those of an object. -/
theorem ofFields_toFields {members : Members} (h : ∀ m ∈ members, ∃ s, m.1 = .str s) :
    ofFields members.toFields = members := by
  induction members with
  | nil => rfl
  | cons m rest ih =>
    obtain ⟨⟨s, hs⟩, hrest⟩ := List.forall_mem_cons.1 h
    obtain ⟨n, v⟩ := m
    obtain rfl : n = .str s := hs
    exact congrArg ((Json.str s, v) :: ·) (ih hrest)

/-- Only members of an object are set to members of an object, and only under a text. -/
theorem exists_ofFields_of_set {members : Members} {name value : Json} {fields : Fields}
    (h : members.set name value = ofFields fields) :
    (∃ old, members = ofFields old) ∧ ∃ s, name = .str s := by
  induction members generalizing fields with
  | nil =>
    cases fields with
    | nil => cases h
    | cons f rest =>
      obtain ⟨hname, -⟩ := Prod.mk.inj (List.cons.inj h).1
      exact ⟨⟨[], rfl⟩, f.1, hname⟩
  | cons m rest ih =>
    obtain ⟨n, v⟩ := m
    rw [set] at h
    split at h
    · next hsame =>
      cases fields with
      | nil => cases h
      | cons f more =>
        obtain ⟨hf, hrest⟩ := List.cons.inj h
        obtain ⟨rfl, -⟩ := Prod.mk.inj hf
        have hname : name = .str f.1 := str_same.1 hsame
        exact ⟨⟨(f.1, v) :: more, by rw [hrest]; rfl⟩, f.1, hname⟩
    · cases fields with
      | nil => cases h
      | cons f more =>
        obtain ⟨hf, hrest⟩ := List.cons.inj h
        obtain ⟨⟨old, rfl⟩, hname⟩ := ih hrest
        exact ⟨⟨f :: old, by rw [hf]; rfl⟩, hname⟩

/-- Where all names are texts in the end, they were all texts before. -/
theorem exists_ofFields_of_merge {members more : Members} {fields : Fields}
    (h : members.merge more = ofFields fields) :
    (∃ old, members = ofFields old) ∧ ∃ set, more = ofFields set := by
  induction more generalizing members with
  | nil => exact ⟨⟨fields, h⟩, [], rfl⟩
  | cons m rest ih =>
    obtain ⟨n, v⟩ := m
    obtain ⟨⟨old, hold⟩, more, rfl⟩ := ih h
    obtain ⟨hmembers, s, hname⟩ := exists_ofFields_of_set hold
    obtain rfl : n = .str s := hname
    exact ⟨hmembers, (s, v) :: more, rfl⟩

end Retrace.Members
