/-
What is looked up to locate an element.

The walk outwards asks how often its texts are found: the id of an element, its tag with the
classes, and its description. The walk fails if the engine takes one of them for no selector
(`exists_stepsAlong_iff`). A text that comes after a failure is never looked up, so which texts
there are is itself a matter of the walk (`LooksUp`). All this is so whatever the engine is.

Ids and classes are escaped where they are written, and so they can be read but for a few controls.
A tag stands as it is. So it takes an odd tag for a walk to fail, as a page may define one
(`LooksUp.accepted`).
-/
import Retrace.Proofs.Locator.Description
import Retrace.Proofs.Locator.Nonempty

set_option autoImplicit false

namespace Retrace.Locator

open Selector

variable [Engine] {page : Page} {root : Option Nat} {useIds : Bool} {i : Nat} {around : List Nat}

/-! ## Texts that are counted -/

/-- The engine takes the text for a selector. -/
def Accepted (page : Page) (root : Option Nat) (text : String) : Prop :=
  ∃ found, find page root text = .ok found

/-- A text can be counted if the engine accepts it. -/
theorem exists_count_iff {text : String} :
    (∃ n, count page root text = .ok n) ↔ Accepted page root text := by
  simp only [count, map_eq_ok_iff]
  constructor
  · rintro ⟨_, found, hfind, -⟩
    exact ⟨found, hfind⟩
  · rintro ⟨found, hfind⟩
    exact ⟨_, found, hfind, rfl⟩

/-- An id is looked up only where ids are used and the element has one. -/
theorem exists_uniqueId?_iff :
    (∃ id, uniqueId? page root useIds i = .ok id)
      ↔ (useIds = true → page.attr i "id" ≠ "" →
        Accepted page root (byId (page.attr i "id"))) := by
  unfold uniqueId?
  by_cases hid : (useIds && decide (page.attr i "id" ≠ "")) = true
  · obtain ⟨huse, hne⟩ : useIds = true ∧ page.attr i "id" ≠ "" := by simpa using hid
    simp only [hid, if_true, exists_bind_ok_iff]
    rw [← exists_count_iff]
    exact ⟨fun ⟨n, hn, _⟩ _ _ => ⟨n, hn⟩, fun h => (h huse hne).imp fun n hn => ⟨hn, _, rfl⟩⟩
  · have hnot : useIds = true → page.attr i "id" = "" := by simpa using hid
    simp only [hid, Bool.false_eq_true, if_false]
    exact iff_of_true ⟨none, rfl⟩ fun huse hne => absurd (hnot huse) hne

/-- A description is found once the tag and the classes can be looked up. -/
theorem exists_describe_iff :
    (∃ description, describe page root i = .ok description)
      ↔ Accepted page root (byTagAndClasses page i) := by
  rw [← exists_count_iff, describe, exists_bind_ok_iff]
  refine exists_congr fun n => and_iff_left ?_
  split <;> exact ⟨_, rfl⟩

/-! ## The walk outwards -/

/-- The texts that the walk outwards looks up. -/
inductive LooksUp (page : Page) (root : Option Nat) (useIds : Bool) :
    List Nat → String → Prop where
  | id {i : Nat} {around : List Nat} : root ≠ some i → useIds = true → page.attr i "id" ≠ "" →
      LooksUp page root useIds (i :: around) (byId (page.attr i "id"))
  | plain {i : Nat} {around : List Nat} : root ≠ some i →
      uniqueId? page root useIds i = .ok none →
      LooksUp page root useIds (i :: around) (byTagAndClasses page i)
  | description {i : Nat} {around : List Nat} {description : String} : root ≠ some i →
      uniqueId? page root useIds i = .ok none → describe page root i = .ok description →
      LooksUp page root useIds (i :: around) description
  /-- Where the description is found several times, the walk goes on. -/
  | outwards {i : Nat} {around : List Nat} {description text : String} {n : Nat} :
      root ≠ some i → uniqueId? page root useIds i = .ok none →
      describe page root i = .ok description → count page root description = .ok n → n ≠ 1 →
      LooksUp page root useIds around text → LooksUp page root useIds (i :: around) text

/-- One step of the walk: the id, the description, and, unless it is found once, the way
outwards. -/
theorem exists_stepsAlong_cons_iff (hself : root ≠ some i) :
    (∃ steps, stepsAlong page root useIds (i :: around) = .ok steps)
      ↔ ∃ id?, uniqueId? page root useIds i = .ok id?
        ∧ (id? = none → ∃ description, describe page root i = .ok description
          ∧ ∃ n, count page root description = .ok n
            ∧ (n ≠ 1 → ∃ steps, stepsAlong page root useIds around = .ok steps)) := by
  rw [stepsAlong, if_neg hself, exists_bind_ok_iff]
  refine exists_congr fun id? => and_congr_right fun _ => ?_
  cases id? with
  | some id => exact iff_of_true ⟨_, rfl⟩ (by simp)
  | none =>
    simp only [exists_bind_ok_iff, forall_const]
    refine exists_congr fun description => and_congr_right fun _ =>
      exists_congr fun n => and_congr_right fun _ => ?_
    split
    · next hn => exact iff_of_true ⟨_, rfl⟩ fun hne => absurd hn hne
    · next hn =>
      rw [exists_bind_ok_iff]
      constructor
      · rintro ⟨steps, hsteps, -⟩ -
        exact ⟨steps, hsteps⟩
      · intro h
        obtain ⟨steps, hsteps⟩ := h hn
        exact ⟨steps, hsteps, _, rfl⟩

/-- **Where the walk fails.** It comes to its end if and only if all that it looks up is
accepted. -/
theorem exists_stepsAlong_iff :
    (∃ steps, stepsAlong page root useIds around = .ok steps)
      ↔ ∀ text, LooksUp page root useIds around text → Accepted page root text := by
  constructor
  · intro h text hlooksUp
    -- the induction is on how the walk comes to the text
    induction hlooksUp with
    | id hself huse hne =>
      obtain ⟨id?, hid, -⟩ := (exists_stepsAlong_cons_iff hself).1 h
      exact exists_uniqueId?_iff.1 ⟨id?, hid⟩ huse hne
    | plain hself hid =>
      obtain ⟨id?, hid', h⟩ := (exists_stepsAlong_cons_iff hself).1 h
      obtain rfl := Except.ok.inj (hid.symm.trans hid')
      obtain ⟨description, hdescribe, -⟩ := h rfl
      exact exists_describe_iff.1 ⟨description, hdescribe⟩
    | description hself hid hdescribe =>
      obtain ⟨id?, hid', h⟩ := (exists_stepsAlong_cons_iff hself).1 h
      obtain rfl := Except.ok.inj (hid.symm.trans hid')
      obtain ⟨description, hdescribe', n, hcount, -⟩ := h rfl
      obtain rfl := Except.ok.inj (hdescribe.symm.trans hdescribe')
      exact exists_count_iff.1 ⟨n, hcount⟩
    | outwards hself hid hdescribe hcount hne _ ih =>
      obtain ⟨id?, hid', h⟩ := (exists_stepsAlong_cons_iff hself).1 h
      obtain rfl := Except.ok.inj (hid.symm.trans hid')
      obtain ⟨description, hdescribe', n, hcount', houter⟩ := h rfl
      obtain rfl := Except.ok.inj (hdescribe.symm.trans hdescribe')
      obtain rfl := Except.ok.inj (hcount.symm.trans hcount')
      exact ih (houter hne)
  · intro h
    induction around with
    | nil => exact ⟨[], rfl⟩
    | cons i around ih =>
      by_cases hself : root = some i
      · exact ⟨[], by rw [stepsAlong, if_pos hself]⟩
      -- each text is looked up because the ones before it were accepted
      refine (exists_stepsAlong_cons_iff hself).2 ?_
      obtain ⟨id?, hid⟩ : ∃ id?, uniqueId? page root useIds i = .ok id? :=
        exists_uniqueId?_iff.2 fun huse hne => h _ (.id hself huse hne)
      refine ⟨id?, hid, ?_⟩
      rintro rfl
      obtain ⟨description, hdescribe⟩ : ∃ description, describe page root i = .ok description :=
        exists_describe_iff.2 (h _ (.plain hself hid))
      obtain ⟨n, hcount⟩ := exists_count_iff.2 (h _ (.description hself hid hdescribe))
      exact ⟨description, hdescribe, n, hcount, fun hne =>
        ih fun text ht => h text (.outwards hself hid hdescribe hcount hne ht)⟩

/-! ## What is handed out -/

theorem eq_byId_of_uniqueId? {id : String} (h : uniqueId? page root useIds i = .ok (some id)) :
    useIds = true ∧ page.attr i "id" ≠ "" ∧ id = byId (page.attr i "id") := by
  unfold uniqueId? at h
  dsimp only at h
  split at h
  · next hid =>
    obtain ⟨huse, hne⟩ : useIds = true ∧ page.attr i "id" ≠ "" := by simpa using hid
    obtain ⟨found, -, h⟩ := exists_of_bind_ok h
    have heq := Except.ok.inj h
    split at heq
    · exact ⟨huse, hne, (Option.some.inj heq).symm⟩
    · simp at heq
  · simp [pure, Except.pure] at h

/-- Off the root, there is a last step at least. -/
theorem ne_nil_of_stepsAlong (hself : root ≠ some i) {steps : List String}
    (h : stepsAlong page root useIds (i :: around) = .ok steps) : steps ≠ [] := by
  rw [stepsAlong, if_neg hself] at h
  obtain ⟨id?, -, h⟩ := exists_of_bind_ok h
  cases id? with
  | some id =>
    obtain rfl := Except.ok.inj h
    exact List.cons_ne_nil _ _
  | none =>
    obtain ⟨description, -, h⟩ := exists_of_bind_ok h
    obtain ⟨n, -, h⟩ := exists_of_bind_ok h
    split at h
    · obtain rfl := Except.ok.inj h
      exact List.cons_ne_nil _ _
    · obtain ⟨outer, -, h⟩ := exists_of_bind_ok h
      obtain rfl := Except.ok.inj h
      simp

/-- The walk hands out nothing that it has not looked up. -/
theorem looksUp_of_mem_stepsAlong {steps : List String}
    (h : stepsAlong page root useIds around = .ok steps) :
    ∀ step ∈ steps, LooksUp page root useIds around step := by
  induction around generalizing steps with
  | nil =>
    obtain rfl := Except.ok.inj h
    simp
  | cons i around ih =>
    by_cases hself : root = some i
    · rw [stepsAlong, if_pos hself] at h
      obtain rfl := Except.ok.inj h
      simp
    rw [stepsAlong, if_neg hself] at h
    obtain ⟨id?, hid, h⟩ := exists_of_bind_ok h
    cases id? with
    | some id =>
      obtain rfl := Except.ok.inj h
      obtain ⟨huse, hne, rfl⟩ := eq_byId_of_uniqueId? hid
      simpa using .id hself huse hne
    | none =>
      obtain ⟨description, hdescribe, h⟩ := exists_of_bind_ok h
      obtain ⟨n, hcount, h⟩ := exists_of_bind_ok h
      have hdescription : LooksUp page root useIds (i :: around) description :=
        .description hself hid hdescribe
      split at h
      · obtain rfl := Except.ok.inj h
        simpa using hdescription
      · next hne =>
        obtain ⟨outer, houter, h⟩ := exists_of_bind_ok h
        obtain rfl := Except.ok.inj h
        intro step hstep
        rcases List.mem_append.1 hstep with hstep | hstep
        · exact .outwards hself hid hdescribe hcount hne (ih houter step hstep)
        · rwa [List.mem_singleton.1 hstep]

theorem synthesize_eq_ok_iff {locator : String} :
    synthesize page (some i) root useIds = .ok locator
      ↔ ∃ steps, stepsAlong page root useIds (page.ancestors i) = .ok steps
        ∧ path steps = locator :=
  map_eq_ok_iff

theorem exists_synthesize_iff :
    (∃ locator, synthesize page (some i) root useIds = .ok locator)
      ↔ ∀ text, LooksUp page root useIds (page.ancestors i) text → Accepted page root text := by
  simp only [← exists_stepsAlong_iff, synthesize_eq_ok_iff]
  exact ⟨fun ⟨_, steps, hsteps, _⟩ => ⟨steps, hsteps⟩,
    fun ⟨steps, hsteps⟩ => ⟨path steps, steps, hsteps, rfl⟩⟩

/-- From a container on, nothing is looked up but on the way to it. -/
theorem exists_synthesizeWithin_iff {container : Nat} {containerLocator : String} :
    (∃ locator, synthesizeWithin page i container containerLocator = .ok locator)
      ↔ ∀ text, LooksUp page (some container) false (page.ancestors i) text
        → Accepted page (some container) text := by
  rw [← exists_synthesize_iff, synthesizeWithin, exists_bind_ok_iff]
  refine exists_congr fun inner => and_iff_left ?_
  split <;> exact ⟨_, rfl⟩

/-- An engine that does not take the empty text for a selector lets no locator be empty, since the
last step of each has been looked up. -/
theorem ne_empty_of_synthesize [LawfulEngine] {locator : String}
    (h : synthesize page (some i) none = .ok locator) : locator ≠ "" := by
  have haccepted := exists_synthesize_iff.1 ⟨locator, h⟩
  obtain ⟨steps, hsteps, rfl⟩ := synthesize_eq_ok_iff.1 h
  have hne : steps ≠ [] := by
    rw [Page.ancestors_eq] at hsteps
    exact ne_nil_of_stepsAlong (by simp) hsteps
  obtain ⟨outer, last, rfl⟩ := (steps.eq_nil_or_concat').resolve_left hne
  refine path_append_ne_empty outer ?_
  rintro rfl
  obtain ⟨found, hfind⟩ := haccepted "" (looksUp_of_mem_stepsAlong hsteps "" (by simp))
  exact LawfulEngine.find_empty page none found hfind

/-! ## Names that can be written -/

/-- A lawful engine accepts the text of a compound that can be written. -/
theorem accepted_text [LawfulEngine] {conditions : List Condition}
    (h : WritableCompound conditions) : Accepted page root (Selector.one conditions).text :=
  ⟨_, LawfulEngine.find_text h page root⟩

/-- Where names can be written, all that is looked up is accepted. -/
theorem LooksUp.accepted [LawfulEngine] {text : String}
    (h : LooksUp page root useIds around text)
    (hnames : ∀ j ∈ around, page.NameableAt j ∧ Spellable (page.attr j "id")) :
    Accepted page root text := by
  induction h with
  | @id j around _ _ hne =>
    obtain ⟨-, hid⟩ := hnames j (by simp)
    rw [byId_eq]
    refine accepted_text ⟨List.cons_ne_nil _ _, ?_, by simp⟩
    intro c hc
    obtain rfl := List.mem_singleton.1 hc
    exact ⟨hne, hid⟩
  | @plain j around _ _ =>
    obtain ⟨hname, -⟩ := hnames j (by simp)
    rw [byTagAndClasses_eq hname.tag]
    exact accepted_text (Describes.writable (.inl rfl) hname)
  | @description j around description _ _ hdescribe =>
    obtain ⟨hname, -⟩ := hnames j (by simp)
    obtain rfl := Except.ok.inj ((describe_eq hname root).symm.trans hdescribe)
    exact accepted_text ((describes_description page root j).writable hname)
  | outwards _ _ _ _ _ _ ih => exact ih fun j hj => hnames j (List.mem_cons_of_mem _ hj)

end Retrace.Locator
