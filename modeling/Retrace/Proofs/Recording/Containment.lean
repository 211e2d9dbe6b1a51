/-
What is recorded inside of a loop is planned inside of it.

The session decides by the page whether an element lies in the table of the open loop; a plan
decides by the text of the recorded locator. Here the two decisions are shown to agree on pages
whose names can be written.

Inside of the table, the recorded locator is that of the table, a combinator and the path from the
table on, so the path is got back. Outside of it, the locator is a selector that matches the
element. If its text went on from that of the table, whatever it matches would lie in something
that the table's locator matches (`exists_holds_of_read_append`), hence in the table.

All this needs that the table's locator is a selector that can be written, which is kept along the
run (`Session.Reachable.located`).
-/
import Retrace.Proofs.Locator.Depth
import Retrace.Proofs.Locator.Soundness
import Retrace.Proofs.Page.Markup
import Retrace.Proofs.Path.Relative
import Retrace.Proofs.Recording.Run

set_option autoImplicit false

namespace Retrace

/-! ## Locators of tables -/

/-- A text that is the written form of a selector. -/
def IsLocator (locator : String) : Prop := ∃ s : Selector, s.Writable ∧ s.text = locator

/-- A name of letters, digits, hyphens and underscores. -/
def IsPlainName (name : String) : Prop :=
  ∀ c ∈ name.toList, c.isAlphanum = true ∨ c = '-' ∨ c = '_'

instance (name : String) : Decidable (IsPlainName name) := List.decidableBAll _ name.toList

/-- A page whose names are made of characters that can be written. -/
structure Page.Writable (page : Page) : Prop where
  tags : ∀ i < page.size, IsPlainName (page.tag i)
  classes : ∀ i < page.size, ∀ c ∈ page.classes i, Selector.Spellable c
  ids : ∀ i < page.size, Selector.Spellable (page.attr i "id")

instance (page : Page) : Decidable page.Writable :=
  decidable_of_iff ((∀ i < page.size, IsPlainName (page.tag i))
      ∧ (∀ i < page.size, ∀ c ∈ page.classes i, Selector.Spellable c)
      ∧ ∀ i < page.size, Selector.Spellable (page.attr i "id"))
    ⟨fun ⟨h₁, h₂, h₃⟩ => ⟨h₁, h₂, h₃⟩, fun h => ⟨h.tags, h.classes, h.ids⟩⟩

/-- A move that is no event, or an event as it is received, with such names on its page. -/
def Move.Writable : Move → Prop
  | .event e => (∃ payload, Event.ofPayload payload = .ok e) ∧ e.page.Writable
  | .start _ | .stop | .flush | .toggle | .skipPagination | .label _ => True

/-- Tags that are received begin with a letter, so their characters are all that is in question. -/
theorem Move.Writable.page_of_event {e : Event} (h : (Move.event e).Writable) :
    e.page.Nameable ∧ ∀ i ∈ e.target, i < e.page.size := by
  obtain ⟨⟨payload, hpayload⟩, hpage⟩ := h
  obtain ⟨hletter, htarget⟩ := Event.page_of_ofPayload hpayload
  refine ⟨⟨?_, hpage.classes, hpage.ids⟩, htarget⟩
  intro i hi
  exact ⟨hletter.tag hi, hpage.tags i hi⟩

theorem Move.Writable.isLocator {m : Move} (h : m.Writable) {locator : String}
    (hlocates : m.Locates locator) : IsLocator locator := by
  cases m with
  | event e =>
    obtain ⟨i, hi, table, htable, hsynthesize⟩ := hlocates
    obtain ⟨hp, htarget⟩ := h.page_of_event
    have hsize := Page.lt_size_of_mem_ancestors (htarget i hi) htable
    obtain ⟨-, s, hs, hw, -⟩ := Locator.exists_selector_synthesize hp hsize
    exact ⟨s, hw, Except.ok.inj (hs.symm.trans hsynthesize)⟩
  | start _ => exact hlocates.elim
  | stop => exact hlocates.elim
  | flush => exact hlocates.elim
  | toggle => exact hlocates.elim
  | skipPagination => exact hlocates.elim
  | label _ => exact hlocates.elim

/-- Along every run on pages whose names can be written, tables are known by locators. -/
theorem Session.Reachable.located {s : Session} (h : s.Reachable Move.Writable) :
    s.loopState.Known IsLocator :=
  h.known fun _ hm _ => hm.isLocator

/-! ## The recorded locator -/

namespace Session

variable {s : Session} {event : Event} {i : Nat} {a : Action Json}

/-- What is recorded on an element carries its locator. -/
theorem locate_of_recordOn {page : Page} {kind : Kind} {value : Option Json} {coalesce : Bool}
    (h : (s.recordOn page i kind value coalesce).result = .ok (some a)) :
    locate s.context page i = .ok a.locator := by
  unfold recordOn at h
  split at h
  · simp at h
  · next locator hlocate =>
    split at h
    · simp [Outcome.done] at h
    · obtain ⟨timestamp, hentry⟩ := Log.exists_entry_eq
        ({ s with clock := s.clock.next } : Session).logBefore
        { kind, locator, value, timestamp := s.clock.now } coalesce
      obtain rfl := Option.some.inj (Except.ok.inj h)
      rw [hlocate]
      exact congrArg (fun a => Except.ok (Action.locator a)) hentry.symm

theorem keyReleased_result (hopen : s.context.phase.loopOpen = true) (key : String) :
    (s.keyReleased key).result = .ok none := by
  have hbound : (TableLoop.releaseModifier s.context s.clock).1.bound = none := by
    unfold TableLoop.releaseModifier
    split
    · rfl
    · split
      · next hphase => simp [hphase, Phase.loopOpen] at hopen
      · rfl
  unfold keyReleased
  split
  · exact congrArg Except.ok hbound
  · split
    · split <;> rfl
    · rfl

theorem hovered_result_ne : (s.hovered event).result ≠ .ok (some a) := by
  unfold hovered
  split
  · simp [Outcome.done]
  · dsimp only
    split
    · split
      · split <;> simp [Outcome.done]
      · simp [Outcome.done]
    · simp [Outcome.done]

/-- In an open loop, what a click is recorded as carries the locator of the element. -/
theorem locate_of_clicked (hopen : s.context.phase.loopOpen = true)
    (h : (s.clicked event i).result = .ok (some a)) :
    locate s.context event.page i = .ok a.locator := by
  unfold clicked at h
  split at h
  · simp at h
  · simp [Outcome.done] at h
  · next o hclick =>
    have hcontext : (s.absorb o).1.context = s.context := by
      rw [context_absorb, (TableLoop.clicked_of_click _ _ hclick).context_eq _ _ hopen]
    dsimp only at h
    split at h
    · rw [← hcontext]
      exact locate_of_recordOn h
    · simp [Outcome.done] at h

theorem locate_of_changed (h : (s.changed event i).result = .ok (some a)) :
    locate s.context event.page i = .ok a.locator := by
  unfold changed at h
  split at h
  · exact locate_of_recordOn h
  · exact locate_of_recordOn h
  · simp [Outcome.done] at h

/-- In an open loop, what an event is recorded as carries the locator of the element. -/
theorem locate_of_handle (hopen : s.context.phase.loopOpen = true) (htarget : event.target = some i)
    (h : (s.handle event).result = .ok (some a)) :
    locate s.context event.page i = .ok a.locator := by
  have hnote : (s.noteUrl event.url).context.phase = s.context.phase
      ∧ (s.noteUrl event.url).context.subject = s.context.subject := by
    rw [noteUrl_eq]
    exact ⟨rfl, rfl⟩
  have hlocate : locate (s.noteUrl event.url).context event.page i
      = locate s.context event.page i := by
    rw [locate, locate, openSubject?, openSubject?, hnote.1, hnote.2]
  rw [← hlocate]
  rw [← hnote.1] at hopen
  unfold handle at h
  split at h
  · simp [Outcome.done] at h
  · dsimp only at h
    split at h
    · split at h <;> simp [Outcome.done] at h
    · rw [keyReleased_result hopen] at h
      simp at h
    · exact absurd h hovered_result_ne
    -- what is left are clicks and changes, which are recorded on the target
    all_goals
      split at h
      · simp [Outcome.done] at h
      · next j hj =>
        obtain rfl : i = j := Option.some.inj
          (htarget.symm.trans (Option.filter_eq_some_iff.1 hj).1)
        by_cases hclick : event.type = .click
        · rw [if_pos hclick] at h
          exact locate_of_clicked hopen h
        · rw [if_neg hclick] at h
          exact locate_of_changed h

end Session

/-! ## Inside and outside -/

namespace Locator

open Selector

variable {page : Page} {container i : Nat} {s : Selector}

/-- **Inside.** From a container on, an element is located behind the container by a path, which is
got back. It goes on with a child just if its first step stands for one. -/
theorem synthesizeWithin_spec (hp : page.Nameable) (hi : i < page.size)
    (hcontainer : container ∈ page.ancestors i) {subject : String} (hne : subject ≠ "") :
    ∃ locator path, synthesizeWithin page i container subject = .ok locator
      ∧ synthesize page (some i) (some container) false = .ok path
      ∧ Path.relativeTo? subject locator = some path
      ∧ (i ≠ container → ∃ first more found d,
        steps page (some i) (some container) false = .ok (first :: more)
          ∧ (page.ancestors i)[more.length]? = some d
          ∧ find page (some container) first = .ok found ∧ d ∈ found
          ∧ (Path.continuesWithChild subject locator = true
            ↔ page.parent? d = some container)) := by
  obtain ⟨compounds, hsteps, hsynthesize, htrail⟩ :=
    exists_synthesize hp (some container) false hi
    (by rintro _ ⟨⟩; exact hcontainer)
  cases compounds with
  | nil =>
    -- the container itself is located by its own locator, to which nothing is added
    refine ⟨subject, "", ?_, hsynthesize, Path.relativeTo?_self hne, ?_⟩
    · rw [synthesizeWithin, hsynthesize]
      rfl
    · intro hself
      exact absurd rfl (htrail.ne_nil fun h => hself (Option.some.inj h).symm)
  | cons first more =>
    obtain ⟨c, hc, hbegins⟩ := htrail.head_path (List.cons_ne_nil _ _)
    obtain ⟨_, d, ⟨⟩, hd, hbelow, hholds⟩ := htrail.exists_first rfl
    have hstarts : startsAtChild page i container more.length = true
        ↔ page.parent? d = some container := by
      rw [startsAtChild, hd]
      simp
    have hwithin := synthesizeWithin_eq htrail.writable_of_mem hsteps subject
    have hrelative := Path.relativeTo?_append hne
      (if startsAtChild page i container more.length then Path.Combinator.child
        else .descendant) ⟨c, hc, hbegins.isJoint_eq_false⟩
    refine ⟨_, _, hwithin, hsynthesize, hrelative, fun _ => ?_⟩
    have hfind := find_text (s := .one first) (htrail.writable_of_mem first (by simp)) page
      (some container)
    refine ⟨(Selector.one first).text, texts more, _, d, hsteps, ?_, hfind,
      mem_select.2 ⟨hbelow, hholds⟩, ?_⟩
    · rw [texts, List.length_map]
      exact hd
    · rw [Path.continuesWithChild_append _ ⟨c, hc, hbegins.isBlank_eq_false, hbegins.ne_child⟩,
        ← hstarts]
      by_cases hchild : startsAtChild page i container more.length = true
      · simp [hchild]
      · simp [hchild]

/-- **Outside.** The locator of an element goes on from no other locator, unless the element lies in
something that the other one finds. -/
theorem relativeTo?_eq_none (hp : page.Nameable) (hi : i < page.size) (hw : s.Writable)
    (houtside : ∀ table ∈ s.select page none, table ∉ page.ancestors i) {locator : String}
    (hlocator : synthesize page (some i) none = .ok locator) :
    Path.relativeTo? s.text locator = none := by
  obtain ⟨-, t, ht, htw, hmem, -⟩ := exists_selector_synthesize hp hi
  obtain rfl : t.text = locator := Except.ok.inj (ht.symm.trans hlocator)
  by_contra hsome
  -- then the locator goes on from `s` with nothing or a combinator, either of which ends `s`
  obtain ⟨rest, hrest⟩ := Option.ne_none_iff_exists'.1 hsome
  obtain ⟨tail, hsplit, htail⟩ := Path.exists_append_of_relativeTo? hrest
  have hends : EndsCompound tail := by
    intro c hc
    have hjoint := htail c hc
    simp only [Path.isJoint, Bool.or_eq_true, decide_eq_true_eq] at hjoint
    rcases hjoint with rfl | rfl
    · exact .inl (by decide)
    · exact .inr rfl
  have hread : read (String.ofList (s.spell ++ tail)) = .ok t := by
    have htext : String.ofList (s.spell ++ tail) = t.text := by
      rw [← String.toList_inj, hsplit, text, String.toList_ofList, String.toList_ofList]
    rw [htext, read_text htw]
  -- so the element lies in something that `s` finds
  obtain ⟨table, htable, hholds⟩ :=
    exists_holds_of_read_append hw htw hends hread (mem_select.1 hmem).2
  refine houtside table (mem_select.2 ⟨?_, hholds⟩) htable
  exact Page.mem_below_none.2 (Page.lt_size_of_mem_ancestors hi htable)

end Locator

/-- Where the table's locator finds one element alone, an element is located from there on if it
lies in the table, and from the page on if not. -/
theorem Session.locate_eq {context : Context} {s : Selector} (hw : s.Writable)
    (hopened : openSubject? context = some s.text) {page : Page} {table : Nat}
    (hselect : s.select page none = [table]) (i : Nat) :
    locate context page i
      = if page.isWithin i table then Locator.synthesizeWithin page i table s.text
        else Locator.synthesize page (some i) none := by
  rw [locate, hopened]
  simp [Locator.find_text hw, hselect, bind, Except.bind]

/-- **Recording and planning agree on what is inside.** In every run on pages whose names can be
written, while a loop is open and its table is the one element that its locator finds on the page:
the locator of a recorded action adds something to that of the table just if the element is, or lies
in, the table. What it adds is the path from the table on, and it goes on with a child just if the
first step of that path stands for a child of the table. -/
theorem Session.relativeTo?_of_handle {s : Session} (hs : s.Reachable Move.Writable)
    {event : Event} (hevent : (Move.event event).Writable) {subject : String}
    (hopen : s.context.phase.loopOpen = true) (hsubject : s.context.subject = some subject)
    {table : Nat} (htable : Locator.find event.page none subject = .ok [table])
    {i : Nat} (htarget : event.target = some i)
    {a : Action Json} (hrecord : (s.handle event).result = .ok (some a)) :
    ((Path.relativeTo? subject a.locator).isSome = true ↔ event.page.isWithin i table = true)
      ∧ (event.page.isWithin i table = true →
        ∃ path, Locator.synthesize event.page (some i) (some table) false = .ok path
          ∧ Path.relativeTo? subject a.locator = some path
          ∧ (i ≠ table → ∃ first more found d,
            Locator.steps event.page (some i) (some table) false = .ok (first :: more)
              ∧ (event.page.ancestors i)[more.length]? = some d
              ∧ Locator.find event.page (some table) first = .ok found ∧ d ∈ found
              ∧ (Path.continuesWithChild subject a.locator = true
                ↔ event.page.parent? d = some table))) := by
  obtain ⟨t, hw, rfl⟩ := hs.located.subject subject hsubject
  obtain ⟨hp, hsize⟩ := hevent.page_of_event
  have hi := hsize i htarget
  have hne := Locator.text_ne_empty hw
  have hselect : t.select event.page none = [table] :=
    Except.ok.inj ((Locator.find_text hw event.page none).symm.trans htable)
  have hopened : openSubject? s.context = some t.text := by
    rw [openSubject?, if_pos hopen, hsubject]
    simp [hne]
  have hlocate := locate_of_handle hopen htarget hrecord
  rw [locate_eq hw hopened hselect] at hlocate
  -- the session decides by the page, and each way of locating has its own lemma
  by_cases hwithin : event.page.isWithin i table = true
  · rw [if_pos hwithin] at hlocate
    obtain ⟨locator, path, hsynthesize, hpath, hrelative, hchild⟩ :=
      Locator.synthesizeWithin_spec hp hi (Page.isWithin_iff.1 hwithin) hne
    obtain rfl : locator = a.locator := Except.ok.inj (hsynthesize.symm.trans hlocate)
    exact ⟨by simp [hrelative, hwithin], fun _ => ⟨path, hpath, hrelative, hchild⟩⟩
  · rw [if_neg hwithin] at hlocate
    have houtside : ∀ container ∈ t.select event.page none,
        container ∉ event.page.ancestors i := by
      intro container hcontainer
      rw [hselect, List.mem_singleton] at hcontainer
      rw [hcontainer]
      exact fun h => hwithin (Page.isWithin_iff.2 h)
    have hnone := Locator.relativeTo?_eq_none hp hi hw houtside hlocate
    exact ⟨by simp [hnone, hwithin], fun h => absurd h hwithin⟩

/-- A page with a table of one cell, in which there is a button. -/
def buttonPage : Page :=
  (((Page.empty.push "table" [] none).push "tr" [] (some 0)).push "td" [] (some 1)).push "button"
    [] (some 2)

/-- A click on the button. -/
def buttonClick : Event := { type := .click, page := buttonPage, target := some 3 }

theorem ofPayload_buttonClick :
    Event.ofPayload (.obj [("type", .str "click"),
      ("html", .str "<table><tr><td><button data-recorder-target></table>")])
        = .ok buttonClick := by
  rfl

/-- A session in which the table has been picked, and no control for the next page. -/
def buttonSession : Session :=
  (Session.fresh {} (Clock.ofList []) none true).playAll
    [.start (.str "page"), .toggle, .event buttonClick, .skipPagination]

theorem Session.relativeTo?_of_handle_button :
    ∃ a, (buttonSession.handle buttonClick).result = .ok (some a)
      ∧ Path.relativeTo? "table" a.locator = some "button" := by
  have hclick : (Move.event buttonClick).Writable :=
    ⟨⟨_, ofPayload_buttonClick⟩, by decide +kernel⟩
  have hreachable : buttonSession.Reachable Move.Writable := by
    refine ⟨_, _, _, _, _, ?_, rfl⟩
    simp only [List.forall_mem_cons]
    exact ⟨trivial, trivial, hclick, trivial, by simp⟩
  obtain ⟨a, hrecord⟩ : ∃ a, (buttonSession.handle buttonClick).result = .ok (some a) := by
    have hsome : (buttonSession.handle buttonClick).result.toOption.join.isSome = true := by
      decide +kernel
    obtain ⟨a, ha⟩ := Option.isSome_iff_exists.1 hsome
    refine ⟨a, ?_⟩
    generalize (buttonSession.handle _).result = result at ha ⊢
    match result with
    | .ok (some a') => rw [← ha]; rfl
    | .ok none => simp [Except.toOption] at ha
    | .error e => simp [Except.toOption] at ha
  obtain ⟨-, hinside⟩ := @Session.relativeTo?_of_handle buttonSession hreachable buttonClick hclick
    "table" (by decide +kernel) (by decide +kernel) 0 (by decide +kernel) 3 rfl a hrecord
  obtain ⟨path, hpath, hrelative, -⟩ := hinside (by decide +kernel)
  have hsynthesize : Locator.synthesize buttonPage (some 3) (some 0) false = .ok "button" := by
    decide +kernel
  obtain rfl : "button" = path := Except.ok.inj (hsynthesize.symm.trans hpath)
  exact ⟨a, hrecord, hrelative⟩

end Retrace
