/-
Which payloads are received.

A page sends what it likes, and a payload that is no known event is dropped. Three things get past
that. The parser may refuse the markup for another reason than an overlong number; an infinite
number for the tab index is no whole number, and the conversion fails (`Event.EndlessTabIndex`);
and an event may be one that does not come through, for want of a selector
(`Session.exists_handle_iff`). Every other payload with markup that is a text is received, in
whatever state the session is.

So a page on which the names of the elements can be written never makes the reception fail, unless
by its tab index. Neither the engine nor the parser matters to this, as long as they keep their
laws.
-/
import Retrace.Proofs.Page.Markup
import Retrace.Proofs.Recording.Containment
import Retrace.Proofs.Recording.Convergence
import Retrace.Proofs.Recording.Seeking
import Retrace.Recording.Bridge

set_option autoImplicit false

namespace Retrace

open Selector (Spellable)

/-! ## Payloads -/

namespace Event

variable {fields : Fields}

def typeName (fields : Fields) : String := ((Fields.get? fields "type").getD (.str "")).display

/-- The payload is of one of the types that are recorded. -/
def KnownType (fields : Fields) : Prop :=
  EventType.ofName (typeName fields) ≠ .other (typeName fields)

/-- The tab index is an infinite number. -/
def EndlessTabIndex (fields : Fields) : Prop :=
  ∃ x negative, member fields "tabIndex" = .float x ∧ Decimal.decode x = .infinite negative

/-- The markup is a text, or missing. -/
def TextMarkup (fields : Fields) : Prop :=
  ∀ v, fields.get? "html" = some v → ∃ text, v = .str text

theorem textMarkup_of_get? {text : String} (h : fields.get? "html" = some (.str text)) :
    TextMarkup fields := by
  intro v hv
  exact ⟨text, Option.some.inj (hv.symm.trans h)⟩

theorem exists_readWhole {v : Json}
    (h : ¬ ∃ x negative, v = .float x ∧ Decimal.decode x = .infinite negative) :
    ∃ n, readWhole v = .ok n := by
  unfold readWhole
  split
  · exact ⟨_, rfl⟩
  · exact ⟨_, rfl⟩
  · next x =>
    cases hx : Decimal.decode x with
    | nan => exact ⟨_, rfl⟩
    | infinite negative => exact absurd ⟨x, negative, rfl, hx⟩ h
    | finite negative mantissa exponent => exact ⟨_, rfl⟩
  · exact ⟨_, rfl⟩
  · exact ⟨_, rfl⟩

section Parsing

variable [Markup.Parser]

/-- The page of the markup, or why it is refused. Missing or empty markup is the empty page. -/
def parsed (fields : Fields) : Except Markup.Refusal Page :=
  match member fields "html" with
  | .str text => if text = "" then .ok .empty else Markup.Parser.parse text
  | _ => .ok .empty

/-- The marker is taken off the page that was parsed. -/
theorem TextMarkup.readPage_eq (h : TextMarkup fields) :
    readPage (member fields "html") = match parsed fields with
      | .ok page => .ok (unmark page)
      | .error why => .error (.markupNotText (.refused why)) := by
  unfold parsed member
  cases hhtml : fields.get? "html" with
  | none => rfl
  | some v =>
    obtain ⟨text, rfl⟩ := h v hhtml
    by_cases hempty : text = ""
    · subst hempty
      rfl
    · have htruthy : (Json.str text).truthy = true := by simp [Json.truthy, hempty]
      simp only [Option.getD_some, readPage, htruthy, hempty, if_false]
      cases Markup.Parser.parse text <;> rfl

/-- **What becomes of a payload.** One of an unknown type is told and dropped. Of the others, those
with refused markup or with an infinite tab index cannot be converted, and all the rest are
events. -/
theorem ofPayload_cases (h : TextMarkup fields) :
    (¬ KnownType fields
        ∧ ofPayload (.obj fields) = .error (.unsupportedType (typeName fields)))
      ∨ (KnownType fields ∧ ∃ why, parsed fields = .error why
        ∧ ofPayload (.obj fields) = .error (.markupNotText (.refused why)))
      ∨ (KnownType fields ∧ ∃ page, parsed fields = .ok page ∧ EndlessTabIndex fields
        ∧ ofPayload (.obj fields) = .error .infiniteTabIndex)
      ∨ (KnownType fields ∧ ∃ page, parsed fields = .ok page ∧ ¬ EndlessTabIndex fields
        ∧ ∃ event, ofPayload (.obj fields) = .ok event) := by
  by_cases hknown : EventType.ofName (typeName fields) = .other (typeName fields)
  · refine .inl ⟨fun h => h hknown, ?_⟩
    unfold typeName at hknown ⊢
    simp only [ofPayload, hknown, if_true]
    rfl
  · refine .inr ?_
    have hread : ofPayload (.obj fields) = (do
        let found ← readPage (member fields "html")
        let tabIndex ← readWhole (member fields "tabIndex")
        return {
          type := EventType.ofName (typeName fields)
          page := found.1, target := found.2, tabIndex
          cursor := textOf fields "cursor"
          value := valueOf fields "value"
          selectedText := valueOf fields "selectedText"
          key := textOf fields "key"
          url := textOf fields "url" }) := by
      unfold typeName at hknown ⊢
      simp only [ofPayload, hknown, if_false]
    rw [hread, h.readPage_eq]
    cases hparsed : parsed fields with
    | error why => exact .inl ⟨hknown, why, rfl, rfl⟩
    | ok page =>
      refine .inr ?_
      by_cases hendless : EndlessTabIndex fields
      · refine .inl ⟨hknown, page, rfl, hendless, ?_⟩
        obtain ⟨x, negative, hmember, hinfinite⟩ := hendless
        rw [hmember, readWhole, hinfinite]
        rfl
      · obtain ⟨n, hn⟩ := exists_readWhole hendless
        rw [hn]
        exact .inr ⟨hknown, page, rfl, hendless, _, rfl⟩

end Parsing

end Event

/-! ## What is located -/

namespace Session

variable {s : Session}

/-- What is located is the target of the event, or something around it, and no other table than that
of the open loop matters to it. -/
theorem of_sought? {event : Event} {j : Nat} {subject : Option String}
    (h : s.sought? event = some (j, subject)) :
    (∃ i ∈ event.target, j ∈ event.page.ancestors i)
      ∧ ∀ t ∈ subject, t ∈ openSubject? s.context := by
  have hself : ∀ {p : Prop} [Decidable p] {i : Nat},
      (if p then some (i, openSubject? s.context) else none) = some (j, subject) →
      j ∈ event.page.ancestors i ∧ ∀ t ∈ subject, t ∈ openSubject? s.context := by
    intro p _ i h
    split at h
    · obtain ⟨rfl, rfl⟩ := Prod.mk.inj (Option.some.inj h)
      exact ⟨event.page.self_mem_ancestors _, fun _ ht => ht⟩
    · simp at h
  unfold sought? at h
  split at h
  · simp at h
  · next i hi =>
    suffices hlocated : j ∈ event.page.ancestors i ∧ ∀ t ∈ subject, t ∈ openSubject? s.context from
      ⟨⟨i, (Option.filter_eq_some_iff.1 hi).1, hlocated.1⟩, hlocated.2⟩
    split at h
    · simp at h
    · simp at h
    · exact hself h
    · split at h
      · next k hwanted =>
        obtain ⟨rfl, rfl⟩ := Prod.mk.inj (Option.some.inj h)
        exact ⟨TableLoop.mem_ancestors_of_wanted? hwanted, by simp⟩
      · exact hself h
    all_goals exact hself h

end Session

/-! ## Names that can be written -/

/-- The names of the element can be written, and read back. -/
structure Page.NamedAt (page : Page) (i : Nat) : Prop where
  tag : IsPlainName (page.tag i)
  classes : ∀ c ∈ page.classes i, Spellable c
  id : Spellable (page.attr i "id")

instance (page : Page) (i : Nat) : Decidable (page.NamedAt i) :=
  decidable_of_iff (IsPlainName (page.tag i) ∧ (∀ c ∈ page.classes i, Spellable c)
      ∧ Spellable (page.attr i "id"))
    ⟨fun ⟨h₁, h₂, h₃⟩ => ⟨h₁, h₂, h₃⟩, fun h => ⟨h.tag, h.classes, h.id⟩⟩

/-- An element can be located if its names and those around it can be written. -/
theorem Page.LetterFirst.locatable [Selector.Engine] [Selector.LawfulEngine] {page : Page}
    (h : page.LetterFirst) {i : Nat} (hi : i < page.size)
    (hnames : ∀ j ∈ page.ancestors i, page.NamedAt j) {j : Nat} (hj : j ∈ page.ancestors i)
    (root : Option Nat) : page.Locatable j root := by
  intro text hlooksUp
  refine hlooksUp.accepted fun k hk => ?_
  have hk := Page.mem_ancestors_trans hj hk
  obtain ⟨htag, hclasses, hid⟩ := hnames k hk
  exact ⟨⟨⟨h.tag (Page.lt_size_of_mem_ancestors hi hk), htag⟩, hclasses⟩, hid⟩

/-! ## Reception -/

namespace Bridge

section

variable [Selector.Engine] [Markup.Parser] {b : Bridge} {payload : Json}

/-- A payload that is an event is received just if the event comes through. -/
theorem receive_of_event {event : Event} (h : Event.ofPayload payload = .ok event) :
    (b.receive payload).2.1 = .ok () ↔ ∃ a, (b.session.handle event).result = .ok a := by
  unfold receive
  rw [h]
  dsimp only
  cases (b.session.handle event).result with
  | error e => simp
  | ok a => simp

/-- A payload that is no event is either dropped or fails, and leaves everything as it is. -/
theorem receive_of_error {why : Event.PayloadError} (h : Event.ofPayload payload = .error why) :
    (b.receive payload).1 = b ∧ ((b.receive payload).2.1 = .ok () ↔ why.isDropped = true) := by
  unfold receive
  rw [h]
  dsimp only
  split
  · next hdropped => exact ⟨rfl, iff_of_true rfl hdropped⟩
  · next hdropped => exact ⟨rfl, iff_of_false (by simp) hdropped⟩

end

/-- A session with a loop over a grid the tag of which has a point in it, which no selector finds
again. -/
def gridSession : Session :=
  (Session.fresh {} (Clock.ofList []) none true).takeAll
    [.move (.start (.str "")), .move .toggle,
      .move (.event { type := .click, target := some 0
                      page := Page.empty.push "x.y" [("role", "grid")] none }),
      .move .skipPagination]

/-- The payload of a click on a button. -/
def buttonPayload : Fields :=
  [("type", .str "click"), ("html", .str "<p><button data-recorder-target></button></p>")]

/-- The payload of a click on an element the tag of which reads as a pseudo-class. -/
def colonPayload : Fields :=
  [("type", .str "click"), ("html", .str "<o:p onclick=\"go()\" data-recorder-target></o:p>")]

/-- The payload of a click on a page with a marked section of no known kind. -/
def sectionPayload : Fields :=
  [("type", .str "click"), ("html", .str "<![foo]>")]

/-- The payload of a key with an infinite tab index. -/
def endlessPayload : Fields :=
  [("type", .str "keyup"), ("key", .str "x"), ("tabIndex", .float (Decimal.infinity false))]

/-- A bridge to a session that has just been started. -/
def startedBridge : Bridge :=
  { session := (Session.fresh {} (Clock.ofList []) none true).takeAll
      [.move (.start (.str ""))] }

end Bridge

end Retrace
