/-
Tags of pages that come from markup.

A `<` opens an element only in front of a letter, and so every tag of a page that was read from
markup begins with one, whatever the markup is. No other restriction of the names that selectors
can write comes for free; this one does.
-/
import Retrace.Event
import Retrace.Proofs.Selector.Spelling

set_option autoImplicit false

namespace Retrace

/-- A text with a letter in front. -/
def LetterFirst (name : String) : Prop := name.toList.head?.any Char.isAlpha = true

/-- A page all of whose tags begin with a letter. -/
def Page.LetterFirst (page : Page) : Prop := ∀ e ∈ page.elements, Retrace.LetterFirst e.tag

theorem Page.LetterFirst.tag {page : Page} (h : page.LetterFirst) {i : Nat} (hi : i < page.size) :
    Retrace.LetterFirst (page.tag i) := by
  have hget : page.elements[i]? = some page.elements[i] := Array.getElem?_eq_getElem hi
  rw [Page.tag, hget, Option.map_some, Option.getD_some]
  exact h _ (Array.getElem_mem hi)

theorem Page.letterFirst_empty : Page.empty.LetterFirst := by
  intro e he
  simp [empty] at he

/-! ## Lower case -/

open Selector in
/-- A letter stays one in lower case. -/
theorem isAlpha_toLower {c : Char} (h : c.isAlpha = true) : c.toLower.isAlpha = true := by
  rw [isAlpha_iff_toNat] at h ⊢
  delta Char.toLower
  split
  · next hupper =>
    simp only [UInt32.le_iff_toNat_le, seval] at hupper
    simp only [Char.toNat, UInt32.toNat_add, seval]
    omega
  · exact h

theorem LetterFirst.lowerAscii {name : String} (h : LetterFirst name) :
    LetterFirst (Text.lowerAscii name) := by
  unfold LetterFirst at h ⊢
  rw [Text.lowerAscii, String.toList_ofList, List.head?_map]
  cases hhead : name.toList.head? with
  | none => simp [hhead] at h
  | some c =>
    have hc : c.isAlpha = true := by simpa [hhead] using h
    simpa using isAlpha_toLower hc

/-- Full lower case has no influence on an ASCII letter but to make it small. -/
theorem LetterFirst.lower {name : String} (h : LetterFirst name) :
    LetterFirst (Text.lower name) := by
  unfold LetterFirst at h ⊢
  rw [Text.lower, String.toList_ofList]
  cases hname : name.toList with
  | nil => simp [hname] at h
  | cons c rest =>
    have hc : c.isAlpha = true := by simpa [hname] using h
    have hascii : c.toNat < 0x80 := by
      have hnat := Selector.isAlpha_iff_toNat.1 hc
      omega
    rw [Text.lowerFrom_cons_of_lt hascii]
    simpa using isAlpha_toLower hc

/-! ## Tokens -/

namespace Markup

/-- A token that opens no element, or one with a letter in front of its tag. -/
def Token.LetterFirst : Token → Prop
  | .start tag _ _ => Retrace.LetterFirst tag
  | .stop _ | .text _ | .gap | .refused _ => True

theorem isTagChar_of_isAlpha {c : Char} (h : c.isAlpha = true) : isTagChar c = true := by
  unfold isTagChar
  rw [Bool.not_eq_true']
  by_contra hne
  simp only [Bool.not_eq_false, Bool.or_eq_true, decide_eq_true_eq] at hne
  rcases hne with ((((((rfl | rfl) | rfl) | rfl) | rfl) | rfl) | rfl) | rfl <;>
    exact absurd h (by decide)

/-- A tag takes in the letter that opened it. -/
theorem letterFirst_of_startTag? {c : Char} (hc : c.isAlpha = true) {rest : List Char}
    {tag : String} {attrs : List (String × String)} {closed : Bool} {left : List Char}
    (h : startTag? (c :: rest) = some (tag, attrs, closed, left)) : LetterFirst tag := by
  have htag : tag = Text.lower (String.ofList ((c :: rest).takeWhile isTagChar)) := by
    unfold startTag? at h
    dsimp only at h
    split at h
    · exact (Prod.mk.inj (Option.some.inj h)).1.symm
    · exact (Prod.mk.inj (Option.some.inj h)).1.symm
    · simp at h
  rw [htag]
  refine LetterFirst.lower ?_
  unfold LetterFirst
  rw [String.toList_ofList, List.takeWhile_cons_of_pos (isTagChar_of_isAlpha hc)]
  simpa using hc

/-- The end of an element, or a gap in its place, opens no element. -/
theorem letterFirst_of_endTag? {cs : List Char} {token : Token} {left : List Char}
    (h : endTag? cs = some (token, left)) : token.LetterFirst := by
  unfold endTag? at h
  dsimp only at h
  split at h
  · obtain rfl := (Prod.mk.inj (Option.some.inj h)).1
    trivial
  · obtain ⟨⟨inside, rest⟩, -, h⟩ := Option.map_eq_some_iff.1 h
    dsimp only at h
    split_ifs at h
    all_goals
      obtain rfl := (Prod.mk.inj h).1
      trivial

/-- A marked section opens no element. -/
theorem letterFirst_of_section? {cs : List Char} {found : List Token} {left : List Char}
    (h : section? cs = some (found, left)) : ∀ token ∈ found, token.LetterFirst := by
  have hcontent : ∀ content, ∀ token ∈ sectionTokens content, token.LetterFirst := by
    intro content
    unfold sectionTokens
    dsimp only
    split_ifs
    · simp [Token.LetterFirst]
    · simp [Token.LetterFirst]
  have hread : ∀ double, (sectionContent? double cs).map (fun content =>
      (sectionTokens content.1, content.2)) = some (found, left) →
      ∀ token ∈ found, token.LetterFirst := by
    intro double hread
    obtain ⟨content, -, heq⟩ := Option.map_eq_some_iff.1 hread
    obtain rfl := (Prod.mk.inj heq).1
    exact hcontent content.1
  have hrefused : ∀ why, some ([Token.refused why], ([] : List Char)) = some (found, left) →
      ∀ token ∈ found, token.LetterFirst := by
    intro why heq
    obtain rfl := (Prod.mk.inj (Option.some.inj heq)).1
    simp [Token.LetterFirst]
  unfold section? at h
  dsimp only at h
  split_ifs at h
  · exact hrefused _ h
  · exact hread true h
  · exact hread false h
  · exact hrefused _ h

/-- Raw content is text and opens nothing. -/
theorem letterFirst_of_mem_startTokens {tag : String} (htag : LetterFirst tag)
    (attrs : List (String × String)) (closed : Bool) (left : List Char) :
    ∀ token ∈ (startTokens tag attrs closed left).1, token.LetterFirst := by
  unfold startTokens
  split
  · split
    · simpa [Token.LetterFirst] using htag
    · simpa [Token.LetterFirst] using htag
  · simpa [Token.LetterFirst] using htag

/-- Only the start of an element opens one, and only a letter leads to a start. -/
theorem letterFirst_of_markup? {cs : List Char} (hopens : opensMarkup cs = true)
    {found : List Token} {left : List Char} (h : markup? cs = some (found, left)) :
    ∀ token ∈ found, token.LetterFirst := by
  unfold markup? at h
  split at h
  · obtain ⟨⟨token, rest⟩, hend, h⟩ := Option.map_eq_some_iff.1 h
    obtain rfl := (Prod.mk.inj h).1
    intro other hother
    rw [List.mem_singleton.1 hother]
    exact letterFirst_of_endTag? hend
  · obtain ⟨rest, -, h⟩ := Option.map_eq_some_iff.1 h
    obtain rfl := (Prod.mk.inj h).1
    simp [Token.LetterFirst]
  · exact letterFirst_of_section? h
  · obtain ⟨rest, -, h⟩ := Option.map_eq_some_iff.1 h
    obtain rfl := (Prod.mk.inj h).1
    simp [Token.LetterFirst]
  · obtain ⟨rest, -, h⟩ := Option.map_eq_some_iff.1 h
    obtain rfl := (Prod.mk.inj h).1
    simp [Token.LetterFirst]
  · -- only a letter is left in front, and the tag begins with it
    next hslash _ _ hbang hquestion =>
    cases cs with
    | nil => simp [opensMarkup] at hopens
    | cons c rest =>
      have hc : c.isAlpha = true := by
        simp only [opensMarkup, Bool.or_eq_true, decide_eq_true_eq] at hopens
        rcases hopens with ((hc | rfl) | rfl) | rfl
        · exact hc
        · exact absurd rfl (hslash rest)
        · exact absurd rfl (hbang rest)
        · exact absurd rfl (hquestion rest)
      obtain ⟨⟨tag, attrs, closed, after⟩, hstart, h⟩ := Option.map_eq_some_iff.1 h
      have htag := letterFirst_of_startTag? hc hstart
      dsimp only at h
      split at h
      · obtain rfl := (Prod.mk.inj h).1
        simp [Token.LetterFirst]
      · have hfound := letterFirst_of_mem_startTokens htag attrs closed after
        rwa [h] at hfound

/-- **The tokens of a text.** Each that opens an element has a letter in front of its tag. -/
theorem letterFirst_of_mem_tokens (text : String) :
    ∀ token ∈ tokens text, token.LetterFirst := by
  have hupTo : ∀ fuel cs, ∀ token ∈ tokensUpTo fuel cs, token.LetterFirst := by
    intro fuel
    induction fuel with
    | zero => intro cs token htoken; simp [tokensUpTo] at htoken
    | succ fuel ih =>
      intro cs
      -- a piece that is no element goes in front of tokens that are as they should be
      have hcons : ∀ chars left, ∀ token ∈ Token.text chars :: tokensUpTo fuel left,
          token.LetterFirst := by
        intro chars left token htoken
        rcases List.mem_cons.1 htoken with rfl | htoken
        · trivial
        · exact ih left token htoken
      cases cs with
      | nil => intro token htoken; simp [tokensUpTo] at htoken
      | cons c rest =>
        unfold tokensUpTo
        split_ifs with hlt hopens hand
        · cases hmarkup : markup? rest with
          | none => exact hcons _ _
          | some read =>
            obtain ⟨found, left⟩ := read
            intro token htoken
            rcases List.mem_append.1 htoken with htoken | htoken
            · exact letterFirst_of_markup? hopens hmarkup token htoken
            · exact ih left token htoken
        · exact hcons _ _
        · split
          · simp [Token.LetterFirst]
          · exact hcons _ _
          · exact hcons _ _
        · exact hcons _ _
  exact hupTo _ _

/-! ## Building -/

namespace Builder

theorem letterFirst_flush {b : Builder} (h : b.page.LetterFirst) : b.flush.page.LetterFirst := by
  unfold flush
  split_ifs
  · exact h
  · exact h

theorem letterFirst_closeElement {b : Builder} (h : b.page.LetterFirst) (tag : String) :
    (b.closeElement tag).page.LetterFirst := by
  have hflush := letterFirst_flush h
  unfold closeElement
  dsimp only
  split
  · exact hflush
  · exact hflush

/-- The page grows by one element, with the tag of the token. -/
theorem letterFirst_openElement {b : Builder} (h : b.page.LetterFirst) {tag : String}
    (htag : LetterFirst tag) (attrs : List (String × String)) :
    (b.openElement tag attrs).page.LetterFirst := by
  have hflush := letterFirst_flush h
  intro e he
  rcases Array.mem_push.1 he with he | rfl
  · exact hflush e he
  · exact htag.lowerAscii

/-- **One token.** Only the start of an element adds a tag. -/
theorem letterFirst_add {b : Builder} (h : b.page.LetterFirst) {token : Token}
    (htoken : token.LetterFirst) : (b.add token).page.LetterFirst := by
  cases token with
  | text chars => exact h
  | gap => exact letterFirst_flush h
  | refused _ => exact h
  | stop tag =>
    unfold add endElement
    dsimp only
    split_ifs
    · exact h
    · exact letterFirst_closeElement h tag
  | start tag attrs closed =>
    have hopened := letterFirst_openElement h htoken attrs
    unfold add
    dsimp only
    split_ifs
    · exact letterFirst_closeElement hopened tag
    · exact letterFirst_closeElement hopened tag
    · exact hopened

end Builder

end Markup

/-- **Markup begins tags with a letter.** The induction is on the tokens. -/
theorem Page.letterFirst_ofMarkup (text : String) : (Page.ofMarkup text).LetterFirst := by
  have hfold : ∀ (tokens : List Markup.Token) (b : Markup.Builder),
      (∀ token ∈ tokens, token.LetterFirst) → b.page.LetterFirst →
      (tokens.foldl Markup.Builder.add b).page.LetterFirst := by
    intro tokens
    induction tokens with
    | nil => intro b _ hb; exact hb
    | cons token rest ih =>
      intro b htokens hb
      refine ih _ (fun other hother => htokens other (List.mem_cons_of_mem _ hother)) ?_
      exact Markup.Builder.letterFirst_add hb (htokens token (List.mem_cons_self ..))
  exact Markup.Builder.letterFirst_flush
    (hfold _ _ (Markup.letterFirst_of_mem_tokens text) letterFirst_empty)

/-! ## Parsers -/

/-- A parser that gives tags with a letter in front only. -/
class Markup.LawfulParser [Markup.Parser] : Prop where
  letterFirst_parse : ∀ {text : String} {page : Page},
    Markup.Parser.parse text = .ok page → page.LetterFirst

/-- What is read of markup that is not refused is its page. -/
theorem Markup.eq_ofMarkup_of_read {text : String} {page : Page} (h : read text = .ok page) :
    page = Page.ofMarkup text := by
  unfold read at h
  split at h
  · simp at h
  · exact (Except.ok.inj h).symm

instance : Markup.LawfulParser where
  letterFirst_parse h := by
    rw [Markup.eq_ofMarkup_of_read h]
    exact Page.letterFirst_ofMarkup _

/-! ## Events -/

namespace Event

/-- The marker is taken off without a change of tags, and the element that carries it is one of the
page. -/
theorem page_of_unmark {page : Page} (h : page.LetterFirst) :
    (unmark page).1.LetterFirst ∧ ∀ i ∈ (unmark page).2, i < (unmark page).1.size := by
  unfold unmark
  split
  · exact ⟨h, by simp⟩
  · next i hfind =>
    have hi := List.mem_range.1 (List.mem_of_find?_eq_some hfind)
    refine ⟨?_, ?_⟩
    · intro e he
      obtain ⟨k, hk, rfl⟩ := Array.mem_iff_getElem.1 he
      simp only [Page.mapAttrs, Array.size_modify] at hk ⊢
      rw [Array.getElem_modify]
      split
      · exact h page.elements[k] (Array.getElem_mem hk)
      · exact h page.elements[k] (Array.getElem_mem hk)
    · rintro _ ⟨⟩
      simpa [Page.size, Page.mapAttrs] using hi

variable [Markup.Parser] [Markup.LawfulParser]

/-- What a lawful parser gives is marked and unmarked without a change of tags. -/
theorem page_of_readPage {markup : Json} {page : Page} {target : Option Nat}
    (h : readPage markup = .ok (page, target)) :
    page.LetterFirst ∧ ∀ i ∈ target, i < page.size := by
  unfold readPage at h
  split at h
  · obtain ⟨rfl, rfl⟩ := Prod.mk.inj (Except.ok.inj h)
    exact ⟨Page.letterFirst_empty, by simp⟩
  · split at h
    · split at h
      · next parsed hparse =>
        have hunmark := page_of_unmark (Markup.LawfulParser.letterFirst_parse hparse)
        rw [Except.ok.inj h] at hunmark
        exact hunmark
      · simp at h
    · simp at h

/-- **Received events.** All tags of the page begin with a letter, and the element that was hit is
one of the page. -/
theorem page_of_ofPayload {payload : Json} {e : Event} (h : ofPayload payload = .ok e) :
    e.page.LetterFirst ∧ ∀ i ∈ e.target, i < e.page.size := by
  unfold ofPayload at h
  split at h
  · next fields =>
    dsimp only at h
    split at h
    · simp [bind, Except.bind] at h
    · cases hpage : readPage (member fields "html") with
      | error why => simp [hpage, bind, Except.bind] at h
      | ok read =>
        cases hindex : readWhole (member fields "tabIndex") with
        | error why => simp [hpage, hindex, bind, Except.bind] at h
        | ok tabIndex =>
          simp only [hpage, hindex, bind, Except.bind, pure, Except.pure] at h
          obtain rfl := Except.ok.inj h
          exact page_of_readPage hpage
  · simp at h

end Event

end Retrace
