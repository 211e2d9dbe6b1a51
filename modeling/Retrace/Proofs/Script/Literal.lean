/-
Literals are read back.

A literal is written character by character, and five characters are escaped. The same comes about
by five replacements in the whole text, one after the other, since the backslash is replaced first
and each later replacement looks for a character that none of the former ones writes
(`escapeInTurn_eq_escape`).

A reader who takes a backslash along with the character behind it gets the text back (`decode`), and
on the way never leaves the literal: none of its body is read as code, so a double quote in it can
only stand behind the backslash of an escape (`through_of_codeOf_eq_nil`).
-/
import Retrace.Proofs.Script.Reading

set_option autoImplicit false

namespace Retrace.Script

/-! ## Escaping in turn -/

/-- The text with `replacement` in place of every `c`. -/
def replaced (c : Char) (replacement cs : List Char) : List Char :=
  cs.flatMap fun x => if x = c then replacement else [x]

/-- Five replacements, one after the other. -/
def escapeInTurn (cs : List Char) : List Char :=
  replaced '\t' ['\\', 't'] (replaced '\r' ['\\', 'r'] (replaced '\n' ['\\', 'n']
    (replaced '"' ['\\', '"'] (replaced '\\' ['\\', '\\'] cs))))

theorem replaced_append (c : Char) (replacement cs ds : List Char) :
    replaced c replacement (cs ++ ds) = replaced c replacement cs ++ replaced c replacement ds :=
  List.flatMap_append

/-- A single character goes through the five replacements as it is escaped at once. -/
theorem escapeInTurn_singleton (c : Char) : escapeInTurn [c] = escapeChar c := by
  by_cases hbackslash : c = '\\'
  · subst hbackslash
    rfl
  by_cases hquote : c = '"'
  · subst hquote
    rfl
  by_cases hfeed : c = '\n'
  · subst hfeed
    rfl
  by_cases hreturn : c = '\r'
  · subst hreturn
    rfl
  by_cases htab : c = '\t'
  · subst htab
    rfl
  -- any other character is met by none of them
  have hself : escapeChar c = [c] := by
    unfold escapeChar
    split <;> first | contradiction | rfl
  rw [hself]
  simp [escapeInTurn, replaced, hbackslash, hquote, hfeed, hreturn, htab]

/-- **One after the other or at once.** The induction is on the text: each replacement goes over a
text character by character, and so do all five. -/
theorem escapeInTurn_eq_escape (cs : List Char) : escapeInTurn cs = escape cs := by
  induction cs with
  | nil => rfl
  | cons c cs ih =>
    have hsplit : escapeInTurn ([c] ++ cs) = escapeInTurn [c] ++ escapeInTurn cs := by
      simp only [escapeInTurn, replaced_append]
    have hescape : escape (c :: cs) = escapeChar c ++ escape cs := rfl
    rw [hescape, ← escapeInTurn_singleton, ← ih]
    exact hsplit

/-! ## Decoding -/

/-- The character that stands in a text where its literal has a backslash and `c`. -/
def unescape? (c : Char) : Option Char :=
  match c with
  | '\\' => some '\\'
  | '"' => some '"'
  | 'n' => some '\n'
  | 'r' => some '\r'
  | 't' => some '\t'
  | _ => none

/-- The text of the body of a literal, read from its front. There is none if a backslash stands at
the end or in front of a character with which it makes no escape. -/
def decode : List Char → Option (List Char)
  | [] => some []
  | ['\\'] => none
  | '\\' :: c :: rest => (unescape? c).bind fun d => (decode rest).map (d :: ·)
  | c :: rest => (decode rest).map (c :: ·)

theorem decode_cons {c : Char} (h : c ≠ '\\') (rest : List Char) :
    decode (c :: rest) = (decode rest).map (c :: ·) := by
  rw [decode]
  · exact fun hbackslash _ => h hbackslash
  · exact fun _ _ hbackslash _ => h hbackslash

theorem decode_escaped {c d : Char} (h : unescape? c = some d) (rest : List Char) :
    decode ('\\' :: c :: rest) = (decode rest).map (d :: ·) := by
  rw [decode, h, Option.bind_some]

/-- An escaped character is read back, and the reader goes on behind it. -/
theorem decode_escapeChar_append (c : Char) (rest : List Char) :
    decode (escapeChar c ++ rest) = (decode rest).map (c :: ·) := by
  unfold escapeChar
  split
  case h_6 hbackslash _ _ _ _ => exact decode_cons hbackslash rest
  all_goals exact decode_escaped rfl rest

/-- **Escaped text is read back.** -/
theorem decode_escape (cs : List Char) : decode (escape cs) = some cs := by
  induction cs with
  | nil => rfl
  | cons c cs ih =>
    have hescape : escape (c :: cs) = escapeChar c ++ escape cs := rfl
    rw [hescape, decode_escapeChar_append, ih, Option.map_some]

/-- A backslash, a quote and a line break next to each other. -/
example : decode (escape ['\\', '"', '\\', '\n', 'n']) = some ['\\', '"', '\\', '\n', 'n'] := by
  decide

/-! ## Staying in the literal -/

/-- A literal is left only with a character that is read as code. -/
theorem through_of_codeOf_eq_nil {r : Reading} (hr : r = .literal ∨ r = .escaped) {cs : List Char}
    (h : r.codeOf cs = []) : r.through cs = .literal ∨ r.through cs = .escaped := by
  induction cs generalizing r with
  | nil => exact hr
  | cons c cs ih =>
    rw [Reading.codeOf] at h
    split at h
    · exact absurd h (List.cons_ne_nil _ _)
    · next hcode =>
      refine ih ?_ h
      rcases hr with rfl | rfl
      · -- the one character that would end the literal is a part of the code
        have hquote : c ≠ '"' := by simpa [Reading.isCode] using hcode
        by_cases hbackslash : c = '\\'
        · subst hbackslash
          exact .inr rfl
        · left
          unfold Reading.next
          split <;> first | rfl | contradiction
      · exact .inl rfl

/-- Every double quote in an escaped text stands behind the backslash of an escape. -/
theorem through_of_escape_eq {cs before after : List Char}
    (h : escape cs = before ++ '"' :: after) :
    Reading.literal.through before = .escaped := by
  have hcode := (read_escape cs).2
  rw [h, Reading.codeOf_append, List.append_eq_nil_iff] at hcode
  obtain ⟨hbefore, hquote⟩ := hcode
  rcases through_of_codeOf_eq_nil (.inl rfl) hbefore with hliteral | hescaped
  · -- in a literal the quote would be read as code
    rw [hliteral] at hquote
    exact absurd hquote (List.cons_ne_nil _ _)
  · exact hescaped

/-! ## Literals -/

/-- The body of the literal of a text. -/
structure IsBody (text : String) (body : List Char) : Prop where
  quote_eq : quote text = String.ofList ('"' :: body ++ ['"'])
  inTurn : body = escapeInTurn text.toList
  flat : '\n' ∉ body ∧ '\r' ∉ body ∧ '\t' ∉ body
  /-- A double quote in it stands behind the backslash of an escape. -/
  quotes : ∀ before after, body = before ++ '"' :: after →
    Reading.literal.through before = .escaped
  /-- It does not end within an escape. -/
  ended : Reading.literal.through body = .literal
  decoded : decode body = some text.toList

theorem isBody_escape (text : String) : IsBody text (escape text.toList) where
  quote_eq := rfl
  inTurn := (escapeInTurn_eq_escape _).symm
  flat := by
    refine ⟨?_, ?_, ?_⟩
    · intro hfeed
      exact (not_mem_escape hfeed).1 rfl
    · intro hreturn
      exact (not_mem_escape hreturn).2.1 rfl
    · intro htab
      exact (not_mem_escape htab).2.2 rfl
  quotes _ _ h := through_of_escape_eq h
  ended := (read_escape _).1
  decoded := decode_escape _

/-- **Literals are read back.** The literal of a text stands between double quotes on one line, no
character of its body ends it, and what is read of the body is the text. So no two texts have the
same literal. -/
theorem decode_quote : (∀ text, ∃ body, IsBody text body) ∧ Function.Injective quote := by
  refine ⟨fun text => ⟨_, isBody_escape text⟩, ?_⟩
  intro s t h
  have hbody : escape s.toList = escape t.toList := by
    have hlist := String.ofList_injective h
    simpa using hlist
  have hdecode : some s.toList = some t.toList := by
    rw [← decode_escape s.toList, hbody, decode_escape]
  exact String.toList_inj.1 (Option.some.inj hdecode)

end Retrace.Script
