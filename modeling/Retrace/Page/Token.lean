/-
Markup as a row of tokens.

Markup is cut into the starts and ends of elements, runs of text, and gaps: comments and
declarations, which hold nothing but still part the text around them. The content of script and
style elements is taken as it stands, up to the end of the element. Whatever is no markup, such
as a tag that never ends, is text.

There are two things that a parser does not take for text. A marked section must begin with one of
a few words, and a number that stands for a character must not be too long. Nothing is read from
there on.
-/
import Retrace.Page.Reference
import Retrace.Text.Blank
import Retrace.Text.Lower
import Retrace.Text.Quoted

set_option autoImplicit false

namespace Retrace.Markup

open Retrace.Text

/-- Why markup is refused. -/
inductive Refusal where
  /-- A marked section does not begin with a word. The text is what stands there instead. -/
  | unnamedSection (found : String)
  | unknownSection (keyword : String)
  /-- The number of a character has too many digits. -/
  | overlongNumber (digits : Nat)
  deriving Repr, DecidableEq

def Refusal.message : Refusal → String
  | .unnamedSection found => rejected ("expected name token at " ++ quoted found)
  | .unknownSection keyword =>
    rejected ("unknown status keyword " ++ quoted keyword ++ " in marked section")
  | .overlongNumber digits =>
    s!"Exceeds the limit ({Decimal.maxDigits} digits) for integer string conversion: "
      ++ s!"value has {digits} digits; use sys.set_int_max_str_digits() to increase the limit"
where
  rejected (why : String) : String :=
    "The markup you provided was rejected by the parser. Trying a different parser or a "
      ++ "different encoding may help.\n\nOriginal error(s) from parser:\n AssertionError: " ++ why

/-- A piece of markup. -/
inductive Token where
  /-- The start of an element; `closed` if it ends in `/>`. -/
  | start (tag : String) (attrs : List (String × String)) (closed : Bool)
  | stop (tag : String)
  | text (chars : List Char)
  | gap
  /-- The end of what is read. -/
  | refused (why : Refusal)
  deriving Repr, DecidableEq

/-! ## Tags -/

/-- May the character stand in the name of a tag? -/
def isTagChar (c : Char) : Bool :=
  !(c = '\t' || c = '\n' || c = '\r' || c = '\x0c' || c = ' ' || c = '/' || c = '>'
    || c = '\x00')

/-- Skips blanks and slashes, but not the slash of a final `/>`. -/
def skipToAttribute : List Char → List Char
  | '/' :: '>' :: rest => '/' :: '>' :: rest
  | c :: rest => if isBlank c || c = '/' then skipToAttribute rest else c :: rest
  | [] => []

/-- Splits at the first character of the given kind, which is dropped; `none` if there is none. -/
def splitAt? (c : Char) (cs : List Char) : Option (List Char × List Char) :=
  match cs.dropWhile (· != c) with
  | [] => none
  | _ :: rest => some (cs.takeWhile (· != c), rest)

/-- The value of an attribute, from behind its `=`: between quotes, or up to a blank. -/
def attributeValue? (cs : List Char) : Option (List Char × List Char) :=
  match cs with
  | '"' :: rest => splitAt? '"' rest
  | '\'' :: rest => splitAt? '\'' rest
  | _ =>
    let inValue (c : Char) : Bool := !(isBlank c || c = '>')
    some (cs.takeWhile inValue, cs.dropWhile inValue)

/-- One attribute at the front of the text: its name, its value with the references replaced, and
what follows. An attribute without a value has the empty one. -/
def attribute? (cs : List Char) : Option ((String × String) × List Char) :=
  match cs with
  | [] => none
  | first :: rest =>
    if isBlank first || first = '/' || first = '>' then none
    else
      let inName (c : Char) : Bool := !(isBlank c || c = '/' || c = '=' || c = '>')
      let name := lower (String.ofList (first :: rest.takeWhile inName))
      let left := rest.dropWhile inName
      match left.dropWhile isBlank with
      | '=' :: more =>
        -- any number of equals signs in a row counts as one
        match attributeValue? ((more.dropWhile (· = '=')).dropWhile isBlank) with
        | some (value, left) => some ((name, String.ofList (resolve value)), left)
        | none => some ((name, ""), left)
      | _ => some ((name, ""), left)

/-- The attributes at the front of the text, at most `fuel` of them, and what follows. -/
def attributes : Nat → List Char → List (String × String) × List Char
  | 0, cs => ([], cs)
  | fuel + 1, cs =>
    match attribute? cs with
    | none => ([], cs)
    | some (a, left) =>
      let (more, left) := attributes fuel (skipToAttribute left)
      (a :: more, left)

/-- The attributes with each name once: a name that comes again keeps its first place and takes
the last value. -/
def distinct (attrs : List (String × String)) : List (String × String) :=
  attrs.foldl (fun acc (name, value) =>
    if acc.any (·.1 == name) then acc.map fun a => if a.1 == name then (name, value) else a
    else acc ++ [(name, value)]) []

/-- The start of an element, from behind its `<`. -/
def startTag? (cs : List Char) : Option (String × List (String × String) × Bool × List Char) :=
  let tag := lower (String.ofList (cs.takeWhile isTagChar))
  let (attrs, left) := attributes cs.length (skipToAttribute (cs.dropWhile isTagChar))
  match left with
  | '>' :: rest => some (tag, distinct attrs, false, rest)
  | '/' :: '>' :: rest => some (tag, distinct attrs, true, rest)
  | _ => none

/-- May the character stand in the name of a plain end tag? -/
def isPlainTagChar (c : Char) : Bool :=
  c.isAlphanum || c = '-' || c = '.' || c = ':' || c = '_'

/-- The end of an element, from behind its `</`. Whatever stands between the name and the `>` is
skipped. Without a name it is a gap. -/
def endTag? (cs : List Char) : Option (Token × List Char) :=
  let inner := cs.dropWhile isBlank
  -- the plain form is a name and blanks; all others are skipped up to the next `>`
  match (inner.dropWhile isPlainTagChar).dropWhile isBlank, inner.head?.any Char.isAlpha with
  | '>' :: rest, true => some (.stop (lower (String.ofList (inner.takeWhile isPlainTagChar))), rest)
  | _, _ =>
    (splitAt? '>' cs).map fun (inside, rest) =>
      if cs.head?.any Char.isAlpha then
        (.stop (lower (String.ofList (cs.takeWhile isTagChar))), rest)
      else if inside.isEmpty then (.text [], rest)
      else (.gap, rest)

/-! ## Comments and raw content -/

/-- What follows the end of a comment. -/
def afterComment? : List Char → Option (List Char)
  | [] => none
  | c :: rest =>
    match c, rest with
    | '-', '-' :: more =>
      match more.dropWhile isBlank with
      | '>' :: left => some left
      | _ => afterComment? rest
    | _, _ => afterComment? rest

/-- Elements whose content is taken as it stands. -/
def rawTags : List String := ["script", "style"]

/-- Does the end of the raw element stand at the front of the text? -/
def startsWithEnd (tag : String) : List Char → Bool
  | '<' :: '/' :: rest =>
    match tag.toList.isPrefixOf? ((rest.dropWhile isBlank).map Char.toLower) with
    | some left => (left.dropWhile isBlank).head? == some '>'
    | none => false
  | _ => false

/-- The content of a raw element, and the text from its end on; `none` if it never ends. -/
def rawContent? (tag : String) : List Char → Option (List Char × List Char)
  | [] => none
  | c :: rest =>
    if startsWithEnd tag (c :: rest) then some ([], c :: rest)
    else (rawContent? tag rest).map fun (content, left) => (c :: content, left)

/-! ## Marked sections -/

/-- The words in front of sections that end with two closing brackets. -/
def sectionWords : List String := ["temp", "cdata", "ignore", "include", "rcdata"]

/-- The words in front of sections that end with one closing bracket. -/
def conditionWords : List String := ["if", "else", "endif"]

/-- What follows the end of a section with one more closing bracket if `double`, if it ends here. -/
def afterSection? (double : Bool) (cs : List Char) : Option (List Char) :=
  match cs with
  | ']' :: rest =>
    match double, rest.dropWhile isBlank with
    | false, '>' :: left => some left
    | true, ']' :: more =>
      match more.dropWhile isBlank with
      | '>' :: left => some left
      | _ => none
    | _, _ => none
  | _ => none

/-- The content of a section and what follows its end. -/
def sectionContent? (double : Bool) : List Char → Option (List Char × List Char)
  | [] => none
  | c :: rest =>
    match afterSection? double (c :: rest) with
    | some left => some ([], left)
    | none => (sectionContent? double rest).map fun (content, left) => (c :: content, left)

/-- The tokens of a section's content. Character data is text by itself, and all else is a gap. -/
def sectionTokens (content : List Char) : List Token :=
  let opening := "CDATA["
  if (content.take opening.length).map Char.toUpper = opening.toList then
    [.gap, .text (content.drop opening.length), .gap]
  else [.gap]

/-- A marked section, from behind its `<![`. It is no markup if the text ends too early. -/
def section? (cs : List Char) : Option (List Token × List Char) :=
  let inWord (c : Char) : Bool := c.isAlphanum || c = '-' || c = '_' || c = '.'
  let word := Text.lowerAscii (String.ofList (cs.takeWhile inWord))
  let behind := (cs.dropWhile inWord).dropWhile isBlank
  let content? (double : Bool) : Option (List Token × List Char) :=
    (sectionContent? double cs).map fun (content, left) => (sectionTokens content, left)
  let refused (why : Refusal) : Option (List Token × List Char) := some ([.refused why], [])
  if cs.isEmpty then none
  else if !cs.head?.any Char.isAlpha then
    refused (.unnamedSection (String.ofList (("<![".toList ++ cs).take 20)))
  else if behind.isEmpty then none
  else if sectionWords.contains word then content? true
  else if conditionWords.contains word then content? false
  else refused (.unknownSection (String.ofList (cs.take (cs.length - behind.length))))

/-! ## Tokens -/

/-- The text that stands for markup which never ends: up to the next `>`, or else before the next
`<`. `cs` follows the `<` that was to open it. -/
def brokenMarkup (cs : List Char) : List Char × List Char :=
  match splitAt? '>' cs with
  | some (inside, rest) => ('<' :: inside ++ ['>'], rest)
  | none => match splitAt? '<' cs with
    | some (inside, rest) => ('<' :: inside, '<' :: rest)
    | none => (['<'], cs)

/-- The number of digits of the first overlong number that a reference in the text has. -/
def overlongWithin? : List Char → Option Nat
  | [] => none
  | c :: rest => (if c = '&' then overlongNumber? rest else none).or (overlongWithin? rest)

/-- The start of an element, with its content if that is raw, and what follows. -/
def startTokens (tag : String) (attrs : List (String × String)) (closed : Bool)
    (left : List Char) : List Token × List Char :=
  if rawTags.contains tag && !closed then
    match rawContent? tag left with
    | some (content, left) => ([.start tag attrs closed, .text content], left)
    -- without an end the rest of the text is lost
    | none => ([.start tag attrs closed], [])
  else ([.start tag attrs closed], left)

/-- What begins with `<`, from behind it. -/
def markup? (cs : List Char) : Option (List Token × List Char) :=
  match cs with
  | '/' :: rest => (endTag? rest).map fun (token, left) => ([token], left)
  | '!' :: '-' :: '-' :: rest => (afterComment? rest).map fun left => ([.gap], left)
  | '!' :: '[' :: rest => section? rest
  | '!' :: rest | '?' :: rest => (splitAt? '>' rest).map fun (_, left) => ([.gap], left)
  | _ => (startTag? cs).map fun (tag, attrs, closed, left) =>
      match overlongWithin? (cs.take (cs.length - left.length)) with
      | some digits => ([.refused (.overlongNumber digits)], [])
      | none => startTokens tag attrs closed left

/-- Does something begin with a `<` before these characters? -/
def opensMarkup (cs : List Char) : Bool :=
  match cs with
  | c :: _ => c.isAlpha || c = '/' || c = '!' || c = '?'
  | [] => false

def isPlain (c : Char) : Bool := c != '<' && c != '&'

/-- The tokens of a text, at most `fuel` steps of it. -/
def tokensUpTo : Nat → List Char → List Token
  | 0, _ => []
  | _, [] => []
  | fuel + 1, c :: rest =>
    if c = '<' then
      if opensMarkup rest then
        match markup? rest with
        | some (found, left) => found ++ tokensUpTo fuel left
        | none =>
          let (chars, left) := brokenMarkup rest
          .text chars :: tokensUpTo fuel left
      -- a `<` before anything else is text by itself
      else .text ['<'] :: tokensUpTo fuel rest
    else if c = '&' then
      match textReference? rest, overlongNumber? rest with
      | some _, some digits => [.refused (.overlongNumber digits)]
      | some (chars, left), none => .text chars :: tokensUpTo fuel left
      | none, _ => .text ['&'] :: tokensUpTo fuel rest
    else .text (c :: rest.takeWhile isPlain) :: tokensUpTo fuel (rest.dropWhile isPlain)

/-- The tokens of a text. Every step uses up a character. -/
def tokens (text : String) : List Token := tokensUpTo text.length text.toList

end Retrace.Markup
