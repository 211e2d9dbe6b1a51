/-
What stands in the brackets of a selector.

Square brackets hold the test of an attribute. Round brackets follow the name of a pseudo-class,
and what they hold depends on the name: values, a direction, places in a row, or a selector, which
is not read here.

A name may have that of a language in front of it, with a bar between the two. Pages name no such
languages, so a tag behind any of them is not found; the star stands for them all. For attributes
they do not matter.
-/
import Retrace.Selector.Basic
import Retrace.Selector.Ident

set_option autoImplicit false

namespace Retrace.Selector

/-! ## Names of tags and attributes -/

/-- A name or the star that stands for any, and what follows. -/
def readWild? : List Char → Option (String × List Char)
  | '*' :: rest => some ("*", rest)
  | cs => readName? cs

/-- A name that `read` reads, with the one in front of the bar if there is a bar. The name in front
may be missing. -/
def readPrefixed? (read : List Char → Option (String × List Char)) (cs : List Char) :
    Option (Option String × String × List Char) :=
  let first := readWild? cs
  let behind : Option (Option String × String × List Char) :=
    match first.elim cs Prod.snd with
    | '|' :: rest =>
      (read rest).map fun (name, left) => (some (first.elim "" Prod.fst), name, left)
    | _ => none
  behind.or ((read cs).map fun (name, left) => (none, name, left))

/-- The tag at the front of the text, in lower case, and what follows. -/
def readTag? (cs : List Char) : Option (Condition × List Char) :=
  (readPrefixed? readWild? cs).map fun (language, name, left) =>
    if language.all (· == "*") then
      (if name = "*" then .any else .tag (Text.lowerAscii name), left)
    else (.never, left)

/-! ## Attributes -/

def readComparison? : List Char → Option (Comparison × List Char)
  | '=' :: rest => some (.equal, rest)
  | '!' :: '=' :: rest => some (.different, rest)
  | '^' :: '=' :: rest => some (.beginning, rest)
  | '$' :: '=' :: rest => some (.ending, rest)
  | '*' :: '=' :: rest => some (.part, rest)
  | '~' :: '=' :: rest => some (.word, rest)
  | '|' :: '=' :: rest => some (.range, rest)
  | _ => none

/-- The letter that says whether the case of letters counts, if it is there, and what follows. -/
def readCaseFlag : List Char → Option Bool × List Char
  | c :: rest =>
    if c = 'i' || c = 'I' then (some true, rest)
    else if c = 's' || c = 'S' then (some false, rest)
    else (none, c :: rest)
  | [] => (none, [])

/-- The test of an attribute, from behind its bracket, and what follows. Types are compared in any
case of their letters, unless it is said otherwise. -/
def readAttribute? (cs : List Char) : Option (Condition × List Char) := do
  let (_, name, left) ← readPrefixed? readName? (cs.dropWhile isSpace)
  let name := Text.lowerAscii name
  match left.dropWhile isSpace with
  | ']' :: rest => return (.attribute name none, rest)
  | left =>
    let (comparison, left) ← readComparison? left
    let (text, left) ← readValue? (left.dropWhile isSpace)
    let (flag, left) := readCaseFlag (left.dropWhile isSpace)
    match left.dropWhile isSpace with
    | ']' :: rest =>
      let anyCase := flag.getD (name == "type")
      return (.attribute name (some { comparison, text, anyCase }), rest)
    | _ => none

/-! ## Arguments -/

/-- What follows the closing bracket, if nothing else is left in front of it. -/
def closed? (cs : List Char) : Option (List Char) :=
  match cs.dropWhile isSpace with
  | ')' :: rest => some rest
  | _ => none

/-- Values with commas between them up to the closing bracket, at most `fuel` of them, and what
follows it. -/
def readValues? : Nat → List Char → Option (List String × List Char)
  | 0, _ => none
  | fuel + 1, cs => do
    let (value, left) ← readValue? cs
    match left.dropWhile isSpace with
    | ')' :: rest => return ([value], rest)
    | ',' :: rest =>
      let (more, left) ← readValues? fuel (rest.dropWhile isSpace)
      return (value :: more, left)
    | _ => none

def readSign? : List Char → Option (Int × List Char)
  | '+' :: rest => some (1, rest)
  | '-' :: rest => some (-1, rest)
  | _ => none

def readNumber? (cs : List Char) : Option (Int × List Char) :=
  match cs.takeWhile Char.isDigit with
  | [] => none
  | digits => some (Decimal.plainValue digits, cs.dropWhile Char.isDigit)

/-- A number with its sign, which blanks may follow. -/
def readOffset? (cs : List Char) : Option (Int × List Char) := do
  let (sign, left) ← readSign? (cs.dropWhile isSpace)
  let (n, left) ← readNumber? (left.dropWhile isSpace)
  return (sign * n, left)

/-- Does the text begin with the word, in any case of its letters? If so, what follows it? -/
def afterWord? (word : String) (cs : List Char) : Option (List Char) :=
  if (cs.take word.length).map Char.toLower = word.toList then some (cs.drop word.length) else none

/-- The places at the front of the text, such as `3` or `2n+1`, and what follows. -/
def readSteps? (cs : List Char) : Option (Steps × List Char) :=
  match afterWord? "even" cs, afterWord? "odd" cs with
  | some left, _ => some (⟨2, 0⟩, left)
  | none, some left => some (⟨2, 1⟩, left)
  | none, none =>
    let (sign, unsigned) := (readSign? cs).getD (1, cs)
    let number := readNumber? unsigned
    match number, afterWord? "n" (number.elim unsigned Prod.snd) with
    | _, some left =>
      let (start, left) := (readOffset? left).getD (0, left)
      some (⟨sign * number.elim 1 Prod.fst, start⟩, left)
    | some (n, left), none => some (⟨0, sign * n⟩, left)
    | none, none => none

/-- The word that leads from places to a selector, with the blanks around it. -/
def afterOf? (cs : List Char) : Option (List Char) := do
  let rest ← if (cs.head?.any isSpace) then afterWord? "of" (cs.dropWhile isSpace) else none
  if rest.head?.any isSpace then some (rest.dropWhile isSpace) else none

/-- Places among the siblings that a selector matches, up to where the selector begins. -/
def readPlacesOf? (name : String) (cs : List Char) :
    Option ((Condition → Condition) × List Char) := do
  let (steps, left) ← readSteps? cs
  let left ← afterOf? left
  match name with
  | "nth-child" => return (.placed steps false, left)
  | "nth-last-child" => return (.placed steps true, left)
  | _ => none

/-- What the pseudo-class of that name asks for by its argument, from behind the bracket, unless
the argument is a selector. -/
def readArgument? (name : String) (cs : List Char) : Option (Condition × List Char) :=
  let values (condition : List String → Condition) : Option (Condition × List Char) :=
    (readValues? cs.length cs).map fun (texts, left) => (condition texts, left)
  let places (condition : Steps → Condition) : Option (Condition × List Char) :=
    (readSteps? cs).bind fun (steps, left) => (closed? left).map (condition steps, ·)
  match name with
  | "contains" | "-soup-contains" => values (.withText · false)
  | "-soup-contains-own" => values (.withText · true)
  | "lang" => values .language
  | "dir" => do
    let d ← Direction.ofName? (Text.lowerAscii (String.ofList (cs.takeWhile Char.isAlpha)))
    (closed? (cs.dropWhile Char.isAlpha)).map (.direction d, ·)
  | "nth-child" => places (.placed · false .any)
  | "nth-last-child" => places (.placed · true .any)
  | "nth-of-type" => places (.placedOfType · false)
  | "nth-last-of-type" => places (.placedOfType · true)
  | _ => none

end Retrace.Selector
