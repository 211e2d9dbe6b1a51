/-
Reading a selector.

A compound is a tag, then classes, ids, tests of attributes, positions and pseudo-classes in any
order; compounds are joined by blanks or by one of `>`, `+` and `~`, and commas part alternatives.
The argument of a pseudo-class may be such a list again. What stands in place of one of these is a
fault, which is told with its position. So a tag with a point, a colon or a plus in it, which a
page may define, reads as something else than that tag, or as no selector at all.

Reading a list in brackets is handed down to the reader of a compound, so all of them but the
outermost one are read by the same function (`readList`), which goes by how deep they are nested.
-/
import Retrace.Selector.Argument

set_option autoImplicit false

namespace Retrace.Selector

/-! ## Faults -/

/-- What can be wrong with a selector. -/
inductive Fault where
  /-- A compound is missing. -/
  | noCompound
  /-- There is nothing in front of a combinator or a comma. -/
  | nothingBefore (joint : Char)
  /-- A tag stands behind other parts of its compound. -/
  | tagNotFirst
  | malformedClass
  | malformedId
  | malformedPseudoClass
  | malformedAttribute
  | invalidCharacter (c : Char)
  | unknownPseudoClass (name : String)
  /-- The pseudo-class has no argument though it needs one, or has another than it takes. -/
  | misusedPseudoClass (name : String)
  /-- A pseudo-class of the user's own, by its hyphens, that nobody has defined. -/
  | undefinedPseudoClass (name : String)
  | unclosedPseudoClass
  | unmatchedClose
  /-- A part of an element, which cannot be selected. -/
  | pseudoElement
  /-- A rule and not a selector. -/
  | atRule
  deriving Repr, DecidableEq

/-- The wording of a fault at a position. -/
def Fault.message (position : Nat) : Fault → String
  | .noCompound => s!"Expected a selector at position {position}"
  | .nothingBefore joint =>
    "The combinator '" ++ joint.toString ++ s!"' at position {position}, "
      ++ "must have a selector before it"
  | .tagNotFirst => s!"Tag name found at position {position} instead of at the start"
  | .malformedClass => s!"Malformed class selector at position {position}"
  | .malformedId => s!"Malformed id selector at position {position}"
  | .malformedPseudoClass => s!"Malformed pseudo-class selector at position {position}"
  | .malformedAttribute => s!"Malformed attribute selector at position {position}"
  | .invalidCharacter c => s!"Invalid character {Text.quoted c.toString} position {position}"
  | .unknownPseudoClass name =>
    "':" ++ name ++ "' was detected as a pseudo-class and is either unsupported or invalid. "
      ++ "If the syntax was not intended to be recognized as a pseudo-class, please escape "
      ++ "the colon."
  | .misusedPseudoClass name => "Invalid syntax for pseudo class ':" ++ name ++ "'"
  | .undefinedPseudoClass name =>
    "Undefined custom selector ':" ++ name ++ s!"' found at position {position}"
  | .unclosedPseudoClass => s!"Unclosed pseudo-class at position {position}"
  | .unmatchedClose => s!"Unmatched pseudo-class close at position {position}"
  | .pseudoElement => s!"Pseudo-element found at position {position}"
  | .atRule => s!"At-rules found at position {position}"

/-- Why a text is no selector: a fault and the number of characters before it. -/
structure SyntaxError where
  selector : String
  position : Nat
  fault : Fault
  deriving Repr, DecidableEq

/-- The text with a mark under the character at a position. -/
def underline (text : String) (position : Nat) : String :=
  "\n  line 1:\n" ++ text ++ "\n" ++ "".pushn ' ' position ++ "^"

/-- The wording of an error. The place is shown as well, unless the text is one that is only not
supported. -/
def SyntaxError.message (e : SyntaxError) : String :=
  e.fault.message e.position
    ++ if e.fault = .pseudoElement ∨ e.fault = .atRule then ""
      else underline e.selector e.position

/-- A fault and the text from where it lies on. -/
abbrev Stop := Fault × List Char

/-! ## Pseudo-classes -/

/-- How a list in brackets is read. -/
inductive ListKind where
  /-- Every alternative must be there. -/
  | strict
  /-- A missing alternative matches nothing. -/
  | forgiving
  /-- What is looked for is linked to the element, and the link may stand in front. -/
  | relative
  deriving Repr, DecidableEq

/-- The pseudo-classes that take a list, and what they make of its condition. Some of them hold of
nothing, whatever the list is. -/
def takesList? (name : String) : Option (ListKind × (Condition → Condition)) :=
  match name with
  | "not" => some (.strict, .not)
  | "is" | "where" => some (.forgiving, id)
  | "has" => some (.relative, id)
  | "matches" | "contains" | "-soup-contains" | "-soup-contains-own" => some (.strict, id)
  | "current" | "host" | "host-context" => some (.strict, fun _ => .never)
  | _ => none

/-- The reader of a list in brackets, from behind the opening one up to behind the closing one. -/
abbrev ListReader := ListKind → List Char → Except Stop (Condition × List Char)

def positionOpening : List Char := ":nth-of-type(".toList

/-- A position at the front of the text. -/
def readPosition? (cs : List Char) : Option (Nat × List Char) :=
  (positionOpening.isPrefixOf? cs).bind fun rest =>
    match rest.takeWhile Char.isDigit, rest.dropWhile Char.isDigit with
    | d :: ds, ')' :: left => some (Decimal.plainValue (d :: ds), left)
    | _, _ => none

/-- The fault of a pseudo-class that cannot be read as it stands. -/
def nameFault (name : String) : Fault :=
  if PseudoClass.argumentNames.contains name || (PseudoClass.ofName? name).isSome then
    .misusedPseudoClass name
  else .unknownPseudoClass name

/-- A pseudo-class with an argument, from behind the bracket. `cs` begins with the colon. -/
def readWithArgument (nested : ListReader) (cs : List Char) (name : String) (inside : List Char) :
    Except Stop (Condition × List Char) :=
  match readArgument? name inside, readPlacesOf? name inside, takesList? name with
  | some found, _, _ => .ok found
  | none, some (placed, left), _ => do
    let (c, left) ← nested .strict left
    return (placed c, left)
  | none, none, some (kind, condition) => do
    let (c, left) ← nested kind inside
    return (condition c, left)
  | none, none, none => .error (nameFault name, cs)

def readPseudoClass (nested : ListReader) (cs : List Char) :
    Except Stop (Condition × List Char) :=
  let rest := cs.drop 1
  match readName? rest with
  | some (name, left) =>
    let name := Text.lowerAscii name
    if ['-', '-'].isPrefixOf rest then .error (.undefinedPseudoClass name, left)
    else match left with
      | '(' :: inside => readWithArgument nested cs name (inside.dropWhile isSpace)
      | _ => match PseudoClass.ofName? name with
        | some p => .ok (.state p, left)
        | none => .error (nameFault name, cs)
  | none =>
    match rest with
    | ':' :: part =>
      if (readName? part).isSome then .error (.pseudoElement, cs)
      else .error (.malformedPseudoClass, cs)
    | _ => .error (.malformedPseudoClass, cs)

/-! ## Compounds -/

/-- May the character stand behind a compound? -/
def endsHere (c : Char) : Bool := isSpace c || [',', '+', '>', '~', ')'].contains c

/-- The fault of a text that does not go on with a part of a compound. -/
def strayFault (c : Char) (rest : List Char) : Fault :=
  if (readTag? (c :: rest)).isSome then .tagNotFirst
  else if c = '@' && rest.head?.any (·.toLower == 'p') && (readName? (rest.drop 1)).isSome then
    .atRule
  else .invalidCharacter c

/-- One condition behind the tag of a compound, if the compound goes on. -/
def readCondition (nested : ListReader) (cs : List Char) :
    Except Stop (Option (Condition × List Char)) :=
  match cs with
  | [] => .ok none
  | '.' :: rest =>
    match readName? rest with
    | some (name, left) => .ok (some (.hasClass name, left))
    | none => .error (.malformedClass, cs)
  | '#' :: rest =>
    match readName? rest with
    | some (name, left) => .ok (some (.id name, left))
    | none => .error (.malformedId, cs)
  | ':' :: _ =>
    match readPosition? cs with
    | some (n, left) => .ok (some (.position n, left))
    | none => some <$> readPseudoClass nested cs
  | '[' :: rest =>
    match readAttribute? rest with
    | some found => .ok (some found)
    | none => .error (.malformedAttribute, cs)
  | '&' :: rest => .ok (some (.state .scope, rest))
  | c :: rest => if endsHere c then .ok none else .error (strayFault c rest, cs)

/-- The conditions at the front of the text, at most `fuel` of them, and what follows. -/
def readConditions (nested : ListReader) :
    Nat → List Char → Except Stop (List Condition × List Char)
  | 0, cs => .ok ([], cs)
  | fuel + 1, cs => do
    match ← readCondition nested cs with
    | none => return ([], cs)
    | some (c, left) =>
      let (more, left) ← readConditions nested fuel left
      return (c :: more, left)

/-- The fault of a text in which a compound is missing at the front. -/
def missingFault : List Char → Fault
  | c :: _ => if [',', '+', '>', '~'].contains c then .nothingBefore c else .noCompound
  | [] => .noCompound

/-- The compound at the front of the text and what follows. -/
def readCompound (nested : ListReader) (cs : List Char) :
    Except Stop (List Condition × List Char) := do
  let (tag, left) := match readTag? cs with
    | some (c, left) => ([c], left)
    | none => ([], cs)
  let (more, left) ← readConditions nested left.length left
  match tag ++ more with
  | [] => throw (missingFault cs, cs)
  | conditions => return (conditions, left)

/-! ## Rows of compounds -/

/-- The combinator at the front of the text, if there is one, and what follows. -/
def readJoint? (cs : List Char) : Option (Link × List Char) :=
  match cs.dropWhile isSpace with
  | '>' :: rest => some (.child, rest.dropWhile isSpace)
  | '+' :: rest => some (.next, rest.dropWhile isSpace)
  | '~' :: rest => some (.later, rest.dropWhile isSpace)
  | rest => if rest.length < cs.length then some (.descendant, rest) else none

/-- Is an alternative at its end here, up to blanks? -/
def endsAlternative (cs : List Char) : Bool :=
  match cs.dropWhile isSpace with
  | [] => true
  | c :: _ => c = ',' || c = ')'

/-- Reads the further compounds of a selector, at most `fuel` of them, up to the end of the
alternative. -/
def readRest (nested : ListReader) (s : Selector) :
    Nat → List Char → Except Stop (Selector × List Char)
  | 0, cs => .error (.noCompound, cs)
  | fuel + 1, cs =>
    if endsAlternative cs then .ok (s, cs.dropWhile isSpace)
    else match readJoint? cs with
      | none => .error (.noCompound, cs)
      | some (link, left) => do
        let (conditions, left) ← readCompound nested left
        readRest nested (s.link conditions link) fuel left

/-- The selector at the front of the text, up to the end of the alternative. -/
def readSelector (nested : ListReader) (cs : List Char) : Except Stop (Selector × List Char) := do
  let (conditions, left) ← readCompound nested cs
  readRest nested (.one conditions) (left.length + 1) left

/-- What is looked for from an element on, which is linked to it, and from there on to others. At
most `fuel` compounds are read. -/
def readLinked (nested : ListReader) : Nat → Link → List Char → Except Stop (Condition × List Char)
  | 0, _, cs => .error (.noCompound, cs)
  | fuel + 1, link, cs => do
    let (conditions, left) ← readCompound nested cs
    if endsAlternative left then
      return (.links link (.all conditions), left.dropWhile isSpace)
    else match readJoint? left with
      | none => throw (.noCompound, left)
      | some (inner, left) =>
        let (c, left) ← readLinked nested fuel inner left
        return (.links link (.both (.all conditions) c), left)

/-! ## Lists -/

/-- One alternative of a list. -/
def readAlternative (nested : ListReader) (kind : ListKind) (cs : List Char) :
    Except Stop (Condition × List Char) :=
  match kind with
  | .forgiving =>
    if endsAlternative cs then .ok (.never, cs.dropWhile isSpace)
    else (fun (s, left) => (s.condition, left)) <$> readSelector nested cs
  | .strict => (fun (s, left) => (s.condition, left)) <$> readSelector nested cs
  | .relative =>
    let (link, left) := ((readJoint? cs).filter (·.1 != .descendant)).getD (.descendant, cs)
    readLinked nested (left.length + 1) link left

/-- The alternatives at the front of the text, at most `fuel` of them, and what follows. -/
def readAlternatives (nested : ListReader) (kind : ListKind) :
    Nat → List Char → Except Stop (Condition × List Char)
  | 0, cs => .error (.noCompound, cs)
  | fuel + 1, cs => do
    match ← readAlternative nested kind cs with
    | (c, ',' :: rest) =>
      let (more, left) ← readAlternatives nested kind fuel (rest.dropWhile isSpace)
      return (.either c more, left)
    | found => return found

/-- A list in brackets, with at most `depth` lists inside of one another. Where the text ends too
early, it is the bracket that is missing. -/
def readList : Nat → ListReader
  | 0, _, cs => .error (.noCompound, cs)
  | depth + 1, kind, cs =>
    match readAlternatives (readList depth) kind (cs.length + 1) cs with
    | .ok (c, ')' :: rest) => .ok (c, rest)
    | .ok (_, left) => .error (.unclosedPseudoClass, left)
    | .error (.noCompound, []) => .error (.unclosedPseudoClass, [])
    | .error stop => .error stop

/-! ## Selectors -/

/-- A whole text as a selector. A list of alternatives is one condition. -/
def readChars (cs : List Char) : Except Stop Selector := do
  let nested := readList cs.length
  match ← readSelector nested (cs.dropWhile isSpace) with
  | (s, []) => return s
  | (s, ',' :: rest) =>
    match ← readAlternatives nested .strict (rest.length + 1) (rest.dropWhile isSpace) with
    | (more, []) => return .one [.either s.condition more]
    | (_, left) => throw (.unmatchedClose, left)
  | (_, left) => throw (.unmatchedClose, left)

def read (text : String) : Except SyntaxError Selector :=
  match readChars text.toList with
  | .ok s => .ok s
  | .error (fault, rest) => .error ⟨text, text.length - rest.length, fault⟩

/-! ## Engines -/

/-- What finds the elements below a root that a text selects, in document order, or tells why the
text is no selector. -/
class Engine where
  find : Page → Option Nat → String → Except SyntaxError (List Nat)

/-- The text is read, and the elements are matched with what has been read. -/
instance : Engine where
  find page root text := (fun s => s.select page root) <$> read text

end Retrace.Selector
