/-
Tests of attributes.

An attribute can be asked for, or compared with a text: for being that text, for beginning or
ending with it or holding it, and for having it among its words or as its first part before a
hyphen. Some attributes are lists of words, and are compared with one blank between any two.

The comparisons follow the patterns that the selector engine makes of them. So where a pattern
goes up to the end of a value, a line feed at the very end does not count.
-/
import Retrace.Page.Basic

set_option autoImplicit false

namespace Retrace

/-! ## Attributes that are lists -/

namespace Page

/-- Attributes that are lists of words wherever they stand. -/
def listNames : List String := ["class", "accesskey", "dropzone"]

/-- Attributes that are lists of words in elements of one tag. -/
def listNamesOf : List (String × List String) :=
  [("a", ["rel", "rev"]), ("link", ["rel", "rev"]), ("td", ["headers"]), ("th", ["headers"]),
    ("form", ["accept-charset"]), ("object", ["archive"]), ("area", ["rel"]), ("icon", ["sizes"]),
    ("iframe", ["sandbox"]), ("output", ["for"])]

def isListed (tag name : String) : Bool :=
  listNames.contains name || ((listNamesOf.lookup tag).getD []).contains name

/-- The value of an attribute, with one blank between any two words if it is a list. -/
def listedAttr? (page : Page) (i : Nat) (name : String) : Option String :=
  (page.attr? i name).map fun value =>
    if isListed (page.tag i) name then " ".intercalate (Text.words value) else value

end Page

/-! ## Comparisons -/

/-- How the value of an attribute is compared with a text. -/
inductive Comparison where
  | equal
  /-- Another value, or no such attribute. -/
  | different
  | beginning
  | ending
  | part
  /-- One of the words. -/
  | word
  /-- All of the value, or its part before a hyphen. -/
  | range
  deriving Repr, DecidableEq

/-- A comparison of an attribute with a text, in any case of its letters if `anyCase`. -/
structure AttributeTest where
  comparison : Comparison
  text : String
  anyCase : Bool := false
  deriving Repr, DecidableEq

namespace AttributeTest

/-- Does the text lie in the other one? -/
def occursIn (part : List Char) : List Char → Bool
  | [] => part.isEmpty
  | c :: rest => part.isPrefixOf (c :: rest) || occursIn part rest

/-- The characters that part the words of an attribute. -/
def isWordGap (c : Char) : Bool :=
  c = ' ' || c = '\t' || c = '\n' || c = '\r' || c = '\x0c'

/-- Is the value the text, up to a line feed at its end? -/
def isWhole (text value : List Char) : Bool := value == text || value == text ++ ['\n']

/-- Does the value end with the text, up to a line feed at its end? -/
def endsWith (text value : List Char) : Bool :=
  text.isSuffixOf value || (text ++ ['\n']).isSuffixOf value

/-- Do the characters, read as those of a value, stand in the relation to the text? -/
def compares (comparison : Comparison) (text value : List Char) : Bool :=
  match comparison with
  | .equal => isWhole text value
  | .different => !isWhole text value
  | .beginning => text.isPrefixOf value
  | .ending => endsWith text value
  | .part => occursIn text value
  | .word => !text.isEmpty && !text.any isWordGap && (value.splitOnP isWordGap).contains text
  | .range => isWhole text value || (text ++ ['-']).isPrefixOf value

/-- Does the test hold of a value, `none` if the attribute is missing? -/
def holds (test : AttributeTest) : Option String → Bool
  | none => test.comparison == .different
  | some value =>
    let letters (s : String) : List Char := (if test.anyCase then Text.lowerAscii s else s).toList
    compares test.comparison (letters test.text) (letters value)

end AttributeTest

end Retrace
