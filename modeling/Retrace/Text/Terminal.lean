/-
Text that goes to a terminal or comes from a file.

A file may end its lines in any of three ways; they all count as one line break. What is printed
to something that is no terminal loses its control sequences for colours and the cursor.
-/

set_option autoImplicit false

namespace Retrace.Text

/-! ## Line breaks -/

/-- The characters with every line break as a single line feed. -/
def unifyBreaks : List Char → List Char
  | '\r' :: '\n' :: rest => '\n' :: unifyBreaks rest
  | '\r' :: rest => '\n' :: unifyBreaks rest
  | c :: rest => c :: unifyBreaks rest
  | [] => []

/-- The text of a file as it is read. -/
def ofFile (s : String) : String := String.ofList (unifyBreaks s.toList)

/-! ## Control sequences -/

/-- The characters of the parameters of a control sequence. -/
def isParameter (c : Char) : Bool := c = ';' || c = '?' || c.isDigit

/-- The length of the control sequence that begins here, after its escape character. -/
def sequenceLength? : List Char → Option Nat
  | '[' :: rest =>
    match rest.dropWhile isParameter with
    | c :: _ => if c.isAlpha then some ((rest.takeWhile isParameter).length + 2) else none
    | [] => none
  | _ => none

/-- The characters after the first `skip` ones, without their control sequences. -/
def dropSequences : Nat → List Char → List Char
  | _, [] => []
  | skip + 1, _ :: rest => dropSequences skip rest
  | 0, c :: rest =>
    if c = '\x1b' then
      match sequenceLength? rest with
      | some n => dropSequences n rest
      | none => c :: dropSequences 0 rest
    else c :: dropSequences 0 rest

/-- A text as it is printed to something that is no terminal. -/
def plain (s : String) : String := String.ofList (dropSequences 0 s.toList)

end Retrace.Text
