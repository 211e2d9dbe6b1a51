/-
The text of a script, as lines.

A line is a depth and a row of parts, and every part is either fixed code, a recorded text that is
written as a literal, or a recorded text that is written as a remark. So the places where recorded
text stands are known before the text is written.
-/
import Retrace.Script.Literal

set_option autoImplicit false

namespace Retrace.Script

/-- A part of a line. -/
inductive Part where
  | code (text : String)
  | literal (text : String)
  | remark (text : String)
  deriving Repr, DecidableEq

def Part.text : Part → String
  | .code s => s
  | .literal s => quote s
  | .remark s => Script.remark s

/-- A line of a script. -/
structure Line where
  depth : Nat
  parts : List Part
  deriving Repr, DecidableEq

def indentWidth : Nat := 4

namespace Line

/-- The written form of a line. A line without parts is empty. -/
def text (l : Line) : String :=
  if l.parts.isEmpty then ""
  else String.ofList (List.replicate (indentWidth * l.depth) ' ')
    ++ String.join (l.parts.map Part.text)

def nest (levels : Nat) (l : Line) : Line := { l with depth := l.depth + levels }

end Line

def code (depth : Nat) (text : String) : Line := ⟨depth, [.code text]⟩

def blank : Line := ⟨0, []⟩

/-- A block of a script: a function, or another piece that stands by itself. -/
abbrev Block := List Line

def Block.text (b : Block) : String := "\n".intercalate (b.map Line.text)

end Retrace.Script

namespace Retrace

/-- A script as a row of blocks. -/
structure Script where
  blocks : List Script.Block
  deriving Repr, DecidableEq

/-- The text of a script: two empty lines between any two blocks, and a line break at the end. -/
def Script.text (s : Script) : String :=
  "\n\n\n".intercalate (s.blocks.map Script.Block.text) ++ "\n"

end Retrace
