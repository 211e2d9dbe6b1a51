/-
How the lines of a script are read.

Whoever runs a script reads a line from its front. A double quote opens a literal, a backslash in it
takes the next character along, and the first double quote that is not taken along ends it; outside
of literals the mark of a remark ends the code (`Reading`). The line itself knows where its recorded
text stands, but its reader does not. The two agree if each literal begins where code is read and
each remark stands behind its mark (`Line.Sealed`), since the text of a literal, as it is escaped,
never ends it. Then what is left of a line without its literals and remarks does not depend on what
was recorded (`Line.readCode_text`).
-/
import Retrace.Proofs.Script.Lines

set_option autoImplicit false

namespace Retrace.Script

/-! ## Reading -/

/-- How a character is read. -/
inductive Reading where
  | code
  | literal
  /-- In a literal, behind a backslash. -/
  | escaped
  | remark
  deriving Repr, DecidableEq

namespace Reading

/-- How the character behind `c` is read. -/
def next : Reading → Char → Reading
  | .code, '"' => .literal
  | .code, '#' => .remark
  | .code, _ => .code
  | .literal, '\\' => .escaped
  | .literal, '"' => .code
  | .literal, _ => .literal
  | .escaped, _ => .literal
  | .remark, _ => .remark

/-- How the character behind `cs` is read. -/
def through (r : Reading) (cs : List Char) : Reading := cs.foldl next r

/-- Is the character a part of the code? The quotes around a literal are, and so is the mark of a
remark. -/
def isCode : Reading → Char → Bool
  | .code, _ => true
  | .literal, c => c == '"'
  | .escaped, _ | .remark, _ => false

/-- The code among the characters. -/
def codeOf : Reading → List Char → List Char
  | _, [] => []
  | r, c :: cs => if r.isCode c then c :: (r.next c).codeOf cs else (r.next c).codeOf cs

@[simp] theorem through_nil (r : Reading) : r.through [] = r := rfl

theorem through_append (r : Reading) (cs ds : List Char) :
    r.through (cs ++ ds) = (r.through cs).through ds := List.foldl_append

theorem codeOf_append (r : Reading) (cs ds : List Char) :
    r.codeOf (cs ++ ds) = r.codeOf cs ++ (r.through cs).codeOf ds := by
  induction cs generalizing r with
  | nil => rfl
  | cons c cs ih =>
    have hthrough : r.through (c :: cs) = (r.next c).through cs := rfl
    rw [List.cons_append, codeOf, codeOf, ih, hthrough]
    split <;> rfl

end Reading

/-- The code of a line: what is left of it without the contents of its literals and without its
remark. -/
def readCode (line : String) : String := String.ofList (Reading.code.codeOf line.toList)

/-! ## Recorded text -/

/-- An escaped character does not end the literal it stands in. -/
theorem through_escapeChar (c : Char) : Reading.literal.through (escapeChar c) = .literal := by
  unfold escapeChar
  split
  case h_6 hbackslash hquote _ _ _ =>
    -- any other character stands for itself
    show Reading.literal.next c = .literal
    unfold Reading.next
    split <;> first | rfl | contradiction
  all_goals decide

theorem codeOf_escapeChar (c : Char) : Reading.literal.codeOf (escapeChar c) = [] := by
  unfold escapeChar
  split
  case h_6 _ hquote _ _ _ =>
    have hcode : Reading.literal.isCode c = false := by simpa [Reading.isCode] using hquote
    rw [Reading.codeOf, hcode]
    rfl
  all_goals decide

/-- **Escaped text does not end its literal**, and none of it is read as code. The induction is on
the text. -/
theorem read_escape (cs : List Char) : Reading.literal.through (escape cs) = .literal
    ∧ Reading.literal.codeOf (escape cs) = [] := by
  induction cs with
  | nil => exact ⟨rfl, rfl⟩
  | cons c cs ih =>
    have hescape : escape (c :: cs) = escapeChar c ++ escape cs := rfl
    rw [hescape, Reading.through_append, Reading.codeOf_append, through_escapeChar,
      codeOf_escapeChar]
    exact ih

/-- **A literal** is read from its first quote to its last one. -/
theorem read_quote (s : String) : Reading.code.through (quote s).toList = .code
    ∧ Reading.code.codeOf (quote s).toList = ['"', '"'] := by
  obtain ⟨hthrough, hcode⟩ := read_escape s.toList
  rw [quote, String.toList_ofList, List.cons_append]
  refine ⟨?_, ?_⟩
  · show Reading.literal.through (escape s.toList ++ ['"']) = .code
    rw [Reading.through_append, hthrough]
    rfl
  · show '"' :: Reading.literal.codeOf (escape s.toList ++ ['"']) = _
    rw [Reading.codeOf_append, hthrough, hcode]
    rfl

/-- **A remark** goes on to the end of its line. -/
theorem read_remark (cs : List Char) : Reading.remark.through cs = .remark
    ∧ Reading.remark.codeOf cs = [] := by
  induction cs with
  | nil => exact ⟨rfl, rfl⟩
  | cons c cs ih => exact ih

/-! ## Lines -/

/-- A part without the text that was recorded. -/
def Part.erased : Part → Part
  | .code s => .code s
  | .literal _ => .literal ""
  | .remark _ => .remark ""

/-- A line without the texts that were recorded. -/
def Line.erased (l : Line) : Line := { l with parts := l.parts.map Part.erased }

/-- Each literal begins where code is read, and each remark where a remark is. -/
def SealedFrom : Reading → List Part → Prop
  | _, [] => True
  | r, .code s :: rest => SealedFrom (r.through s.toList) rest
  | r, .literal _ :: rest => r = .code ∧ SealedFrom .code rest
  | r, .remark _ :: rest => r = .remark ∧ SealedFrom .remark rest

/-- The recorded texts of the line are read as such. -/
def Line.Sealed (l : Line) : Prop := SealedFrom .code l.parts

/-- What is read as code in sealed parts does not depend on what was recorded. The induction is on
the parts. -/
theorem SealedFrom.codeOf_join {r : Reading} {parts : List Part} (h : SealedFrom r parts) :
    r.codeOf (String.join (parts.map Part.text)).toList
      = r.codeOf (String.join ((parts.map Part.erased).map Part.text)).toList := by
  induction parts generalizing r with
  | nil => rfl
  | cons p rest ih =>
    rw [List.map_cons, List.map_cons, List.map_cons, String.join_cons, String.join_cons,
      String.toList_append, String.toList_append, Reading.codeOf_append, Reading.codeOf_append]
    cases p with
    | code s =>
      have hrest := ih h
      rw [Part.erased, Part.text, hrest]
    | literal s =>
      obtain ⟨rfl, hrest⟩ := h
      obtain ⟨hthrough, hcode⟩ := read_quote s
      obtain ⟨hthrough', hcode'⟩ := read_quote ""
      rw [Part.erased, Part.text, Part.text, hthrough, hcode, hthrough', hcode', ih hrest]
    | remark s =>
      obtain ⟨rfl, hrest⟩ := h
      obtain ⟨hthrough, hcode⟩ := read_remark (Script.remark s).toList
      obtain ⟨hthrough', hcode'⟩ := read_remark (Script.remark "").toList
      rw [Part.erased, Part.text, Part.text, hthrough, hcode, hthrough', hcode', ih hrest]

/-- **What was recorded is not read as code.** The code of a line is that of the line without the
texts that were recorded. -/
theorem Line.readCode_text {l : Line} (h : l.Sealed) :
    readCode l.text = readCode l.erased.text := by
  have hempty : l.erased.parts.isEmpty = l.parts.isEmpty := by simp [Line.erased]
  have hindent : ∀ n, Reading.code.through (List.replicate n ' ') = .code := by
    intro n
    induction n with
    | zero => rfl
    | succ n ih => exact ih
  unfold Line.text
  rw [hempty]
  split
  · rfl
  · simp only [readCode, String.toList_append, String.toList_ofList, Reading.codeOf_append, hindent]
    rw [h.codeOf_join]
    rfl

theorem Line.erased_nest (levels : Nat) (l : Line) :
    (l.nest levels).erased = l.erased.nest levels := rfl

end Retrace.Script
