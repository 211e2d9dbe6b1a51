/-
The source of a script, as whoever runs it reads it.

A source is read character by character. A literal stands between two quotes of a kind, on one line,
or between three quotes, on as many lines as it takes; the mark of a remark goes on to the end of
its line (`Source.Mode`). What is left without the contents of literals and remarks is the code
(`Source.codeLines`). The names in it are defined or used, and the lines of a function are indented
(`Source.defined`, `Source.used`, `Source.bodyOf`).

The lines of a script say where recorded text stands in them. Where that is read as a literal or as
a remark, the code of a line is that of the line without it (`Line.Closed.code_text`), so what is
read in a script can be told from its fixed code.
-/
import Retrace.Proofs.Script.Reading
import Retrace.Proofs.Text.Cutting

set_option autoImplicit false

namespace Retrace.Script

namespace Source

/-! ## Reading a source -/

/-- How a character of a source is read. -/
inductive Mode where
  | code
  /-- Behind the first quote of a literal. -/
  | opened (q : Char)
  /-- Behind two quotes: an empty literal, unless there is a third one. -/
  | closed (q : Char)
  | literal (q : Char)
  /-- In a literal, behind a backslash. -/
  | escaped (q : Char)
  /-- In a literal between three quotes, behind `n` of those that may end it. -/
  | long (q : Char) (n : Nat)
  | longEscaped (q : Char)
  | remark
  deriving Repr, DecidableEq

namespace Mode

def behindCode (c : Char) : Mode :=
  if c = '"' ∨ c = '\'' then .opened c else if c = '#' then .remark else .code

/-- How the character behind `c` is read. -/
def next : Mode → Char → Mode
  | .code, c => behindCode c
  | .opened q, c => if c = q then .closed q else if c = '\\' then .escaped q else .literal q
  | .closed q, c => if c = q then .long q 0 else behindCode c
  | .literal q, c => if c = q then .code else if c = '\\' then .escaped q else .literal q
  | .escaped q, _ => .literal q
  | .long q n, c =>
    if c = q then (if n = 2 then .code else .long q (n + 1))
    else if c = '\\' then .longEscaped q else .long q 0
  | .longEscaped q, _ => .long q 0
  | .remark, _ => .remark

/-- How the character behind `cs` is read. -/
def through (m : Mode) (cs : List Char) : Mode := cs.foldl next m

/-- How the first character of the next line is read. -/
def lineEnd : Mode → Mode
  | .long q _ | .longEscaped q => .long q 0
  | .escaped q => .literal q
  | _ => .code

/-- What the character adds to the code. Of a literal, the quotes around it are kept. -/
def kept : Mode → Char → List Char
  | .code, c | .closed _, c => [c]
  | .opened q, c | .literal q, c => if c = q then [c] else []
  | .long q n, c => if c = q ∧ n = 2 then [c, c, c] else []
  | .escaped _, _ | .longEscaped _, _ | .remark, _ => []

/-- The code among the characters. -/
def codeOf : Mode → List Char → List Char
  | _, [] => []
  | m, c :: cs => m.kept c ++ (m.next c).codeOf cs

@[simp] theorem through_nil (m : Mode) : m.through [] = m := rfl

theorem through_cons (m : Mode) (c : Char) (cs : List Char) :
    m.through (c :: cs) = (m.next c).through cs := rfl

theorem through_append (m : Mode) (cs ds : List Char) :
    m.through (cs ++ ds) = (m.through cs).through ds := List.foldl_append

/-- What is code behind a text depends on the mode that the text leaves. -/
theorem codeOf_append (m : Mode) (cs ds : List Char) :
    m.codeOf (cs ++ ds) = m.codeOf cs ++ (m.through cs).codeOf ds := by
  induction cs generalizing m with
  | nil => rfl
  | cons c cs ih => rw [List.cons_append, codeOf, codeOf, ih, through_cons, List.append_assoc]

end Mode

/-- The code of lines of which the first one is read in the given way. -/
def codeFrom : Mode → List String → List String
  | _, [] => []
  | m, l :: ls => String.ofList (m.codeOf l.toList) :: codeFrom (m.through l.toList).lineEnd ls

/-- The lines of a source without the contents of its literals and without its remarks. -/
def codeLines (source : String) : List String := codeFrom .code (Text.lines source)

/-! ## Names -/

/-- Can the character stand in a name? -/
def isNameChar (c : Char) : Bool := c.isAlphanum || c = '_' || 0x80 ≤ c.toNat

/-- The names in a line of code, words of the language included. -/
def names (line : List Char) : List String :=
  ((Text.pieces (fun c => !isNameChar c) line).filter (! ·.isEmpty)).map String.ofList

/-- The names that are defined: each stands behind the word for that. -/
def definedIn : List String → List String
  | w :: name :: rest => if w = "def" then name :: definedIn rest else definedIn (name :: rest)
  | _ => []

/-- All other names. -/
def usedIn : List String → List String
  | w :: name :: rest => if w = "def" then usedIn rest else w :: usedIn (name :: rest)
  | ws => ws

def defined (code : List String) : List String := code.flatMap fun l => definedIn (names l.toList)

def used (code : List String) : List String := code.flatMap fun l => usedIn (names l.toList)

/-- Is the line empty, or indented? -/
def isInner (line : String) : Bool := line.toList.head? = none || line.toList.head? = some ' '

/-- The code in the body of the function of the given name: what follows its first line, as long as
it is indented. -/
def bodyOf (name : String) (code : List String) : List String :=
  (((code.dropWhile fun l => !(definedIn (names l.toList)).contains name).drop 1).takeWhile
    isInner).filter (· != "")

end Source

open Source (Mode names definedIn usedIn isNameChar)

/-! ## Recorded text -/

/-- Escaped text does not end its literal, and none of it is code. Where it begins right behind the
first quote, it is not taken for the second one. -/
theorem mode_escape (cs : List Char) :
    ((Mode.literal '"').through (escape cs) = .literal '"'
      ∧ (Mode.literal '"').codeOf (escape cs) = [])
    ∧ ((Mode.opened '"').through (escape cs) = (if cs = [] then .opened '"' else .literal '"')
      ∧ (Mode.opened '"').codeOf (escape cs) = []) := by
  have hchar : ∀ c, ∀ m ∈ [Mode.literal '"', .opened '"'],
      m.through (escapeChar c) = .literal '"' ∧ m.codeOf (escapeChar c) = [] := by
    intro c
    unfold escapeChar
    split
    case h_6 hbackslash hquote _ _ _ =>
      have hc : c ≠ '"' := hquote
      have hc' : c ≠ '\\' := hbackslash
      simp [Mode.through, Mode.next, Mode.codeOf, Mode.kept, hc, hc']
    all_goals decide
  have hliteral : ∀ cs, (Mode.literal '"').through (escape cs) = .literal '"'
      ∧ (Mode.literal '"').codeOf (escape cs) = [] := by
    intro cs
    induction cs with
    | nil => exact ⟨rfl, rfl⟩
    | cons c cs ih =>
      obtain ⟨hthrough, hcode⟩ := hchar c (.literal '"') (by simp)
      have hescape : escape (c :: cs) = escapeChar c ++ escape cs := rfl
      rw [hescape, Mode.through_append, Mode.codeOf_append, hthrough, hcode]
      exact ih
  refine ⟨hliteral cs, ?_⟩
  cases cs with
  | nil => exact ⟨rfl, rfl⟩
  | cons c cs =>
    obtain ⟨hthrough, hcode⟩ := hchar c (.opened '"') (by simp)
    have hescape : escape (c :: cs) = escapeChar c ++ escape cs := rfl
    rw [hescape, Mode.through_append, Mode.codeOf_append, hthrough, hcode]
    simpa using hliteral cs

/-- **A literal** is read from its first quote to its last one. Behind an empty one, a third quote
would be read in another way. -/
theorem mode_quote (s : String) :
    Mode.code.through (quote s).toList = (if s = "" then .closed '"' else .code)
      ∧ Mode.code.codeOf (quote s).toList = ['"', '"'] := by
  obtain ⟨-, hthrough, hcode⟩ := mode_escape s.toList
  have hempty : s.toList = [] ↔ s = "" := String.toList_eq_nil_iff
  rw [quote, String.toList_ofList, List.cons_append, Mode.through_cons, Mode.codeOf]
  show (Mode.opened '"').through (escape s.toList ++ ['"']) = _
    ∧ '"' :: (Mode.opened '"').codeOf (escape s.toList ++ ['"']) = _
  rw [Mode.through_append, Mode.codeOf_append, hthrough, hcode]
  by_cases hs : s = ""
  · simp [hs, Mode.through, Mode.next, Mode.codeOf, Mode.kept]
  · simp [hempty, hs, Mode.through, Mode.next, Mode.codeOf, Mode.kept]

/-- **A remark** goes on to the end of its line. -/
theorem mode_remark (cs : List Char) :
    Mode.remark.through cs = .remark ∧ Mode.remark.codeOf cs = [] := by
  induction cs with
  | nil => exact ⟨rfl, rfl⟩
  | cons c cs ih => exact ih

/-! ## Plain text -/

/-- Characters that neither begin a literal nor a remark. -/
def IsPlainCode (cs : List Char) : Prop := ∀ c ∈ cs, c ≠ '"' ∧ c ≠ '\'' ∧ c ≠ '#'

instance (cs : List Char) : Decidable (IsPlainCode cs) := List.decidableBAll _ cs

theorem IsPlainCode.append {cs ds : List Char} (h : IsPlainCode cs) (h' : IsPlainCode ds) :
    IsPlainCode (cs ++ ds) := List.forall_mem_append.2 ⟨h, h'⟩

/-- Names are plain code. -/
theorem isPlainCode_of_isNameChar {cs : List Char} (h : ∀ c ∈ cs, isNameChar c = true) :
    IsPlainCode cs := by
  intro c hc
  refine ⟨?_, ?_, ?_⟩ <;>
  · rintro rfl
    exact absurd (h _ hc) (by decide)

/-- Plain code is read as it stands. -/
theorem IsPlainCode.read {cs : List Char} (h : IsPlainCode cs) :
    Mode.code.through cs = .code ∧ Mode.code.codeOf cs = cs := by
  induction cs with
  | nil => exact ⟨rfl, rfl⟩
  | cons c cs ih =>
    obtain ⟨⟨hdouble, hsingle, hremark⟩, hcs⟩ := List.forall_mem_cons.1 h
    have hnext : Mode.code.next c = .code := by
      simp [Mode.next, Mode.behindCode, hdouble, hsingle, hremark]
    rw [Mode.through_cons, Mode.codeOf, hnext]
    exact ⟨(ih hcs).1, congrArg _ (ih hcs).2⟩

/-- A name does not end the literal that it stands in. -/
theorem mode_name {cs : List Char} (hne : cs ≠ []) (h : ∀ c ∈ cs, isNameChar c = true) :
    (Mode.opened '"').through cs = .literal '"' ∧ (Mode.opened '"').codeOf cs = [] := by
  have hother : ∀ c, isNameChar c = true → c ≠ '"' ∧ c ≠ '\\' := by
    intro c hc
    constructor <;> rintro rfl <;> exact absurd hc (by decide)
  have hliteral : ∀ cs, (∀ c ∈ cs, isNameChar c = true) →
      (Mode.literal '"').through cs = .literal '"' ∧ (Mode.literal '"').codeOf cs = [] := by
    intro cs h
    induction cs with
    | nil => exact ⟨rfl, rfl⟩
    | cons c cs ih =>
      obtain ⟨hc, hcs⟩ := List.forall_mem_cons.1 h
      obtain ⟨hquote, hback⟩ := hother c hc
      have hnext : (Mode.literal '"').next c = .literal '"' := by simp [Mode.next, hquote, hback]
      have hkept : (Mode.literal '"').kept c = [] := by simp [Mode.kept, hquote]
      rw [Mode.through_cons, Mode.codeOf, hnext, hkept]
      exact ih hcs
  obtain ⟨c, cs, rfl⟩ := List.exists_cons_of_ne_nil hne
  obtain ⟨hc, hcs⟩ := List.forall_mem_cons.1 h
  obtain ⟨hquote, hback⟩ := hother c hc
  have hnext : (Mode.opened '"').next c = .literal '"' := by simp [Mode.next, hquote, hback]
  have hkept : (Mode.opened '"').kept c = [] := by simp [Mode.kept, hquote]
  rw [Mode.through_cons, Mode.codeOf, hnext, hkept]
  exact hliteral cs hcs

/-- In a literal between three quotes nothing is code, if there is neither a quote nor a
backslash. -/
theorem mode_long {cs : List Char} (h : ∀ c ∈ cs, c ≠ '"' ∧ c ≠ '\\') :
    (Mode.long '"' 0).through cs = .long '"' 0 ∧ (Mode.long '"' 0).codeOf cs = [] := by
  induction cs with
  | nil => exact ⟨rfl, rfl⟩
  | cons c cs ih =>
    obtain ⟨⟨hquote, hback⟩, hcs⟩ := List.forall_mem_cons.1 h
    have hnext : (Mode.long '"' 0).next c = .long '"' 0 := by simp [Mode.next, hquote, hback]
    have hkept : (Mode.long '"' 0).kept c = [] := by simp [Mode.kept, hquote]
    rw [Mode.through_cons, Mode.codeOf, hnext, hkept]
    exact ih hcs

/-! ## Parts -/

/-- What stands behind a literal: nothing, or code that does not begin with a quote. -/
def endsLiteral : List Part → Bool
  | [] => true
  | .code s :: _ => s.toList.head?.any (· != '"')
  | .literal _ :: _ | .remark _ :: _ => false

/-- Each literal begins where code is read and ends with its last quote, and each remark stands
where a remark is read. -/
def readsFrom : Mode → List Part → Bool
  | _, [] => true
  | m, .code s :: rest => readsFrom (m.through s.toList) rest
  | m, .literal _ :: rest => m = .code && endsLiteral rest && readsFrom .code rest
  | m, .remark _ :: rest => m = .remark && readsFrom .remark rest

/-- The characters of the parts. -/
def chars (parts : List Part) : List Char := (String.join (parts.map Part.text)).toList

@[simp] theorem chars_nil : chars [] = [] := by simp [chars]

theorem chars_cons (p : Part) (parts : List Part) :
    chars (p :: parts) = p.text.toList ++ chars parts := by
  simp [chars, String.join_cons]

theorem endsLiteral_erased (parts : List Part) :
    endsLiteral (parts.map Part.erased) = endsLiteral parts := by
  match parts with
  | [] | .code _ :: _ | .literal _ :: _ | .remark _ :: _ => rfl

/-- Whether literals are read as such does not depend on what is in them. -/
theorem readsFrom_erased (m : Mode) (parts : List Part) :
    readsFrom m (parts.map Part.erased) = readsFrom m parts := by
  induction parts generalizing m with
  | nil => rfl
  | cons p rest ih =>
    cases p with
    | code s => exact ih _
    | literal s => simp only [List.map_cons, Part.erased, readsFrom, ih, endsLiteral_erased]
    | remark s => simp only [List.map_cons, Part.erased, readsFrom, ih]

/-- An empty literal has ended where there is no third quote. -/
theorem mode_closed {cs : List Char} (h : ∀ c ∈ cs.head?, c ≠ '"') :
    (Mode.closed '"').codeOf cs = Mode.code.codeOf cs
      ∧ ((Mode.closed '"').through cs).lineEnd = (Mode.code.through cs).lineEnd := by
  cases cs with
  | nil => exact ⟨rfl, rfl⟩
  | cons c cs =>
    have hc : c ≠ '"' := h c rfl
    simp [Mode.codeOf, Mode.through_cons, Mode.next, Mode.kept, hc]

/-- Behind a literal no other one begins at once. -/
theorem head?_chars {parts : List Part} (h : endsLiteral parts = true) :
    ∀ c ∈ (chars parts).head?, c ≠ '"' := by
  intro c hc
  match parts with
  | [] => simp at hc
  | .code s :: rest =>
    rw [chars_cons, Part.text, List.head?_append] at hc
    rw [endsLiteral] at h
    cases hhead : s.toList.head? with
    | none => simp [hhead] at h
    | some d =>
      obtain rfl : d = c := by simpa [hhead] using hc
      simpa [hhead] using h

/-- **What was recorded is not read as code**, and does not change how the next line is read. The
induction is on the parts. -/
theorem mode_chars {m : Mode} {parts : List Part} (h : readsFrom m parts = true) :
    m.codeOf (chars parts) = m.codeOf (chars (parts.map Part.erased))
      ∧ (m.through (chars parts)).lineEnd
        = (m.through (chars (parts.map Part.erased))).lineEnd := by
  induction parts generalizing m with
  | nil => exact ⟨rfl, rfl⟩
  | cons p rest ih =>
    rw [List.map_cons, chars_cons, chars_cons, Mode.codeOf_append, Mode.codeOf_append,
      Mode.through_append, Mode.through_append]
    cases p with
    | code s =>
      obtain ⟨hcode, hend⟩ := ih h
      exact ⟨congrArg _ hcode, hend⟩
    | literal s =>
      simp only [readsFrom, Bool.and_eq_true, decide_eq_true_eq] at h
      obtain ⟨⟨rfl, hends⟩, hrest⟩ := h
      obtain ⟨hcode, hend⟩ := ih hrest
      -- an empty literal may leave the reader in another mode, but what follows is read alike
      have hfollow : ∀ (s : String) (parts : List Part), endsLiteral parts = true →
          (Mode.code.through (quote s).toList).codeOf (chars parts) = Mode.code.codeOf (chars parts)
          ∧ ((Mode.code.through (quote s).toList).through (chars parts)).lineEnd
            = (Mode.code.through (chars parts)).lineEnd := by
        intro s parts hparts
        rw [(mode_quote s).1]
        split
        · exact mode_closed (head?_chars hparts)
        · exact ⟨rfl, rfl⟩
      obtain ⟨hcode₁, hend₁⟩ := hfollow s rest hends
      obtain ⟨hcode₂, hend₂⟩ := hfollow "" (rest.map Part.erased)
        (by rw [endsLiteral_erased, hends])
      rw [Part.erased, Part.text, Part.text, hcode₁, hend₁, hcode₂, hend₂, hcode, hend,
        (mode_quote s).2, (mode_quote "").2]
      exact ⟨rfl, rfl⟩
    | remark s =>
      simp only [readsFrom, Bool.and_eq_true, decide_eq_true_eq] at h
      obtain ⟨rfl, hrest⟩ := h
      obtain ⟨hcode, hend⟩ := ih hrest
      obtain ⟨hthrough₁, hcode₁⟩ := mode_remark (remark s).toList
      obtain ⟨hthrough₂, hcode₂⟩ := mode_remark (remark "").toList
      rw [Part.erased, Part.text, Part.text, hthrough₁, hcode₁, hthrough₂, hcode₂, hcode, hend]
      exact ⟨rfl, rfl⟩

/-! ## Lines -/

namespace Line

/-- The code of the line, without its indentation. -/
def bare (l : Line) : List Char := Mode.code.codeOf (chars l.erased.parts)

/-- The code of the line. -/
def codeText (l : Line) : String :=
  if l.parts.isEmpty then ""
  else String.ofList (List.replicate (indentWidth * l.depth) ' ' ++ l.bare)

/-- The recorded texts of the line are read as such, and behind it code is read again. -/
def Closed (l : Line) : Prop :=
  readsFrom .code l.erased.parts = true
    ∧ (Mode.code.through (chars l.erased.parts)).lineEnd = .code

instance (l : Line) : Decidable l.Closed := inferInstanceAs (Decidable (_ ∧ _))

theorem mode_indent (n : Nat) : Mode.code.through (List.replicate n ' ') = .code
    ∧ Mode.code.codeOf (List.replicate n ' ') = List.replicate n ' ' := by
  induction n with
  | zero => exact ⟨rfl, rfl⟩
  | succ n ih => exact ⟨ih.1, congrArg (' ' :: ·) ih.2⟩

/-- **The code of a line** is that of the line without the texts that were recorded. -/
theorem Closed.code_text {l : Line} (h : l.Closed) :
    Mode.code.codeOf l.text.toList = l.codeText.toList
      ∧ (Mode.code.through l.text.toList).lineEnd = .code := by
  obtain ⟨hreads, hend⟩ := h
  rw [erased, readsFrom_erased] at hreads
  obtain ⟨hthrough, hindent⟩ := mode_indent (indentWidth * l.depth)
  obtain ⟨hcode, hlast⟩ := mode_chars hreads
  unfold text codeText
  split
  · exact ⟨rfl, rfl⟩
  · rw [String.toList_append, String.toList_ofList, String.toList_ofList, Mode.codeOf_append,
      Mode.through_append, hthrough, hindent]
    exact ⟨congrArg _ hcode, hlast.trans hend⟩

end Line

/-- A line in front whose characters are known. -/
theorem codeFrom_cons {m m' : Mode} {cs ds : List Char}
    (h : m.codeOf cs = ds ∧ (m.through cs).lineEnd = m') (ls : List String) :
    Source.codeFrom m (String.ofList cs :: ls) = String.ofList ds :: Source.codeFrom m' ls := by
  rw [Source.codeFrom, String.toList_ofList, h.1, h.2]

/-- The code of lines each of which is read by itself. -/
theorem codeFrom_lines {ls : List Line} (h : ∀ l ∈ ls, l.Closed) (rest : List String) :
    Source.codeFrom .code (ls.map Line.text ++ rest)
      = ls.map Line.codeText ++ Source.codeFrom .code rest := by
  induction ls with
  | nil => rfl
  | cons l ls ih =>
    obtain ⟨hl, hls⟩ := List.forall_mem_cons.1 h
    obtain ⟨hcode, hend⟩ := hl.code_text
    rw [List.map_cons, List.cons_append, Source.codeFrom, hcode, hend, ih hls,
      String.ofList_toList, List.map_cons, List.cons_append]

/-! ## Names of a line -/

section
variable {c : Char} {cs ds : List Char}

/-- A character of no name parts the names. -/
theorem names_append_cons (hc : isNameChar c = false) (cs ds : List Char) :
    names (cs ++ c :: ds) = names cs ++ names ds := by
  have hcut : (!isNameChar c) = true := by rw [hc]; rfl
  rw [names, Text.pieces_append_cons hcut, List.filter_append, List.map_append, names, names]

@[simp] theorem names_nil : names [] = [] := rfl

theorem names_cons (hc : isNameChar c = false) (ds : List Char) : names (c :: ds) = names ds := by
  rw [← List.nil_append (c :: ds), names_append_cons hc, names_nil, List.nil_append]

/-- A name is the only one in it. -/
theorem names_of_forall (hne : cs ≠ []) (h : ∀ c ∈ cs, isNameChar c = true) :
    names cs = [String.ofList cs] := by
  have hcut : ∀ c ∈ cs, (!isNameChar c) = false := by simpa using h
  rw [names, Text.pieces_of_forall_not hcut]
  simp [hne]

/-- The characters of a name are those of the text. -/
theorem mem_of_mem_names {name : String} (h : name ∈ names cs) : ∀ c ∈ name.toList, c ∈ cs := by
  simp only [names, List.mem_map, List.mem_filter] at h
  obtain ⟨piece, ⟨hpiece, -⟩, rfl⟩ := h
  rw [String.toList_ofList]
  exact Text.subset_of_mem_pieces hpiece

end

/-- The indentation of a line has no names. -/
theorem Line.names_codeText (l : Line) : names l.codeText.toList = names l.bare := by
  unfold codeText
  split
  · next hempty =>
    have hparts : l.parts = [] := List.isEmpty_iff.1 hempty
    rw [bare, erased, hparts]
    rfl
  · rw [String.toList_ofList]
    induction indentWidth * l.depth with
    | zero => rfl
    | succ n ih => rw [List.replicate_succ, List.cons_append, names_cons (by decide), ih]

/-- Where nothing is defined, every name is used. -/
theorem definedIn_of_notMem {ws : List String} (h : "def" ∉ ws) :
    definedIn ws = [] ∧ usedIn ws = ws := by
  induction ws with
  | nil => exact ⟨rfl, rfl⟩
  | cons w rest ih =>
    obtain ⟨hw, hrest⟩ : w ≠ "def" ∧ "def" ∉ rest := by simpa [eq_comm] using h
    cases rest with
    | nil => exact ⟨rfl, rfl⟩
    | cons name more =>
      rw [definedIn, usedIn, if_neg hw, if_neg hw]
      exact ⟨(ih hrest).1, congrArg _ (ih hrest).2⟩

end Retrace.Script
