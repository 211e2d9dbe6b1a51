/-
Pages as forests of elements.

A page lists its elements in document order, and every element knows its parent, which comes
before it in that order. So the enclosing elements of an element are found by walking to smaller
and smaller places, and the walk ends. An element is handled as its place in the page; where an
operation may start at the page itself and not at an element, the page is `none`. Tags are kept in
lower case, in whatever case the markup has them.

Beside the elements a page keeps its runs of text, each with the element that holds it.
-/
import Retrace.Text.Blank
import Retrace.Text.Lower

set_option autoImplicit false

namespace Retrace

/-- An element as it stands in a page. Its attributes have different names. -/
structure Element where
  tag : String
  attrs : List (String × String) := []
  /-- The place of the enclosing element, `none` at the top of the page. -/
  parent : Option Nat := none
  deriving Repr, DecidableEq

/-- A run of text without any markup in it. -/
structure TextRun where
  /-- The element right around the run, `none` at the top of the page. -/
  owner : Option Nat
  text : String
  deriving Repr, DecidableEq

/-- A page: its elements and its runs of text, both in document order. -/
structure Page where
  elements : Array Element
  texts : List TextRun
  /-- An element comes after the one around it. -/
  parent_lt : ∀ (i : Nat) (h : i < elements.size) (p : Nat),
    elements[i].parent = some p → p < i
  tag_lower : ∀ (i : Nat) (h : i < elements.size),
    Text.lowerAscii elements[i].tag = elements[i].tag

namespace Page

/-! ## Growing -/

/-- The page without elements and without text. -/
def empty : Page where
  elements := #[]
  texts := []
  parent_lt := fun i h => absurd h (Nat.not_lt_zero i)
  tag_lower := fun i h => absurd h (Nat.not_lt_zero i)

instance : EmptyCollection Page := ⟨empty⟩

/-- The page with an element added at its end. A parent that the page does not have counts as
none. -/
def push (page : Page) (tag : String) (attrs : List (String × String)) (parent : Option Nat) :
    Page where
  elements := page.elements.push
    { tag := Text.lowerAscii tag, attrs, parent := parent.filter (· < page.elements.size) }
  texts := page.texts
  parent_lt := by
    intro i h p hp
    rw [Array.getElem_push] at hp
    split at hp
    · next hi => exact page.parent_lt i hi p hp
    · next hi =>
      simp only [Array.size_push] at h
      obtain ⟨-, hlt⟩ := Option.filter_eq_some_iff.1 hp
      simp only [decide_eq_true_eq] at hlt
      omega
  tag_lower := by
    intro i h
    rw [Array.getElem_push]
    split
    · next hi => exact page.tag_lower i hi
    · simp

/-- The page with a run of text added at its end. -/
def pushText (page : Page) (owner : Option Nat) (text : String) : Page where
  elements := page.elements
  texts := page.texts ++ [⟨owner, text⟩]
  parent_lt := page.parent_lt
  tag_lower := page.tag_lower

/-- The page with the attributes of an element changed. -/
def mapAttrs (page : Page) (i : Nat)
    (f : List (String × String) → List (String × String)) : Page where
  elements := page.elements.modify i fun e => { e with attrs := f e.attrs }
  texts := page.texts
  parent_lt := by
    intro j h p hp
    simp only [Array.size_modify] at h
    refine page.parent_lt j h p ?_
    rw [Array.getElem_modify] at hp
    split at hp <;> exact hp
  tag_lower := by
    intro j h
    simp only [Array.size_modify] at h
    rw [Array.getElem_modify]
    split <;> exact page.tag_lower j h

/-! ## Looking at an element -/

def size (page : Page) : Nat := page.elements.size

/-- The places of all elements, in document order. -/
def places (page : Page) : List Nat := List.range page.size

def tag (page : Page) (i : Nat) : String := (page.elements[i]?.map (·.tag)).getD ""

def attr? (page : Page) (i : Nat) (name : String) : Option String :=
  page.elements[i]?.bind fun e => e.attrs.lookup name

/-- The value of an attribute, empty if it is missing. -/
def attr (page : Page) (i : Nat) (name : String) : String := (page.attr? i name).getD ""

/-- The classes of an element: the words of its class attribute. -/
def classes (page : Page) (i : Nat) : List String := Text.words (page.attr i "class")

def parent? (page : Page) (i : Nat) : Option Nat := page.elements[i]?.bind (·.parent)

theorem parent?_lt {page : Page} {i p : Nat} (h : page.parent? i = some p) : p < i := by
  obtain ⟨e, he, hp⟩ := Option.bind_eq_some_iff.1 h
  obtain ⟨hi, rfl⟩ := Array.getElem?_eq_some_iff.1 he
  exact page.parent_lt i hi p hp

/-! ## Around an element -/

/-- The element and all elements around it, innermost first. -/
def ancestors (page : Page) (i : Nat) : List Nat :=
  match _h : page.parent? i with
  | none => [i]
  | some p => i :: page.ancestors p
termination_by i
decreasing_by exact parent?_lt _h

/-- The elements around an element, without the element itself. -/
def enclosing (page : Page) (i : Nat) : List Nat := (page.ancestors i).tail

/-- Is the element `container`, or inside of it? -/
def isWithin (page : Page) (i container : Nat) : Bool := (page.ancestors i).contains container

/-- The elements inside of an element, or all elements of the page. -/
def below (page : Page) : Option Nat → List Nat
  | none => page.places
  | some root => page.places.filter fun i => i != root && page.isWithin i root

/-- Is there an element inside of this one? -/
def hasChildren (page : Page) (i : Nat) : Bool :=
  page.places.any fun j => page.parent? j == some i

/-- The elements with the same parent and the same tag, the element itself included. -/
def sameTagSiblings (page : Page) (i : Nat) : List Nat :=
  page.places.filter fun j => page.parent? j == page.parent? i && page.tag j == page.tag i

/-- An element's place, counted from one, among its siblings of the same tag. -/
def positionOfType (page : Page) (i : Nat) : Nat := (page.sameTagSiblings i).idxOf i + 1

/-! ## Text -/

/-- Tags whose text is not part of the text around them: code, styles, the content of a template,
and the annotations of ruby text. -/
def apartTags : List String := ["rt", "rp", "script", "style", "template"]

/-- The tag that keeps a run of text apart, if one does. -/
def apartTag? (page : Page) (run : TextRun) : Option String :=
  run.owner.bind fun o => ((page.ancestors o).map page.tag).find? apartTags.contains

/-- Does the run count as text of the element? It must lie inside, and be kept apart by a tag only
if the element has that very tag. -/
def counts (page : Page) (i : Nat) (run : TextRun) : Bool :=
  (run.owner.any fun o => page.isWithin o i)
    && page.apartTag? run == (if apartTags.contains (page.tag i) then some (page.tag i) else none)

/-- The text of an element: its runs without the blanks around them, empty ones left out, with one
space between any two. -/
def text (page : Page) (i : Nat) : String :=
  " ".intercalate <|
    ((page.texts.filter (page.counts i)).map fun run => Text.strip run.text).filter (· != "")

/-! ## Laws of the walk outwards -/

/-- An element is its own first ancestor. -/
theorem ancestors_eq (page : Page) (i : Nat) :
    page.ancestors i = i :: match page.parent? i with
      | none => []
      | some p => page.ancestors p := by
  rw [ancestors]
  split <;> simp [*]

/-- Elements around an element come no later than it does. -/
theorem le_of_mem_ancestors {page : Page} {i j : Nat} (h : j ∈ page.ancestors i) : j ≤ i := by
  induction i using Nat.strongRecOn with
  | ind i ih =>
    rw [ancestors_eq] at h
    rcases List.mem_cons.1 h with rfl | h
    · exact Nat.le_refl _
    · split at h
      · cases h
      · next p hp =>
        have hlt := parent?_lt hp
        exact Nat.le_of_lt (Nat.lt_of_le_of_lt (ih p hlt h) hlt)

@[simp] theorem isWithin_self (page : Page) (i : Nat) : page.isWithin i i = true := by
  simp [isWithin, ancestors_eq page i]

end Page

end Retrace
