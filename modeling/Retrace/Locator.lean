/-
Locators for the elements of a page.

A locator is a selector path that tells an element from the others. It is made from the most
telling description to the least: the id alone, if it is used once; then the tag with all
classes; then the same with the position among the siblings of the tag. If that is still
ambiguous, the description goes behind the locator of the parent. How often a description is
found is counted below a root, which is the whole page or a container; at the root, the locator
is as good as it gets.

Inside of a repeating container no ids are used, since an id usually names one row, and the path
goes behind the container's own locator.

What a description finds is told by a selector engine, whichever it is. If the engine takes a
description for no selector, there is no locator.
-/
import Retrace.Selector.Reader
import Retrace.Text.Lower

set_option autoImplicit false

namespace Retrace.Locator

variable [Selector.Engine]

/-! ## Descriptions of one element -/

/-- The elements below the root that a selector text finds, in document order. -/
def find (page : Page) (root : Option Nat) (selector : String) :
    Except Selector.SyntaxError (List Nat) :=
  Selector.Engine.find page root selector

/-- The number of elements below the root that a selector text finds. -/
def count (page : Page) (root : Option Nat) (selector : String) :
    Except Selector.SyntaxError Nat :=
  List.length <$> find page root selector

def byId (id : String) : String := "#" ++ Selector.escape id

def byTagAndClasses (page : Page) (i : Nat) : String :=
  Text.lower (page.tag i) ++ String.join ((page.classes i).map fun c => "." ++ Selector.escape c)

def withPosition (description : String) (n : Nat) : String :=
  description ++ s!":nth-of-type({n})"

/-- The description by tag and classes, with the position where the description alone is ambiguous
and there are siblings of the tag. -/
def describe (page : Page) (root : Option Nat) (i : Nat) :
    Except Selector.SyntaxError String := do
  let plain := byTagAndClasses page i
  let found ← count page root plain
  if found ≠ 1 && 1 < (page.sameTagSiblings i).length then
    return withPosition plain (page.positionOfType i)
  else return plain

/-! ## Paths -/

/-- The description by id, if ids are used and the element has one that is found once. -/
def uniqueId? (page : Page) (root : Option Nat) (useIds : Bool) (i : Nat) :
    Except Selector.SyntaxError (Option String) := do
  let id := page.attr i "id"
  if useIds && id ≠ "" then
    let found ← count page root (byId id)
    return if found = 1 then some (byId id) else none
  else return none

/-- The descriptions that lead to the first of the elements, outermost first. The elements are one
and those around it, innermost first. -/
def stepsAlong (page : Page) (root : Option Nat) (useIds : Bool) :
    List Nat → Except Selector.SyntaxError (List String)
  | [] => .ok []
  | i :: around =>
    -- the root is where the path begins, so it has no description of its own
    if root = some i then .ok []
    else do
      match ← uniqueId? page root useIds i with
      | some id => return [id]
      | none =>
        let description ← describe page root i
        let found ← count page root description
        if found = 1 then return [description]
        else
          let outer ← stepsAlong page root useIds around
          return outer ++ [description]

/-- The descriptions that lead from the root to an element, outermost first. There are none for
the page and for the root itself. -/
def steps (page : Page) (element root : Option Nat) (useIds : Bool := true) :
    Except Selector.SyntaxError (List String) :=
  match element with
  | none => .ok []
  | some i => stepsAlong page root useIds (page.ancestors i)

/-- The path of the descriptions, each one a child of the one before it. -/
def path (steps : List String) : String := (Path.Combinator.child.text).intercalate steps

/-- The locator of an element below the root. -/
def synthesize (page : Page) (element root : Option Nat) (useIds : Bool := true) :
    Except Selector.SyntaxError String :=
  path <$> steps page element root useIds

/-! ## Inside a container -/

/-- How often the sign for a child stands in a path, counted from the left without overlaps. -/
def countChildSigns : List Char → Nat
  | ' ' :: '>' :: ' ' :: rest => countChildSigns rest + 1
  | _ :: rest => countChildSigns rest
  | [] => 0

/-- Is the outermost of `depth + 1` elements, counted outwards from `i`, a child of the
container? -/
def startsAtChild (page : Page) (i container depth : Nat) : Bool :=
  ((page.ancestors i)[depth]?.bind page.parent?) == some container

/-- The locator of an element inside of a container, behind the container's own one. How far out
the path begins is told by the signs in it. -/
def synthesizeWithin (page : Page) (i container : Nat) (containerLocator : String) :
    Except Selector.SyntaxError String := do
  let inner ← synthesize page (some i) (some container) false
  if inner = "" then return containerLocator
  else
    let joint := if startsAtChild page i container (countChildSigns inner.toList) then
        Path.Combinator.child
      else .descendant
    return containerLocator ++ joint.text ++ inner

end Retrace.Locator
