/-
Selectors and what they match.

A condition is put on one element. It may be about the element alone, about its place among its
siblings, or about other elements that it is linked to, and conditions are made from one another
by all that logic has. A selector is a compound of conditions on one element, possibly within
another selector: the element is then a child of, or anywhere below, an element that the other one
matches. So the compounds of a plain path stay apart from each other, and all else that a selector
may ask for is a condition.

Selecting from a root looks at the elements below the root only, while the other end of a
combinator may lie anywhere in the page. The root is the scope of what is selected; the scope of a
whole page is its first element. The page around its outermost elements is no element, and nothing
matches it.
-/
import Retrace.Page.Basic
import Retrace.Path.Basic
import Retrace.Selector.Attribute
import Retrace.Selector.Language
import Retrace.Selector.PseudoClass

set_option autoImplicit false

namespace Retrace

/-! ## Places in a row -/

/-- The places `start`, `start + step` and so on in a row that is counted from one. -/
structure Steps where
  step : Int
  start : Int
  deriving Repr, DecidableEq

/-- Is the place one of them? -/
def Steps.reach (s : Steps) (place : Nat) : Bool :=
  let ahead := (place : Int) - s.start
  if s.step = 0 then ahead == 0 else ahead % s.step == 0 && 0 ≤ ahead / s.step

/-- How one element lies to another one. -/
inductive Link where
  | child
  | descendant
  /-- The next sibling. -/
  | next
  /-- Any later sibling. -/
  | later
  deriving Repr, DecidableEq

namespace Link

/-- The link that a combinator stands for. -/
def ofCombinator : Path.Combinator → Link
  | .child => .child
  | .descendant => .descendant

/-- The elements to which the element has the link. -/
def sources (page : Page) (i : Nat) : Link → List Nat
  | .child => (page.parent? i).toList
  | .descendant => page.enclosing i
  | .next => ((PseudoClass.siblings page i).filter (· < i)).getLast?.toList
  | .later => (PseudoClass.siblings page i).filter (· < i)

/-- The elements that have the link to the element. -/
def targets (page : Page) (i : Nat) : Link → List Nat
  | .child => page.places.filter (page.parent? · == some i)
  | .descendant => page.below (some i)
  | .next => ((PseudoClass.siblings page i).filter (i < ·)).head?.toList
  | .later => (PseudoClass.siblings page i).filter (i < ·)

end Link

/-! ## Conditions -/

/-- A condition on one element. -/
inductive Condition where
  | tag (name : String)
  | id (value : String)
  | hasClass (name : String)
  /-- The place among the siblings of the same tag, counted from one. -/
  | position (n : Nat)
  | state (name : PseudoClass)
  /-- Any element. -/
  | any
  /-- The attribute is there, and the test holds of it if there is one. -/
  | attribute (name : String) (test : Option AttributeTest)
  /-- The place among the siblings that meet a condition, which the element must meet as well,
  counted from the first or from the last. -/
  | placed (steps : Steps) (fromLast : Bool) (among : Condition)
  /-- The place among the siblings of the same tag. -/
  | placedOfType (steps : Steps) (fromLast : Bool)
  /-- The text of the element holds one of the texts, or a run right inside of it does. -/
  | withText (texts : List String) (own : Bool)
  | language (ranges : List String)
  | direction (d : Direction)
  | both (c d : Condition)
  | either (c d : Condition)
  | not (c : Condition)
  /-- The element has the link to one that meets the condition. -/
  | linked (link : Link) (source : Condition)
  /-- One that meets the condition has the link to the element. -/
  | links (link : Link) (target : Condition)
  deriving Repr, DecidableEq

namespace Condition

/-- What no element meets. -/
def never : Condition := .not .any

def all (conditions : List Condition) : Condition := conditions.foldr .both .any

/-- The place of a member in a row, counted from one. -/
def placeIn (row : List Nat) (fromLast : Bool) (i : Nat) : Nat :=
  (if fromLast then row.reverse else row).idxOf i + 1

/-- The runs of text inside of an element, or right inside of it. What is in a frame is left
out. -/
def runsIn (page : Page) (i : Nat) (own : Bool) : List String :=
  let inFrame (o : Nat) : Bool :=
    ((page.ancestors o).takeWhile (· != i) ++ [i]).any (page.tag · == Control.frameTag)
  let holds (run : TextRun) : Bool :=
    run.owner.any fun o => (if own then o == i else page.isWithin o i) && !inFrame o
  (page.texts.filter holds).map (·.text)

/-- Does the condition hold of the element, looked at from the scope? -/
def holds (page : Page) (scope : Nat) : Condition → Nat → Bool
  | .tag name, i => page.tag i == name
  | .id value, i => page.attr i "id" == value
  | .hasClass name, i => (page.classes i).contains name
  | .position n, i => page.positionOfType i == n
  | .state name, i => name.holds page scope i
  | .any, _ => true
  | .attribute name test, i =>
    let value := page.listedAttr? i name
    test.elim value.isSome (·.holds value)
  | .placed steps fromLast among, i =>
    among.holds page scope i
      && steps.reach (placeIn ((PseudoClass.siblings page i).filter (among.holds page scope))
        fromLast i)
  | .placedOfType steps fromLast, i => steps.reach (placeIn (page.sameTagSiblings i) fromLast i)
  | .withText texts own, i =>
    let runs := runsIn page i own
    let wholes := if own then runs else [String.join runs]
    texts.any fun t => wholes.any fun whole => AttributeTest.occursIn t.toList whole.toList
  | .language ranges, i => (Language.of? page i).any fun l => ranges.any (Language.inRange l)
  | .direction d, i => Direction.of? page i == some d
  | .both c d, i => c.holds page scope i && d.holds page scope i
  | .either c d, i => c.holds page scope i || d.holds page scope i
  | .not c, i => !c.holds page scope i
  | .linked link source, i => (link.sources page i).any (source.holds page scope)
  | .links link target, i => (link.targets page i).any (target.holds page scope)

theorem holds_all (page : Page) (scope i : Nat) (conditions : List Condition) :
    (all conditions).holds page scope i = conditions.all (·.holds page scope i) := by
  induction conditions with
  | nil => rfl
  | cons c rest ih => simp [all, holds, ← ih]

end Condition

/-! ## Selectors -/

/-- A selector. -/
inductive Selector where
  | one (conditions : List Condition)
  | within (outer : Selector) (joint : Path.Combinator) (conditions : List Condition)
  deriving Repr, DecidableEq

namespace Selector

/-- Does the selector match the element, looked at from the scope? -/
def holds (page : Page) (scope : Nat) : Selector → Nat → Bool
  | .one conditions, i => conditions.all (·.holds page scope i)
  | .within outer joint conditions, i =>
    conditions.all (·.holds page scope i) && match joint with
      | .child => (page.parent? i).any (outer.holds page scope)
      | .descendant => (page.enclosing i).any (outer.holds page scope)

/-- The selector as a condition on the elements that it matches. -/
def condition : Selector → Condition
  | .one conditions => .all conditions
  | .within outer joint conditions =>
    .both (.all conditions) (.linked (.ofCombinator joint) outer.condition)

theorem holds_condition (page : Page) (scope i : Nat) (s : Selector) :
    s.condition.holds page scope i = s.holds page scope i := by
  induction s generalizing i with
  | one conditions => exact Condition.holds_all ..
  | within outer joint conditions ih =>
    have houter : outer.condition.holds page scope = outer.holds page scope := funext ih
    cases joint with
    | child =>
      cases hparent : page.parent? i <;>
        simp [condition, Condition.holds, Condition.holds_all, holds, Link.ofCombinator,
          Link.sources, houter, hparent]
    | descendant =>
      simp [condition, Condition.holds, Condition.holds_all, holds, Link.ofCombinator,
        Link.sources, houter]

/-- The selector with a compound more, the elements of which are linked to its own. -/
def link (s : Selector) (conditions : List Condition) : Link → Selector
  | .child => .within s .child conditions
  | .descendant => .within s .descendant conditions
  | .next => .one (conditions ++ [.linked .next s.condition])
  | .later => .one (conditions ++ [.linked .later s.condition])

@[simp] theorem link_ofCombinator (s : Selector) (conditions : List Condition)
    (joint : Path.Combinator) :
    s.link conditions (.ofCombinator joint) = .within s joint conditions := by
  cases joint <;> rfl

/-- The scope of a root: the root itself, or the first element of the page. -/
def scopeOf (root : Option Nat) : Nat := root.getD 0

/-- The elements below the root that the selector matches, in document order. -/
def select (page : Page) (root : Option Nat) (s : Selector) : List Nat :=
  (page.below root).filter (s.holds page (scopeOf root))

/-- What is selected lies below the root and matches, and nothing else does. -/
theorem mem_select {page : Page} {root : Option Nat} {s : Selector} {i : Nat} :
    i ∈ s.select page root ↔ i ∈ page.below root ∧ s.holds page (scopeOf root) i = true := by
  simp [select]

end Selector

end Retrace
