/-
What separates the parts of a path.

A combinator can be spelled in many ways: as a run of blanks, or as signs of a child with blanks
around them. Three readers of paths tell where a combinator stands. The scan for compounds takes any
spelling for one combinator, unless it is escaped, quoted or in brackets
(`Scan.compounds_separator`), and the reader that asks whether a path continues with a child agrees
with it. The reader that asks what a path adds to the path of its container knows the space and the
sign of a child only. So the three agree exactly where nothing else is in the spelling
(`readers_agree_iff`).

Where a character of a path stands is kept apart from the compounds here (`Within`): it depends on
the characters before it and on nothing else.
-/
import Mathlib.Data.List.TakeWhile
import Retrace.Proofs.Path.Compounds
import Retrace.Proofs.Path.Relative

set_option autoImplicit false

namespace Retrace.Path

open Text (isBlank)

/-! ## Where a character stands -/

/-- Where a character stands: how many brackets are open around it, the quote it is within, and
whether it stands behind a backslash that escapes it. More brackets may close than open. -/
structure Within where
  depth : Int := 0
  quote : Option Char := none
  escaped : Bool := false
  deriving Repr, DecidableEq

namespace Within

/-- Where the character behind `c` stands. -/
def next (x : Within) (c : Char) : Within :=
  if x.escaped then { x with escaped := false }
  else if c = '\\' then { x with escaped := true }
  else match x.quote with
    | some q => if c = q then { x with quote := none } else x
    | none =>
      if c = '"' || c = '\'' then { x with quote := some c }
      else if c = '(' || c = '[' then { x with depth := x.depth + 1 }
      else if c = ')' || c = ']' then { x with depth := x.depth - 1 }
      else x

/-- Where the character behind `cs` stands. -/
def through (x : Within) (cs : List Char) : Within := cs.foldl next x

/-- Outside of quotes and brackets, and not escaped. -/
def isOpen (x : Within) : Bool := !x.escaped && x.quote.isNone && x.depth == 0

@[simp] theorem through_nil (x : Within) : x.through [] = x := rfl

@[simp] theorem through_cons (x : Within) (c : Char) (cs : List Char) :
    x.through (c :: cs) = (x.next c).through cs := rfl

theorem through_append (x : Within) (cs ds : List Char) :
    x.through (cs ++ ds) = (x.through cs).through ds := List.foldl_append

theorem isOpen_iff {x : Within} :
    x.isOpen = true ↔ x.escaped = false ∧ x.quote = none ∧ x.depth = 0 := by
  simp [isOpen, and_assoc]

end Within

/-- Can the character be a part of a combinator? -/
def isSeparator (c : Char) : Bool := isBlank c || c = '>'

theorem isSeparator_of_isJoint {c : Char} (h : isJoint c = true) : isSeparator c = true := by
  simp only [isJoint, Bool.or_eq_true, decide_eq_true_eq] at h
  rcases h with rfl | rfl <;> decide

/-- Does the character separate compounds where it stands? -/
def Within.separates (x : Within) (c : Char) : Bool := x.isOpen && isSeparator c

namespace Scan

/-- Where the next character of a scan stands. A scan takes an escape whole, so it is never within
one. -/
def within (s : Scan) : Within := { depth := s.depth, quote := s.quote }

theorem isOpen_within (s : Scan) : s.within.isOpen = s.isOpen := by
  simp [within, Within.isOpen, isOpen]

/-! ## Combinators in a scan -/

/-- The scan behind a spelled combinator. -/
def past (s : Scan) (w : List Char) : Scan := if '>' ∈ w then s.pastChild else s.pastBlank

@[simp] theorem within_past (s : Scan) (w : List Char) : (s.past w).within = s.within := by
  unfold past pastBlank
  split_ifs <;> rfl

@[simp] theorem compound_past (s : Scan) (w : List Char) : (s.past w).compound = [] := by
  unfold past pastChild pastBlank
  split_ifs <;> simp_all

@[simp] theorem isOpen_past (s : Scan) (w : List Char) : (s.past w).isOpen = s.isOpen := by
  rw [← isOpen_within, within_past, isOpen_within]

@[simp] theorem finished_past (s : Scan) (w : List Char) : (s.past w).finished = [] := by
  simp [finished]

/-- Separators in a row are one. -/
theorem past_past (s : Scan) (v w : List Char) : (s.past v).past w = s.past (v ++ w) := by
  unfold past pastBlank pastChild
  simp only [List.mem_append]
  split_ifs <;> simp_all

/-- Behind a compound there is always a combinator, and it does not depend on the one in front. -/
theorem past_combinator {s : Scan} (hne : s.compound ≠ []) (k : Option Combinator)
    (w : List Char) :
    ({ s with combinator := k } : Scan).past w = s.past w
      ∧ (s.past w).combinator.isSome = true := by
  unfold past pastBlank pastChild
  split_ifs <;> simp_all

/-- In the open, the sign for a child ends the compound. -/
theorem compounds_child {s : Scan} (hopen : s.isOpen = true) (rest : List Char) :
    s.compounds ('>' :: rest) = s.finished ++ s.pastChild.compounds rest := by
  have hblank : isBlank '>' = false := by decide
  rw [compounds]
  · simp [hopen, hblank]
  · simp

/-- A separator ends the compound. -/
theorem compounds_cut {s : Scan} (hopen : s.isOpen = true) {c : Char}
    (hc : isSeparator c = true) (rest : List Char) :
    s.compounds (c :: rest) = s.finished ++ (s.past [c]).compounds rest := by
  by_cases hchild : c = '>'
  · subst hchild
    simp [compounds_child hopen, past]
  · have hblank : isBlank c = true := by simpa [isSeparator, hchild] using hc
    simp [compounds_blank hopen hblank, past, Ne.symm hchild]

/-- **A spelled combinator** ends the compound, and is a single combinator however it is spelled.
The induction is on its characters: behind the first of them there is no compound yet. -/
theorem compounds_separator {s : Scan} (hopen : s.isOpen = true) {w : List Char} (hne : w ≠ [])
    (hw : ∀ c ∈ w, isSeparator c = true) (rest : List Char) :
    s.compounds (w ++ rest) = s.finished ++ (s.past w).compounds rest := by
  induction w generalizing s with
  | nil => exact absurd rfl hne
  | cons c w ih =>
    obtain ⟨hc, hmore⟩ := List.forall_mem_cons.1 hw
    rw [List.cons_append, compounds_cut hopen hc]
    by_cases hnil : w = []
    · rw [hnil, List.nil_append]
    · rw [ih (by simpa using hopen) hnil hmore, past_past, finished_past]
      rfl

/-- A separator leaves an open scan where it is. -/
theorem next_within_of_isSeparator {s : Scan} (hopen : s.isOpen = true) {c : Char}
    (hc : isSeparator c = true) : s.within.next c = s.within := by
  obtain ⟨hquote, -⟩ := isOpen_iff.1 hopen
  have hne : ∀ d, isSeparator d = false → c ≠ d := by
    rintro d hd rfl
    simp [hc] at hd
  simp [Within.next, within, hquote, hne '\\' (by decide), hne '"' (by decide),
    hne '\'' (by decide), hne '(' (by decide), hne '[' (by decide), hne ')' (by decide),
    hne ']' (by decide)]

/-! ## Characters of a compound -/

/-- A character that is taken is added to the compound, and no more. -/
theorem take_eq {s : Scan} {c : Char} (hback : c ≠ '\\') :
    s.take c = { s with
      compound := s.compound ++ [c]
      depth := (s.within.next c).depth
      quote := (s.within.next c).quote } := by
  unfold take Within.next
  cases hquote : s.quote with
  | some q =>
    simp only [within, hquote, hback, Bool.false_eq_true, if_false]
    split_ifs <;> simp [push, hquote]
  | none =>
    simp only [within, hquote, hback, Bool.false_eq_true, if_false]
    split_ifs <;> simp [push, hquote]

/-- The character that is taken moves the scan on by itself. -/
theorem within_take {s : Scan} {c : Char} (hback : c ≠ '\\') :
    (s.take c).within = s.within.next c := by
  have hescaped : (s.within.next c).escaped = false := by
    unfold Within.next
    simp only [within, hback, Bool.false_eq_true, if_false]
    split
    · split <;> rfl
    · split_ifs <;> rfl
  rw [take_eq hback]
  cases hnext : s.within.next c
  rw [hnext] at hescaped
  simp_all [within]

/-- A character that separates nothing goes into the compound. -/
theorem compounds_taken {s : Scan} {c : Char} (hback : c ≠ '\\')
    (hsep : s.within.separates c = false) (rest : List Char) :
    s.compounds (c :: rest) = (s.take c).compounds rest := by
  rw [Within.separates, isOpen_within, isSeparator] at hsep
  rw [compounds]
  · cases hopen : s.isOpen <;> simp_all
  · intro d more h
    exact absurd h hback

theorem compounds_backslash (s : Scan) : s.compounds ['\\'] = (s.push '\\').finished := by
  have hblank : isBlank '\\' = false := by decide
  have htake : s.compounds ['\\'] = (s.take '\\').finished := by
    rw [compounds]
    · simp [hblank, compounds]
    · simp
  rw [htake]
  unfold take
  split
  · split <;> rfl
  · rfl

/-- **The ways of a scan** through a path. Each character ends a compound, or is taken into it,
alone or with the backslash that escapes it; at the very end a backslash escapes nothing. -/
theorem induction_on {motive : Scan → List Char → Prop}
    (nil : ∀ s, motive s [])
    (backslash : ∀ s, motive s ['\\'])
    (escape : ∀ s d rest, motive ((s.push '\\').push d) rest → motive s ('\\' :: d :: rest))
    (cut : ∀ s c rest, s.isOpen = true → isSeparator c = true → motive (s.past [c]) rest →
      motive s (c :: rest))
    (taken : ∀ s c rest, c ≠ '\\' → s.within.separates c = false → motive (s.take c) rest →
      motive s (c :: rest))
    (s : Scan) (cs : List Char) : motive s cs := by
  induction s, cs using compounds.induct with
  | case1 s => exact nil s
  | case2 s d rest ih => exact escape s d rest ih
  | case3 s d rest hescape hblank ih =>
    obtain ⟨hopen, hd⟩ := Bool.and_eq_true_iff.1 hblank
    have hchild : d ≠ '>' := by
      rintro rfl
      exact absurd hd (by decide)
    have hpast : s.past [d] = s.pastBlank := by simp [past, Ne.symm hchild]
    exact cut s d rest hopen (by simp [isSeparator, hd]) (hpast ▸ ih)
  | case4 s d rest hescape hblank hchild ih =>
    obtain ⟨hopen, hd⟩ := Bool.and_eq_true_iff.1 hchild
    obtain rfl : d = '>' := by simpa using hd
    exact cut s '>' rest hopen (by decide) ih
  | case5 s d rest hescape hblank hchild ih =>
    by_cases hback : d = '\\'
    · cases rest with
      | nil => exact hback ▸ backslash s
      | cons c more => exact (hescape c more hback rfl).elim
    · refine taken s d rest hback ?_ ih
      rw [Within.separates, isOpen_within, isSeparator]
      cases hopen : s.isOpen <;> simp_all

/-! ## The beginning of a path -/

/-- The last character can be a part of a combinator. -/
def EndsSeparated (cs : List Char) : Prop := ∃ c ∈ cs.getLast?, isSeparator c = true

theorem endsSeparated_cons {c : Char} {cs : List Char}
    (h : cs = [] ∧ isSeparator c = true ∨ EndsSeparated cs) : EndsSeparated (c :: cs) := by
  rcases h with ⟨rfl, hc⟩ | ⟨d, hd, hsep⟩
  · exact ⟨c, rfl, hc⟩
  · refine ⟨d, ?_, hsep⟩
    rw [Option.mem_def] at hd ⊢
    simp [List.getLast?_cons, hd]

/-- **A scan in two parts.** What a scan finds behind a beginning that does not end within an escape
depends on where the beginning ends. A compound has been begun there, unless the beginning ends with
a separator. -/
theorem exists_compounds_append (s : Scan) (cs : List Char)
    (h : (s.within.through cs).escaped = false) :
    ∃ (found : List Compound) (t : Scan),
      (∀ rest, s.compounds (cs ++ rest) = found ++ t.compounds rest)
        ∧ t.within = s.within.through cs
        ∧ (t.compound = [] → s.compound = [] ∧ cs = [] ∨ EndsSeparated cs) := by
  induction s, cs using induction_on with
  | nil s => exact ⟨[], s, by simp, rfl, fun hnil => .inl ⟨hnil, rfl⟩⟩
  | backslash s =>
    -- it would escape what follows
    simp [Within.next, within] at h
  | escape s d rest ih =>
    have hwithin : s.within.through ('\\' :: d :: rest) = s.within.through rest := by
      simp [Within.next, within]
    rw [hwithin] at h ⊢
    obtain ⟨found, t, hfound, ht, hbegun⟩ := ih h
    refine ⟨found, t, fun more => ?_, ht, fun hnil => ?_⟩
    · rw [List.cons_append, List.cons_append, compounds]
      exact hfound more
    · rcases hbegun hnil with ⟨hpush, -⟩ | hlast
      · simp [push] at hpush
      · exact .inr (endsSeparated_cons (.inr (endsSeparated_cons (.inr hlast))))
  | cut s c rest hopen hc ih =>
    have hwithin : s.within.through (c :: rest) = (s.past [c]).within.through rest := by
      rw [Within.through_cons, next_within_of_isSeparator hopen hc, within_past]
    rw [hwithin] at h ⊢
    obtain ⟨found, t, hfound, ht, hbegun⟩ := ih h
    refine ⟨s.finished ++ found, t, fun more => ?_, ht, fun hnil => ?_⟩
    · rw [List.cons_append, compounds_cut hopen hc, hfound, List.append_assoc]
    · exact .inr (endsSeparated_cons ((hbegun hnil).imp_left fun hnone => ⟨hnone.2, hc⟩))
  | taken s c rest hback hsep ih =>
    have hwithin : s.within.through (c :: rest) = (s.take c).within.through rest := by
      rw [Within.through_cons, within_take hback]
    rw [hwithin] at h ⊢
    obtain ⟨found, t, hfound, ht, hbegun⟩ := ih h
    refine ⟨found, t, fun more => ?_, ht, fun hnil => ?_⟩
    · rw [List.cons_append, compounds_taken hback hsep]
      exact hfound more
    · rcases hbegun hnil with ⟨hnone, -⟩ | hlast
      · simp [take_eq hback] at hnone
      · exact .inr (endsSeparated_cons (.inr hlast))

end Scan

/-! ## The combinator in front -/

/-- The compounds with `k` in front of the first one. -/
def led (k : Option Combinator) : List Compound → List Compound
  | [] => []
  | c :: rest => { c with combinator := k } :: rest

namespace Scan

/-- The combinator goes to the first compound that comes. -/
theorem finished_combinator {s : Scan} (hne : s.compound ≠ []) (k : Option Combinator)
    (more : List Compound) :
    ({ s with combinator := k } : Scan).finished ++ more = led k (s.finished ++ more) := by
  simp [finished, hne, led]

/-- The combinator of a compound that has been begun does not matter for the others. -/
theorem compounds_combinator {s : Scan} (hne : s.compound ≠ []) (k : Option Combinator)
    (cs : List Char) :
    ({ s with combinator := k } : Scan).compounds cs = led k (s.compounds cs) := by
  induction s, cs using induction_on with
  | nil s => simpa [compounds] using finished_combinator hne k []
  | backslash s =>
    have hpush := finished_combinator (s := s.push '\\') (by simp [push]) k []
    rw [List.append_nil, List.append_nil] at hpush
    rw [compounds_backslash, compounds_backslash, ← hpush]
    rfl
  | escape s d rest ih =>
    rw [compounds, compounds]
    exact ih (by simp [push])
  | cut s c rest hopen hc ih =>
    rw [compounds_cut hopen hc, compounds_cut (s := { s with combinator := k }) hopen hc,
      (past_combinator hne k [c]).1, finished_combinator hne]
  | taken s c rest hback hsep ih =>
    have htake :
        ({ s with combinator := k } : Scan).take c = { s.take c with combinator := k } := by
      rw [take_eq hback, take_eq hback]
      rfl
    rw [compounds_taken hback hsep,
      compounds_taken (s := { s with combinator := k }) hback hsep, htake]
    exact ih (by simp [take_eq hback])

/-- Behind a combinator, what is found is led by it. -/
theorem compounds_led {cs : List Char} (hcs : ∀ c ∈ cs.head?, isSeparator c = false)
    (k : Option Combinator) :
    compounds { combinator := k } cs = led k (compounds {} cs) := by
  cases cs with
  | nil => rfl
  | cons c rest =>
    have hc : isSeparator c = false := hcs c rfl
    by_cases hback : c = '\\'
    · subst hback
      cases rest with
      | nil => rfl
      | cons d more =>
        rw [compounds, compounds]
        exact compounds_combinator (s := (({} : Scan).push '\\').push d) (by simp [push]) k more
    · have hsep : ∀ s : Scan, s.within.separates c = false := by
        intro s
        rw [Within.separates, hc, Bool.and_false]
      rw [compounds_taken hback (hsep _), compounds_taken hback (hsep _),
        ← compounds_combinator (by simp [take_eq hback]), take_eq hback, take_eq hback]
      rfl

end Scan

/-! ## The readers of paths -/

/-- The path ends with a compound: not within an escape, a quote or brackets, and not with a
separator. -/
def IsComplete (path : String) : Prop :=
  path ≠ "" ∧ (({} : Within).through path.toList).isOpen = true
    ∧ ∀ c ∈ path.toList.getLast?, isSeparator c = false

instance (path : String) : Decidable (IsComplete path) :=
  decidable_of_iff (path ≠ "" ∧ (({} : Within).through path.toList).isOpen = true
    ∧ path.toList.getLast?.all (! isSeparator ·) = true) (by simp [IsComplete, Option.all_eq_true])

variable {container w x : String}

/-- The scan for compounds takes a spelled combinator for one, behind any path that is complete. -/
theorem compounds_append_separator (hcontainer : IsComplete container) (hne : w ≠ "")
    (hw : ∀ c ∈ w.toList, isSeparator c = true) (hx : ∀ c ∈ x.toList.head?, isSeparator c = false) :
    compounds (container ++ w ++ x) = compounds container
      ++ led (some (if '>' ∈ w.toList then .child else .descendant)) (compounds x) := by
  obtain ⟨hnonempty, hopen, hlast⟩ := hcontainer
  obtain ⟨found, t, hfound, ht, hbegun⟩ := Scan.exists_compounds_append {} container.toList
    (Within.isOpen_iff.1 hopen).1
  have hbegun : t.compound ≠ [] := by
    intro hnil
    rcases hbegun hnil with ⟨-, hempty⟩ | ⟨c, hc, hsep⟩
    · exact hnonempty (String.toList_eq_nil_iff.1 hempty)
    · rw [hlast c hc] at hsep
      simp at hsep
  have htopen : t.isOpen = true := by
    rw [← Scan.isOpen_within, ht]
    exact hopen
  have hwhole : compounds container = found ++ t.finished := by
    have hend := hfound []
    rwa [List.append_nil, Scan.compounds] at hend
  have hwne : w.toList ≠ [] := fun h => hne (String.toList_eq_nil_iff.1 h)
  -- behind the combinator the scan begins anew
  have hpast : t.past w.toList
      = { combinator := some (if '>' ∈ w.toList then .child else .descendant) } := by
    obtain ⟨hquote, hdepth⟩ := Scan.isOpen_iff.1 htopen
    unfold Scan.past Scan.pastChild Scan.pastBlank
    split_ifs <;> simp_all
  rw [compounds, String.toList_append, String.toList_append, List.append_assoc, hfound,
    Scan.compounds_separator htopen hwne hw, hpast, Scan.compounds_led hx, hwhole,
    List.append_assoc, compounds]

/-- What a path adds behind the path of its container, in full: it must go on with a space or a sign
of a child, and these alone are left out. -/
theorem relativeTo?_append_separator (hcontainer : container ≠ "") (hne : w ≠ "")
    (hx : ∀ c ∈ x.toList.head?, isSeparator c = false) :
    relativeTo? container (container ++ w ++ x) = if w.toList.head?.any isJoint
      then some (String.ofList (w.toList.dropWhile isJoint) ++ x) else none := by
  obtain ⟨c, more, hw⟩ := List.exists_cons_of_ne_nil fun h => hne (String.toList_eq_nil_iff.1 h)
  have hprefix : container.toList.isPrefixOf? (container ++ w ++ x).toList
      = some (c :: (more ++ x.toList)) := by
    rw [List.isPrefixOf?_eq_some_iff_append_eq, String.toList_append, String.toList_append, hw]
    simp
  have hkeep : x.toList.dropWhile isJoint = x.toList := by
    cases hlist : x.toList with
    | nil => rfl
    | cons d rest =>
      have hd : isSeparator d = false := hx d (by simp [hlist])
      have hjoint : ¬isJoint d = true := by
        intro hjoint
        rw [isSeparator_of_isJoint hjoint] at hd
        simp at hd
      simp [hjoint]
  have hdrop : (c :: (more ++ x.toList)).dropWhile isJoint
      = (c :: more).dropWhile isJoint ++ x.toList := by
    rw [← List.cons_append, List.dropWhile_append, hkeep]
    split
    · next hnil => rw [List.isEmpty_iff.1 hnil, List.nil_append]
    · rfl
  rw [relativeTo?, if_neg hcontainer, hprefix, hw]
  dsimp only
  rw [hdrop, String.ofList_append, String.ofList_toList, List.head?_cons, Option.any_some]

/-- The reader that asks for a child skips all blanks. -/
theorem continuesWithChild_append_separator (hw : ∀ c ∈ w.toList, isSeparator c = true)
    (hx : ∀ c ∈ x.toList.head?, isSeparator c = false) :
    continuesWithChild container (container ++ w ++ x) = true ↔ '>' ∈ w.toList := by
  have hdrop : (container ++ w ++ x).toList.drop container.length = w.toList ++ x.toList := by
    rw [String.toList_append, String.toList_append, List.append_assoc, ← String.length_toList,
      List.drop_left]
  rw [continuesWithChild, hdrop, beq_iff_eq]
  generalize w.toList = ws at hw ⊢
  induction ws with
  | nil =>
    -- what is behind the combinator is no sign of a child
    cases hlist : x.toList with
    | nil => simp
    | cons d rest =>
      have hd : isSeparator d = false := hx d (by simp [hlist])
      obtain ⟨hblank, hchild⟩ := Bool.or_eq_false_iff.1 hd
      simpa [hblank] using hchild
  | cons c more ih =>
    obtain ⟨hc, hmore⟩ := List.forall_mem_cons.1 hw
    by_cases hchild : c = '>'
    · subst hchild
      have hblank : isBlank '>' = false := by decide
      simp [hblank]
    · have hblank : isBlank c = true := by simpa [isSeparator, hchild] using hc
      simpa [hblank, Ne.symm hchild] using ih hmore

/-- **When the readers agree.** Let a combinator be spelled in any way behind the path of a
container, as blanks with or without signs of a child. The scan for compounds reads it as a single
one, and the reader that asks for a child agrees with it. What the path adds is what stands behind
the combinator exactly if this is spelled with spaces and signs of a child; and nothing is seen to
be added at all exactly if the spelling begins with another blank. -/
theorem readers_agree_iff (hcontainer : container ≠ "") (hne : w ≠ "")
    (hw : ∀ c ∈ w.toList, isSeparator c = true)
    (hx : ∀ c ∈ x.toList.head?, isSeparator c = false) :
    (relativeTo? container (container ++ w ++ x) = some x ↔ ∀ c ∈ w.toList, isJoint c = true)
      ∧ (relativeTo? container (container ++ w ++ x) = none
        ↔ ∃ c ∈ w.toList.head?, isJoint c = false)
      ∧ (continuesWithChild container (container ++ w ++ x) = true ↔ '>' ∈ w.toList)
      ∧ (IsComplete container → compounds (container ++ w ++ x) = compounds container
        ++ led (some (if '>' ∈ w.toList then .child else .descendant)) (compounds x)) := by
  obtain ⟨c, more, hlist⟩ := List.exists_cons_of_ne_nil fun h => hne (String.toList_eq_nil_iff.1 h)
  have hadds := relativeTo?_append_separator hcontainer hne hx
  refine ⟨?_, ?_, continuesWithChild_append_separator hw hx,
    fun hcomplete => compounds_append_separator hcomplete hne hw hx⟩
  · rw [hadds]
    constructor
    · intro h
      -- whatever is left of the combinator would stand in front of `x`
      have hleft : (w.toList.dropWhile isJoint) = [] := by
        split at h
        · have htext := congrArg String.toList (Option.some.inj h)
          rw [String.toList_append, String.toList_ofList] at htext
          exact List.append_left_eq_self.1 htext
        · simp at h
      exact List.dropWhile_eq_nil_iff.1 hleft
    · intro hall
      have hleft : w.toList.dropWhile isJoint = [] := List.dropWhile_eq_nil_iff.2 hall
      have hc : isJoint c = true := hall c (by simp [hlist])
      have hfirst : w.toList.head?.any isJoint = true := by simp [hlist, hc]
      simp [hleft, hfirst]
  · rw [hadds, hlist]
    cases hc : isJoint c <;> simp [hc]

/-- A sign of a child at the end of a line. The line feed stays in what the path adds. -/
theorem readers_agree_iff_brokenLine :
    relativeTo? "table" ("table" ++ " >\n" ++ "tr") ≠ some "tr"
      ∧ relativeTo? "table" ("table" ++ " >\n" ++ "tr") ≠ none
      ∧ continuesWithChild "table" ("table" ++ " >\n" ++ "tr") = true
      ∧ compounds ("table" ++ " >\n" ++ "tr")
        = compounds "table" ++ [⟨some .child, "tr"⟩] := by
  obtain ⟨hadds, hnone, hchild, hcompounds⟩ :=
    @readers_agree_iff "table" " >\n" "tr" (by decide) (by decide)
      (List.all_eq_true.1 (by decide)) (by rintro _ ⟨⟩; decide)
  refine ⟨?_, ?_, hchild.2 (by decide), ?_⟩
  · rw [ne_eq, hadds, ← List.all_eq_true]
    decide
  · rw [ne_eq, hnone]
    rintro ⟨_, ⟨⟩, hblank⟩
    exact absurd hblank (by decide)
  · rw [hcompounds (by decide)]
    decide

/-- Behind a tab a path is not seen to go on within its container, though the scan for compounds
takes the tab for the combinator of a descendant. -/
theorem not_relativeTo?_tabbed :
    isSeparator '\t' = true ∧ relativeTo? "table" ("table" ++ "\t" ++ "tr") = none
      ∧ compounds ("table" ++ "\t" ++ "tr") = [⟨none, "table"⟩, ⟨some .descendant, "tr"⟩] := by
  decide

end Retrace.Path
