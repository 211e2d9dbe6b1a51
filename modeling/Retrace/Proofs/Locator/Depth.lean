/-
How deep a path goes is told by its text.

The locator of an element inside of a container goes on with a child if the outermost element that
the path names is one. Which element that is follows from the number of steps, and this number is
taken from the text of the path: it is one more than the signs for a child in it.

That is right because no step holds such a sign. Tags have none of its characters, and classes and
ids are escaped, so that a `>` comes behind a backslash and never behind a blank
(`countChildSigns_path`). A step may end in a blank, that of a numbered escape, and even then the
sign that follows it is counted once.
-/
import Retrace.Proofs.Locator.Trail

set_option autoImplicit false

namespace Retrace.Locator

open Selector

/-! ## Texts without a sign -/

/-- A sign is counted where it begins, with a blank in front of its own character. -/
theorem countChildSigns_cons {c : Char} {rest : List Char} (h : rest.head? ≠ some '>') :
    countChildSigns (c :: rest) = countChildSigns rest := by
  rw [countChildSigns.eq_def]
  split
  · next heq =>
    obtain ⟨-, rfl⟩ := List.cons.inj heq
    exact absurd rfl h
  · next heq =>
    obtain ⟨-, rfl⟩ := List.cons.inj heq
    rfl
  · next heq => cases heq

/-- The characters make no sign, neither among themselves nor with what follows, if that does not
begin with half a sign. -/
def Signless (cs : List Char) : Prop :=
  ∀ rest : List Char, rest.head? ≠ some '>' →
    (cs ++ rest).head? ≠ some '>' ∧ countChildSigns (cs ++ rest) = countChildSigns rest

namespace Signless

theorem nil : Signless [] := fun _ h => ⟨h, rfl⟩

/-- What is signless can be put together. -/
theorem append {cs ds : List Char} (hc : Signless cs) (hd : Signless ds) :
    Signless (cs ++ ds) := by
  intro rest hrest
  obtain ⟨hhead, hcount⟩ := hd rest hrest
  obtain ⟨hhead', hcount'⟩ := hc (ds ++ rest) hhead
  rw [List.append_assoc]
  exact ⟨hhead', hcount'.trans hcount⟩

theorem singleton {c : Char} (h : c ≠ '>') : Signless [c] := by
  intro rest hrest
  exact ⟨by simpa using h, countChildSigns_cons hrest⟩

/-- Behind a backslash, even the sign's own character is none. -/
theorem escaped (c : Char) : Signless ['\\', c] := by
  intro rest hrest
  refine ⟨by simp, ?_⟩
  have hback : countChildSigns ('\\' :: c :: rest) = countChildSigns (c :: rest) := by
    simp [countChildSigns]
  exact hback.trans (countChildSigns_cons hrest)

/-- Without the sign's own character there is no sign. -/
theorem of_forall_ne {cs : List Char} (h : ∀ c ∈ cs, c ≠ '>') : Signless cs := by
  induction cs with
  | nil => exact nil
  | cons c rest ih =>
    obtain ⟨hc, hrest⟩ := List.forall_mem_cons.1 h
    exact (singleton hc).append (ih hrest)

theorem flatMap {α : Type} {pieces : List α} {f : α → List Char}
    (h : ∀ a ∈ pieces, Signless (f a)) : Signless (pieces.flatMap f) := by
  induction pieces with
  | nil => exact nil
  | cons a rest ih =>
    obtain ⟨ha, hrest⟩ := List.forall_mem_cons.1 h
    exact ha.append (ih hrest)

end Signless

/-! ## Compounds -/

/-- An escape by number is made of a backslash, hexadecimal digits and a blank. -/
theorem signless_numberEscape {c : Char} (h : c.toNat < 128) : Signless (numberEscape c) := by
  have hhex := List.all_eq_true.1 (shortHex_spec _ h).2.1
  refine .of_forall_ne fun d hd => ?_
  simp only [numberEscape, List.cons_append, List.mem_cons, List.mem_append,
    List.not_mem_nil, or_false] at hd
  rcases hd with rfl | hd | rfl
  · decide
  · rintro rfl
    exact absurd (hhex _ hd) (by decide)
  · decide

/-- Of the plain characters none is that of the sign, and all others are escaped. -/
theorem signless_escapeChar (atStart : Bool) (c : Char) : Signless (escapeChar atStart c) := by
  unfold escapeChar
  split_ifs with hzero hcontrol hdigit hplain
  · exact .singleton (by decide)
  · refine signless_numberEscape ?_
    simp only [Bool.or_eq_true, decide_eq_true_eq] at hcontrol
    rcases hcontrol with h | rfl
    · omega
    · decide
  · have hrange := isDigit_iff_toNat.1 (Bool.and_eq_true_iff.1 hdigit).2
    exact signless_numberEscape (by omega)
  · refine .singleton ?_
    rintro rfl
    exact absurd hplain (by decide)
  · exact .escaped c

theorem signless_escapeName (name : List Char) : Signless (escapeName name) := by
  have hrest : ∀ cs : List Char, Signless (cs.flatMap (escapeChar false)) :=
    fun cs => .flatMap fun c _ => signless_escapeChar false c
  unfold escapeName
  split
  · exact .nil
  · exact .escaped '-'
  · exact (Signless.singleton (by decide)).append ((signless_escapeChar true _).append (hrest _))
  · exact (signless_escapeChar true _).append (hrest _)

/-- A condition that can be written makes no sign. -/
theorem signless_spell {c : Condition} (h : c.Writable) : Signless c.spell := by
  cases c with
  | tag name =>
    refine .of_forall_ne fun d hd => ?_
    rintro rfl
    exact absurd (h.1.2 _ hd) (by decide)
  | id value => exact (Signless.singleton (by decide)).append (signless_escapeName _)
  | hasClass name => exact (Signless.singleton (by decide)).append (signless_escapeName _)
  | position n =>
    refine .of_forall_ne fun d hd => ?_
    rintro rfl
    simp only [Condition.spell, List.mem_append, List.mem_singleton] at hd
    rcases hd with hd | hd | hd
    · exact absurd hd (by decide)
    · exact absurd (Nat.isDigit_of_mem_toDigits (by decide) (by decide) hd) (by decide)
    · exact absurd hd (by decide)
  | _ => exact h.elim

/-! ## Paths -/

/-- **The signs of a path** are as many as its steps but one. -/
theorem countChildSigns_path {first : List Condition} {more : List (List Condition)}
    (h : ∀ conditions ∈ first :: more, WritableCompound conditions) :
    countChildSigns (path (texts (first :: more))).toList = more.length := by
  have hsignless : ∀ conditions ∈ first :: more, Signless (spellCompound conditions) :=
    fun conditions hc => .flatMap fun c hmem => signless_spell ((h conditions hc).writable c hmem)
  -- the induction is on the steps, outermost first, as they stand in the text
  induction more generalizing first with
  | nil =>
    have hcount := (hsignless first (by simp) [] (by simp)).2
    simpa [path, texts, text, spell, countChildSigns] using hcount
  | cons second more ih =>
    have hsign : Path.Combinator.child.text.toList = [' ', '>', ' '] := by decide
    have hpath : (path (texts (first :: second :: more))).toList
        = spellCompound first ++ ([' ', '>', ' '] ++ (path (texts (second :: more))).toList) := by
      simp [path, texts, text, spell, String.intercalate_cons_cons, hsign]
    have hbehind := ih (fun c hc => h c (List.mem_cons_of_mem _ hc))
      (fun c hc => hsignless c (List.mem_cons_of_mem _ hc))
    rw [hpath, (hsignless first (by simp) _ (by simp)).2]
    simp [countChildSigns, hbehind]

/-- A path of compounds is not empty, and so it is no path to the container itself. -/
theorem path_texts_ne_empty {first : List Condition} (h : WritableCompound first)
    (more : List (List Condition)) : path (texts (first :: more)) ≠ "" := by
  obtain ⟨c, cs, hspell, -⟩ := head_spellCompound h
  have hfirst : (Selector.one first).text ≠ "" := by
    simp [text, spell, hspell, ← String.toList_inj]
  cases more with
  | nil => simpa [path, texts] using hfirst
  | cons second more =>
    simp [path, texts, String.intercalate_cons_cons, hfirst]

variable {page : Page} {container i : Nat}

/-- Behind a container, the path goes on with a child if the element that it names first is one. -/
theorem synthesizeWithin_eq {first : List Condition} {more : List (List Condition)}
    (h : ∀ conditions ∈ first :: more, WritableCompound conditions)
    (hsteps : steps page (some i) (some container) false = .ok (texts (first :: more)))
    (subject : String) :
    synthesizeWithin page i container subject
      = .ok (subject
        ++ (if startsAtChild page i container more.length then Path.Combinator.child
          else .descendant).text
        ++ path (texts (first :: more))) := by
  have hpath : synthesize page (some i) (some container) false
      = .ok (path (texts (first :: more))) := by
    rw [synthesize, hsteps]
    rfl
  have hne := path_texts_ne_empty (h first (by simp)) more
  simp [synthesizeWithin, hpath, hne, countChildSigns_path h, bind, Except.bind, pure, Except.pure]

end Retrace.Locator
