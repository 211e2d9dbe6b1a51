/-
The row in a path of children.

A path is split at its row by the texts of its compounds: by their tags, and by the positions in
them. In a text whose special characters are all escaped (`Escaped`) no position can stand, since
the bracket that a position opens would come behind a backslash; and a position behind such a text
is the only one there, so dropping it leaves the text (`dropPositions_append_spell`). A path of
children is split where its texts say so: behind the last `tr`, else behind the first text with a
position, or else behind the first text at all, if it is not the only one (`splitRow_path`).
-/
import Mathlib.Data.List.Chain
import Retrace.Path.Row
import Retrace.Proofs.Path.Compounds
import Retrace.Proofs.Selector.Spelling

set_option autoImplicit false

namespace Retrace.Path

/-! ## Escaped texts -/

/-- Every special character of the text is escaped. -/
inductive Escaped : List Char → Prop where
  | nil : Escaped []
  | plain {c : Char} {cs : List Char} : Scan.IsPlain c → Escaped cs → Escaped (c :: cs)
  | escape {c : Char} {cs : List Char} : Escaped cs → Escaped ('\\' :: c :: cs)

namespace Escaped

variable {cs ds : List Char}

theorem of_plain (h : ∀ c ∈ cs, Scan.IsPlain c) : Escaped cs := by
  induction cs with
  | nil => exact .nil
  | cons c cs ih =>
    obtain ⟨hc, hcs⟩ := List.forall_mem_cons.1 h
    exact .plain hc (ih hcs)

theorem append (h : Escaped cs) (h' : Escaped ds) : Escaped (cs ++ ds) := by
  induction h with
  | nil => exact h'
  | plain hc _ ih => exact .plain hc ih
  | escape _ ih => exact .escape ih

theorem flatMap {β : Type} {f : β → List Char} {l : List β} (h : ∀ b ∈ l, Escaped (f b)) :
    Escaped (l.flatMap f) := by
  induction l with
  | nil => exact .nil
  | cons b l ih =>
    obtain ⟨hb, hl⟩ := List.forall_mem_cons.1 h
    exact hb.append (ih hl)

/-- What is escaped is taken whole. -/
theorem takes (h : Escaped cs) : Scan.Takes cs := by
  induction h with
  | nil => exact fun s rest _ => by simp
  | @plain c cs hc _ ih =>
    have hplain : Scan.Takes [c] := Scan.takes_plain (by simpa using hc)
    exact hplain.append ih
  | @escape c cs _ ih => exact (Scan.takes_escape c).append ih

/-- An opening bracket stands behind a backslash only. -/
theorem isChain (h : Escaped cs) :
    cs.head? ≠ some '(' ∧ cs.IsChain fun c d => d = '(' → c = '\\' := by
  induction h with
  | nil => exact ⟨by simp, .nil⟩
  | @plain c cs hc _ ih =>
    obtain ⟨-, -, -, -, -, hround, -⟩ := hc
    refine ⟨by simpa using hround, List.isChain_cons.2 ⟨fun d hd hround' => ?_, ih.2⟩⟩
    subst hround'
    exact absurd hd ih.1
  | @escape c cs _ ih =>
    refine ⟨by simp, List.isChain_cons_cons.2 ⟨fun _ => rfl, ?_⟩⟩
    refine List.isChain_cons.2 ⟨fun d hd hround => ?_, ih.2⟩
    subst hround
    exact absurd hd ih.1

end Escaped

/-! ## Positions -/

theorem positionOpening_not_isChain :
    ¬ positionOpening.IsChain fun c d => d = '(' → c = '\\' := by decide

/-- No position begins within a text whose brackets are escaped, also if a position follows. -/
theorem afterPosition?_append {cs rest : List Char} (hne : cs ≠ [])
    (hcs : cs.IsChain fun c d => d = '(' → c = '\\') (hrest : ∀ c ∈ rest.head?, c = ':') :
    afterPosition? (cs ++ rest) = none := by
  have hopening : ¬ positionOpening <+: cs ++ rest := by
    intro h
    rcases List.prefix_or_prefix_of_prefix h (List.prefix_append cs rest) with ⟨t, rfl⟩ | ⟨t, ht⟩
    · exact positionOpening_not_isChain hcs.left_of_append
    cases t with
    | nil =>
      rw [List.append_nil] at ht
      exact positionOpening_not_isChain (ht ▸ hcs)
    | cons c t =>
      -- the opening would go on in `rest`, but there is no other colon in it
      rw [← ht, List.prefix_append_right_inj] at h
      obtain ⟨u, rfl⟩ := h
      obtain rfl : c = ':' := hrest c (by simp)
      obtain ⟨d, ds, rfl⟩ := List.exists_cons_of_ne_nil hne
      have hcolon : ':' ∈ positionOpening.tail := by simp [← ht]
      exact absurd hcolon (by decide)
  rw [afterPosition?, if_neg (by simpa using hopening)]

/-- Where the brackets are escaped, the only position is one that follows. -/
theorem hasPosition_append {cs rest : List Char}
    (hcs : cs.IsChain fun c d => d = '(' → c = '\\') (hrest : ∀ c ∈ rest.head?, c = ':') :
    hasPosition (cs ++ rest) = hasPosition rest := by
  induction cs with
  | nil => rfl
  | cons c cs ih =>
    have hnone := afterPosition?_append (List.cons_ne_nil c cs) hcs hrest
    rw [List.cons_append] at hnone ⊢
    rw [hasPosition, hnone, ih hcs.tail]
    rfl

@[simp] theorem dropPositions_nil : dropPositions [] = [] := by
  have hnone : afterPosition? [] = none := by decide
  rw [dropPositions]
  split
  · next heq => simp [hnone] at heq
  · rfl

/-- Positions are looked for behind what opens no bracket. -/
theorem dropPositions_append {cs rest : List Char}
    (hcs : cs.IsChain fun c d => d = '(' → c = '\\') (hrest : ∀ c ∈ rest.head?, c = ':') :
    dropPositions (cs ++ rest) = cs ++ dropPositions rest := by
  induction cs with
  | nil => rfl
  | cons c cs ih =>
    have hnone := afterPosition?_append (List.cons_ne_nil c cs) hcs hrest
    rw [List.cons_append] at hnone ⊢
    rw [dropPositions]
    split
    · next heq => simp [hnone] at heq
    · simp [ih hcs.tail]

/-- A digit of the decimal numerals is one of the digits there are. -/
theorem isDigit_of_isDigit {c : Char} (h : c.isDigit = true) : Text.isDigit c = true := by
  have hsmall : c.toNat < 0x80 := by
    rw [Selector.isDigit_iff_toNat] at h
    omega
  simp [Text.isDigit, Text.digitValue?, hsmall, h]

/-- A written position is a position, and nothing is left behind it. -/
theorem afterPosition?_spell (n : Nat) : afterPosition? (Condition.position n).spell = some [] := by
  have hdigits : ∀ c ∈ Nat.toDigits 10 n, Text.isDigit c = true := fun c hc =>
    isDigit_of_isDigit (Nat.isDigit_of_mem_toDigits (by decide) (by decide) hc)
  have hclose : Text.isDigit ')' = false := by decide
  have hspell : (Condition.position n).spell
      = positionOpening ++ (Nat.toDigits 10 n ++ [')']) := rfl
  have htake : (Nat.toDigits 10 n ++ [')']).takeWhile Text.isDigit = Nat.toDigits 10 n := by
    rw [List.takeWhile_append_of_pos hdigits]
    simp [hclose]
  have hdrop : (Nat.toDigits 10 n ++ [')']).dropWhile Text.isDigit = [')'] := by
    rw [List.dropWhile_append_of_pos hdigits]
    simp [hclose]
  obtain ⟨d, ds, hd⟩ := List.exists_cons_of_ne_nil (Nat.toDigits_ne_nil (n := n) (b := 10))
  rw [hd] at htake hdrop hspell
  rw [afterPosition?, hspell, if_pos (by simp)]
  simp only [List.drop_left, htake, hdrop]

theorem head?_spell_position (n : Nat) : (Condition.position n).spell.head? = some ':' := by
  have hopening : Selector.positionOpening.head? = some ':' := Selector.head?_positionOpening
  simp [Condition.spell, hopening]

variable {cs : List Char}

/-- A position that is written behind escaped text is found. -/
theorem hasPosition_append_spell (h : Escaped cs) (n : Nat) :
    hasPosition (cs ++ (Condition.position n).spell) = true := by
  have hhead := head?_spell_position n
  rw [hasPosition_append h.isChain.2 (by simp [hhead])]
  obtain ⟨rest, hrest⟩ := List.head?_eq_some_iff.1 hhead
  have hposition := afterPosition?_spell n
  rw [hrest] at hposition ⊢
  simp [hasPosition, hposition]

/-- Escaped text has no position in it. -/
theorem hasPosition_of_escaped (h : Escaped cs) : hasPosition cs = false := by
  simpa [hasPosition] using @hasPosition_append cs [] h.isChain.2 (by simp)

/-- **The position is dropped**, and nothing else of an escaped text. -/
theorem dropPositions_append_spell (h : Escaped cs) (n : Nat) :
    dropPositions (cs ++ (Condition.position n).spell) = cs := by
  rw [dropPositions_append h.isChain.2 (by simp [head?_spell_position n]), dropPositions]
  split
  · next left heq =>
    obtain rfl : [] = left := by simpa [afterPosition?_spell n] using heq
    rw [dropPositions_nil, List.append_nil]
  · next heq => simp [afterPosition?_spell n] at heq

/-- Escaped text is left as it is. -/
theorem dropPositions_of_escaped (h : Escaped cs) : dropPositions cs = cs := by
  simpa using @dropPositions_append cs [] h.isChain.2 (by simp)

/-! ## Table rows -/

/-- The tag in front of a text is the tag that is read there, where a name of another kind follows
behind a sign. -/
theorem leadingTag_append {tag rest : List Char} (hhead : tag.head?.any Char.isAlpha = true)
    (htag : ∀ c ∈ tag, c.isAlphanum = true ∨ c = '-')
    (hrest : ∀ c ∈ rest.head?, c = '.' ∨ c = ':') : leadingTag (tag ++ rest) = tag := by
  have htake : (tag ++ rest).takeWhile (fun c => c.isAlphanum || c = '-') = tag := by
    rw [List.takeWhile_append_of_pos (by simpa using htag)]
    cases rest with
    | nil => simp
    | cons c rest => rcases hrest c rfl with rfl | rfl <;> simp
  obtain ⟨c, more, rfl⟩ : ∃ c more, tag = c :: more := by
    cases tag with
    | nil => simp at hhead
    | cons c more => exact ⟨c, more, rfl⟩
  rw [leadingTag, if_pos (by simpa using hhead), htake]

/-- Behind the last table row there is none. -/
theorem behindTableRow?_eq_some {cs inner : List Compound} (h : behindTableRow? cs = some inner) :
    ∃ outer row, cs = outer ++ row :: inner ∧ row.isTableRow = true
      ∧ ∀ c ∈ inner, c.isTableRow = false := by
  have hnone : ∀ cs, behindTableRow? cs = none → ∀ c ∈ cs, c.isTableRow = false := by
    intro cs
    induction cs with
    | nil => simp
    | cons c rest ih =>
      intro h
      cases hrest : behindTableRow? rest with
      | some inner => simp [behindTableRow?, hrest] at h
      | none =>
        have hc : c.isTableRow = false := by simpa [behindTableRow?, hrest] using h
        exact List.forall_mem_cons.2 ⟨hc, ih hrest⟩
  induction cs with
  | nil => simp [behindTableRow?] at h
  | cons c rest ih =>
    cases hrest : behindTableRow? rest with
    | some inner' =>
      obtain rfl : inner' = inner := by simpa [behindTableRow?, hrest] using h
      obtain ⟨outer, row, rfl, hrow, hinner⟩ := ih hrest
      exact ⟨c :: outer, row, rfl, hrow, hinner⟩
    | none =>
      have hc : c.isTableRow = true ∧ rest = inner := by
        simpa [behindTableRow?, hrest] using h
      obtain ⟨hc, rfl⟩ := hc
      exact ⟨[], c, rfl, hc, hnone rest hrest⟩

/-! ## Splitting a path of children -/

/-- The row is the first compound with a position, or else the first one. -/
theorem splitAtRow_spec (first : Compound) (rest : List Compound) :
    ∃ outer row inner, splitAtRow first rest = (outer, row, inner)
      ∧ first :: rest = outer ++ row :: inner ∧ (∀ c ∈ outer, c.hasPosition = false)
      ∧ (row.hasPosition = true ∨ outer = [] ∧ ∀ c ∈ first :: rest, c.hasPosition = false) := by
  rw [splitAtRow]
  split
  · next row inner heq =>
    have hsplit := List.takeWhile_append_dropWhile (p := (! ·.hasPosition)) (l := first :: rest)
    have hrow := List.head?_dropWhile_not (! ·.hasPosition) (first :: rest)
    rw [heq] at hsplit hrow
    refine ⟨_, row, inner, rfl, hsplit.symm, fun c hc => ?_, .inl (by simpa using hrow)⟩
    simpa using List.mem_takeWhile_imp hc
  · next heq =>
    rw [List.dropWhile_eq_nil_iff] at heq
    exact ⟨[], first, rest, rfl, rfl, by simp, .inr ⟨rfl, fun c hc => by simpa using heq c hc⟩⟩

theorem map_text_segments (ts : List String) : (segments ts).map Compound.text = ts := by
  cases ts <;> simp [segments, Function.comp_def]

/-- All steps of a path but the first are children. -/
theorem combinator_of_mem_tail_segments {ts : List String} :
    ∀ c ∈ (segments ts).tail, c.combinator = some .child := by
  cases ts <;> simp [segments]

/-- Where the compounds of a path of children are split, each part is the path of its texts. -/
theorem join_of_segments {ts : List String} {outer inner : List Compound} {row : Compound}
    (h : segments ts = outer ++ row :: inner) :
    ts = outer.map Compound.text ++ row.text :: inner.map Compound.text
      ∧ join inner = Locator.path (inner.map Compound.text)
      ∧ join (outer ++ [row.withoutPosition]) = Locator.path
        (outer.map Compound.text ++ [String.ofList (dropPositions row.text.toList)]) := by
  have htexts := map_text_segments ts
  have hchild := @combinator_of_mem_tail_segments ts
  rw [h] at htexts hchild
  refine ⟨by simpa using htexts.symm, ?_, ?_⟩
  · refine join_eq_path fun c hc => hchild c ?_
    cases outer with
    | nil => exact List.mem_of_mem_tail hc
    | cons c' outer =>
      exact List.mem_append_right _ (List.mem_cons_of_mem _ (List.mem_of_mem_tail hc))
  · rw [join_eq_path, List.map_append]
    · rfl
    · intro c hc
      cases outer with
      | nil => simp at hc
      | cons c' outer =>
        rcases List.mem_append.1 hc with hc | hc
        · exact hchild c (List.mem_append_left _ hc)
        · obtain rfl := List.mem_singleton.1 hc
          exact hchild row (by simp)

/-- **A path of children is split** behind the last table row; or else it is a single compound
without a position; or else the path down to the first compound with a position, or to the first
one, finds the rows without that position, and what is behind it leads on. -/
theorem splitRow_path {ts : List String} (hne : ts ≠ [])
    (h : ∀ t ∈ ts, t ≠ "" ∧ Scan.Takes t.toList) (direct : Bool) :
    (∃ outer row inner, ts = outer ++ row :: inner
        ∧ Compound.isTableRow ⟨none, row⟩ = true
        ∧ (∀ t ∈ inner, Compound.isTableRow ⟨none, t⟩ = false)
        ∧ splitRow (Locator.path ts) direct = (some tableRows, Locator.path inner))
      ∨ (∃ t, ts = [t] ∧ hasPosition t.toList = false
        ∧ splitRow (Locator.path ts) direct = (none, t))
      ∨ ∃ outer row inner, ts = outer ++ row :: inner
        ∧ (∀ t ∈ outer, hasPosition t.toList = false)
        ∧ (hasPosition row.toList = true
          ∨ outer = [] ∧ ∀ t ∈ ts, hasPosition t.toList = false)
        ∧ splitRow (Locator.path ts) direct
          = (some (":scope" ++ (if direct then Combinator.child else .descendant).text
              ++ Locator.path (outer ++ [String.ofList (dropPositions row.toList)])),
            Locator.path inner) := by
  obtain ⟨t, more, rfl⟩ := List.exists_cons_of_ne_nil hne
  have hcompounds := compounds_path h
  obtain ⟨first, rest, hsegments⟩ : ∃ first rest, segments (t :: more) = first :: rest :=
    ⟨_, _, rfl⟩
  rw [hsegments] at hcompounds
  rw [splitRow, hcompounds]
  dsimp only
  cases hbehind : behindTableRow? (first :: rest) with
  | some inner =>
    obtain ⟨outer, row, hsplit, hrow, hinner⟩ := behindTableRow?_eq_some hbehind
    obtain ⟨hts, hjoin, -⟩ := join_of_segments (hsegments.trans hsplit)
    refine .inl ⟨_, _, _, hts, hrow, ?_, by rw [← hjoin]⟩
    intro t ht
    obtain ⟨c, hc, rfl⟩ := List.mem_map.1 ht
    exact hinner c hc
  | none =>
    refine .inr ?_
    by_cases hsingle : (rest.isEmpty && !first.hasPosition) = true
    · rw [if_pos hsingle]
      simp only [Bool.and_eq_true, List.isEmpty_iff, Bool.not_eq_true'] at hsingle
      obtain ⟨rfl, hposition⟩ := hsingle
      have hts := map_text_segments (t :: more)
      rw [hsegments, List.map_singleton] at hts
      exact .inl ⟨first.text, hts.symm, hposition, rfl⟩
    · obtain ⟨outer, row, inner, hat, hsplit, houter, hrow⟩ := splitAtRow_spec first rest
      obtain ⟨hts, hinner, hpath⟩ := join_of_segments (hsegments.trans hsplit)
      rw [if_neg hsingle, hat]
      refine .inr ⟨_, _, _, hts, List.forall_mem_map.2 houter, hrow.imp_right fun hall => ?_, ?_⟩
      · rw [← map_text_segments (t :: more), hsegments]
        exact ⟨by rw [hall.1]; rfl, List.forall_mem_map.2 hall.2⟩
      · dsimp only
        rw [hinner, hpath]

end Retrace.Path
