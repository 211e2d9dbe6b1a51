/-
Written values are read back.

Two things can go wrong: a whole number may have too many digits, and containers may stand too deep
in one another. So what is read from the text of a value depends on the value alone (`reread`), and
where both are ruled out it is the value itself (`Fits`).

The induction is on how a value is put together: a text is read as its value says at every level and
with any rest behind it (`Rereads`), given so much fuel as two steps for each character. The
separators are told apart from the values by how a value begins (`writeAt_head`).
-/
import Retrace.Proofs.Except
import Retrace.Proofs.Json.Members
import Retrace.Proofs.Json.Number
import Retrace.Proofs.Json.Quotation

set_option autoImplicit false

namespace Retrace

namespace Json

open Decimal

/-! ## Where a value begins and ends -/

/-- A number ends where a character comes that belongs to none. -/
theorem endsNumber_cons {c : Char} (h : c.isDigit = false ∧ c ≠ '.' ∧ c ≠ 'e' ∧ c ≠ 'E')
    (cs : List Char) : EndsNumber (c :: cs) := by
  intro d hd
  obtain rfl : c = d := by simpa using hd
  exact h

theorem skipGap_cons {c : Char} (h : isGap c = false) (cs : List Char) :
    skipGap (c :: cs) = c :: cs := by
  simp [skipGap, h]

theorem skipGap_append {gap : List Char} (h : ∀ c ∈ gap, isGap c = true) (cs : List Char) :
    skipGap (gap ++ cs) = skipGap cs :=
  List.dropWhile_append_of_pos h

/-- What does not begin a value. -/
def EndsValue (c : Char) : Prop := isGap c = true ∨ c = ']' ∨ c = '\x7d' ∨ c = '\ufeff'

/-- A text that is a value begins neither with a gap nor with a closing bracket, nor with a byte
order mark. -/
theorem value_head {fuel room : Nat} {cs : List Char} {found : Json × List Char}
    (h : value fuel room cs = .ok found) : ∃ c more, cs = c :: more ∧ ¬ EndsValue c := by
  cases fuel with
  | zero => simp [value] at h
  | succ fuel =>
    cases cs with
    | nil =>
      simp [value, show namedValue? [] = none from rfl, number, wholeDigits, plainDigits] at h
    | cons c more =>
      refine ⟨c, more, rfl, fun hends => ?_⟩
      have hcases : c = ' ' ∨ c = '\t' ∨ c = '\n' ∨ c = '\r' ∨ c = ']' ∨ c = '\x7d'
          ∨ c = '\ufeff' := by
        simpa [EndsValue, isGap, or_assoc] using hends
      rcases hcases with rfl | rfl | rfl | rfl | rfl | rfl | rfl <;>
        simp [value, namedValue?, namedValues, List.isPrefixOf?, number, wholeDigits,
          plainDigits] at h

/-- A number begins with a digit behind its sign. -/
theorem number_head {cs : List Char} {found : Json × List Char} (h : number cs = .ok found) :
    ∃ (negative : Bool) (d : Char) (more : List Char),
      cs = signText negative ++ d :: more ∧ d.isDigit = true := by
  have hwhole : ∀ body, ¬ (wholeDigits body).1.isEmpty = true →
      ∃ d more, body = d :: more ∧ d.isDigit = true := by
    intro body hbody
    match body with
    | [] => simp [wholeDigits, plainDigits] at hbody
    | d :: more =>
      refine ⟨d, more, rfl, ?_⟩
      by_contra hd
      have hzero : d ≠ '0' := by
        rintro rfl
        exact hd rfl
      simp [wholeDigits, hzero, plainDigits, hd] at hbody
  unfold number at h
  dsimp only at h
  split at h
  · next rest =>
    obtain ⟨d, more, rfl, hd⟩ := hwhole rest fun hempty => by simp [hempty] at h
    exact ⟨true, d, more, rfl, hd⟩
  · obtain ⟨d, more, rfl, hd⟩ := hwhole cs fun hempty => by simp [hempty] at h
    exact ⟨false, d, more, rfl, hd⟩

/-- A sign and digits are a number: none of the words begins like them. -/
theorem value_signText (fuel room : Nat) (negative : Bool) {d : Char} (hd : d.isDigit = true)
    (more : List Char) :
    value (fuel + 1) room (signText negative ++ d :: more)
      = number (signText negative ++ d :: more) := by
  have hne : ∀ c : Char, c.isDigit = false → d ≠ c := by
    rintro c hc rfl
    rw [hd] at hc
    exact absurd hc (by decide)
  have hname : namedValue? (signText negative ++ d :: more) = none := by
    have hi := (hne 'I' rfl).symm
    have hn := (hne 'n' rfl).symm
    have ht := (hne 't' rfl).symm
    have hf := (hne 'f' rfl).symm
    have hN := (hne 'N' rfl).symm
    have hminus := (hne '-' rfl).symm
    cases negative <;>
      simp [namedValue?, namedValues, List.isPrefixOf?, signText, hi, hn, ht, hf, hN, hminus]
  have hquote := hne '"' rfl
  have hbracket := hne '[' rfl
  have hbrace := hne '\x7b' rfl
  cases negative with
  | true =>
    rw [signText, if_pos rfl, List.singleton_append] at hname ⊢
    simp [value, hname]
  | false =>
    rw [signText, if_neg (by decide), List.nil_append] at hname ⊢
    simp [value, hquote, hbracket, hbrace, hname]

/-! ## What is read back -/

mutual

/-- What is read from the text of a value, where `room` containers may stand in one another. -/
def reread : Nat → Json → Except Fault Json
  | _, .null => .ok .null
  | _, .bool b => .ok (.bool b)
  | _, .int n =>
    if maxDigits < (Nat.toDigits 10 n.natAbs).length then .error .tooManyDigits else .ok (.int n)
  | _, .float x => .ok (.float x)
  | _, .str s => .ok (.str s)
  | 0, .arr _ => .error .tooDeep
  | 0, .obj _ => .error .tooDeep
  | room + 1, .arr vs => .arr <$> rereadItems room vs
  | room + 1, .obj fields =>
    (fun members => .obj (Fields.ofList members)) <$> rereadFields room fields

def rereadItems (room : Nat) : List Json → Except Fault (List Json)
  | [] => .ok []
  | v :: rest => do
    let v ← reread room v
    let rest ← rereadItems room rest
    return v :: rest

def rereadFields (room : Nat) : List (String × Json) → Except Fault (List (String × Json))
  | [] => .ok []
  | (name, v) :: rest => do
    let v ← reread room v
    let rest ← rereadFields room rest
    return (name, v) :: rest

end

/-- What comes of reading, with the faults and without their places. -/
def faults {α : Type} (x : Except ReadError α) : Except Fault α := x.mapError ReadError.fault

/-- What is read without a fault is what is read. -/
theorem eq_ok_of_faults {α : Type} {x : Except ReadError α} {a : α} (h : faults x = .ok a) :
    x = .ok a := by
  cases x with
  | error e => cases h
  | ok b => rw [Except.ok.inj h]

theorem exists_of_faults {α : Type} {x : Except ReadError α} {fault : Fault}
    (h : faults x = .error fault) : ∃ rest, x = .error ⟨fault, rest⟩ := by
  cases x with
  | error e => exact ⟨e.rest, by rw [← Except.error.inj h]⟩
  | ok b => cases h

theorem faults_bind {α β : Type} (x : Except ReadError α) (f : α → Except ReadError β) :
    faults (x >>= f) = faults x >>= fun a => faults (f a) := by
  cases x <;> rfl

/-- The text of the value is read as the value says, at any level and whatever stands behind it. -/
def Rereads (style : Style) (room : Nat) (v : Json) : Prop :=
  ∀ (level fuel : Nat) (rest : List Char), 2 * (writeAt style level v).length ≤ fuel →
    EndsNumber rest →
      faults (value fuel room (writeAt style level v ++ rest)) = (·, rest) <$> reread room v

/-! ## Values without others in them -/

/-- The value is read from its text at any level, whatever stands behind it. -/
def Reads (style : Style) (room : Nat) (v : Json) : Prop :=
  ∀ (level fuel : Nat) (rest : List Char), 2 * (writeAt style level v).length ≤ fuel →
    EndsNumber rest → value fuel room (writeAt style level v ++ rest) = .ok (v, rest)

variable {style : Style} {room : Nat}

theorem Reads.rereads {v : Json} (h : Reads style room v) (hv : reread room v = .ok v) :
    Rereads style room v := by
  intro level fuel rest hfuel hrest
  rw [h level fuel rest hfuel hrest, hv]
  rfl

/-- A fixed word is read as what it stands for. -/
theorem reads_word (word : List Char) {v : Json} (hwrite : ∀ level, writeAt style level v = word)
    (hne : word ≠ []) (hread : ∀ fuel rest, value (fuel + 1) room (word ++ rest) = .ok (v, rest)) :
    Reads style room v := by
  intro level fuel rest hfuel _
  rw [hwrite] at hfuel ⊢
  have hpos := List.length_pos_iff.2 hne
  obtain ⟨fuel, rfl⟩ := Nat.exists_eq_succ_of_ne_zero (show fuel ≠ 0 by omega)
  exact hread fuel rest

theorem reads_null : Reads style room .null := by
  refine reads_word "null".toList (fun level => rfl) (by simp) fun fuel rest => ?_
  simp [value, namedValue?, namedValues, List.isPrefixOf?]

theorem reads_bool (b : Bool) : Reads style room (.bool b) := by
  cases b with
  | true =>
    refine reads_word "true".toList (fun level => rfl) (by simp) fun fuel rest => ?_
    simp [value, namedValue?, namedValues, List.isPrefixOf?]
  | false =>
    refine reads_word "false".toList (fun level => rfl) (by simp) fun fuel rest => ?_
    simp [value, namedValue?, namedValues, List.isPrefixOf?]

/-- A number begins like one, and is read by itself. -/
theorem value_of_number {fuel : Nat} {cs : List Char} (hfuel : 2 * cs.length ≤ fuel)
    (rest : List Char) {found : Json × List Char} (h : number (cs ++ rest) = .ok found)
    (hne : cs ≠ []) : value fuel room (cs ++ rest) = .ok found := by
  have hpos := List.length_pos_iff.2 hne
  obtain ⟨fuel, rfl⟩ := Nat.exists_eq_succ_of_ne_zero (show fuel ≠ 0 by omega)
  obtain ⟨negative, d, more, hcs, hd⟩ := number_head h
  rw [hcs] at h ⊢
  rw [value_signText fuel room negative hd, h]

/-- A decimal number is written with as many digits as it takes to read it again. -/
theorem reads_float (x : Float) : Reads style room (.float x) := by
  cases hx : decode x with
  | nan =>
    refine reads_word "NaN".toList (fun level => by simp [writeAt, writeFloat, hx])
      (by simp) fun fuel rest => ?_
    simp [value, namedValue?, namedValues, List.isPrefixOf?, nan_eq hx]
  | infinite negative =>
    have hvalue := infinity_eq hx
    cases negative with
    | true =>
      refine reads_word "-Infinity".toList (fun level => by simp [writeAt, writeFloat, hx])
        (by simp) fun fuel rest => ?_
      simp [value, namedValue?, namedValues, List.isPrefixOf?, hvalue]
    | false =>
      refine reads_word "Infinity".toList (fun level => by simp [writeAt, writeFloat, hx])
        (by simp) fun fuel rest => ?_
      simp [value, namedValue?, namedValues, List.isPrefixOf?, hvalue]
  | finite negative m q =>
    have hwrite : ∀ level, writeAt style level (.float x) = (text x).toList := fun level => by
      rw [writeAt, writeFloat, hx]
    have hnumber : ∀ rest, EndsNumber rest →
        number ((text x).toList ++ rest) = .ok (.float x, rest) :=
      fun rest hrest => number_text hx hrest
    have hne : (text x).toList ≠ [] := by
      intro hnil
      have hempty := hnumber [] (by simp [EndsNumber])
      rw [hnil] at hempty
      simp [number, wholeDigits, plainDigits] at hempty
    intro level fuel rest hfuel hrest
    rw [hwrite] at hfuel ⊢
    exact value_of_number hfuel rest (hnumber rest hrest) hne

/-- A text is read from between its quotes. -/
theorem reads_str (s : String) : Reads style room (.str s) := by
  intro level fuel rest hfuel _
  obtain ⟨text, htext, hread⟩ := stringText_writeString style.asciiOnly s rest
  have hpos : 0 < (writeString style.asciiOnly s).length := by simp [writeString]
  rw [writeAt] at hfuel ⊢
  obtain ⟨fuel, rfl⟩ := Nat.exists_eq_succ_of_ne_zero (show fuel ≠ 0 by omega)
  rw [htext, value, hread]
  rfl

theorem toList_toString_int (n : Int) :
    (toString n).toList = signText (decide (n < 0)) ++ Nat.toDigits 10 n.natAbs := by
  cases n with
  | ofNat k => simp [toString, Int.repr, signText]
  | negSucc k => simp [toString, Int.repr, signText]

theorem isWhole_toDigits (n : Nat) : IsWhole (Nat.toDigits 10 n) := by
  rcases Nat.eq_zero_or_pos n with rfl | hn
  · exact .inl rfl
  · exact .inr ⟨Nat.toDigits_ne_nil, head?_toDigits_ne hn, fun c hc =>
      Nat.isDigit_of_mem_toDigits (by decide) (by decide) hc⟩

/-- A whole number is written as a sign and digits. -/
theorem exists_writeAt_int (style : Style) (level : Nat) (n : Int) :
    ∃ d more, writeAt style level (.int n) = signText (decide (n < 0)) ++ d :: more
      ∧ d.isDigit = true ∧ Nat.toDigits 10 n.natAbs = d :: more := by
  obtain ⟨d, more, hdigits⟩ := List.exists_cons_of_ne_nil (@Nat.toDigits_ne_nil n.natAbs 10)
  refine ⟨d, more, by rw [writeAt, toList_toString_int, hdigits], ?_, hdigits⟩
  exact (isWhole_toDigits n.natAbs).isDigit d (by rw [hdigits]; simp)

/-- A whole number is read again if it does not have too many digits. -/
theorem rereads_int (n : Int) : Rereads style room (.int n) := by
  intro level fuel rest hfuel hrest
  obtain ⟨d, more, hwrite, hd, hdigits⟩ := exists_writeAt_int style level n
  have hnumber := number_int (decide (n < 0)) (isWhole_toDigits n.natAbs) hrest
  rw [plainValue_toDigits] at hnumber
  have hvalue : (if decide (n < 0) = true then -(n.natAbs : Int) else n.natAbs) = n := by
    split
    · next hneg =>
      rw [decide_eq_true_eq] at hneg
      omega
    · next hneg =>
      rw [decide_eq_true_eq] at hneg
      omega
  rw [hvalue, hdigits] at hnumber
  rw [hwrite] at hfuel ⊢
  simp only [List.length_append, List.length_cons] at hfuel
  obtain ⟨fuel, rfl⟩ := Nat.exists_eq_succ_of_ne_zero (show fuel ≠ 0 by omega)
  rw [List.append_assoc, List.cons_append, value_signText fuel room _ hd, ← List.cons_append,
    hnumber, reread, hdigits]
  split <;> rfl

/-! ## How a text begins -/

/-- No value begins like a separator or the end of a container. -/
theorem writeAt_head (style : Style) (level : Nat) (v : Json) :
    ∃ c more, writeAt style level v = c :: more ∧ ¬ EndsValue c := by
  have hread : Reads style 0 v → ∃ c more, writeAt style level v = c :: more ∧ ¬ EndsValue c := by
    intro hv
    have hvalue := hv level _ [] le_rfl (by simp [EndsNumber])
    rw [List.append_nil] at hvalue
    exact value_head hvalue
  cases v with
  | null => exact hread reads_null
  | bool b => exact hread (reads_bool b)
  | float x => exact hread (reads_float x)
  | str s => exact hread (reads_str s)
  | int n =>
    obtain ⟨d, more, hwrite, hd, -⟩ := exists_writeAt_int style level n
    rw [hwrite]
    by_cases hneg : n < 0
    · exact ⟨'-', d :: more, by simp [signText, hneg], by simp [EndsValue, isGap]⟩
    · refine ⟨d, more, by simp [signText, hneg], ?_⟩
      rintro (hgap | rfl | rfl | rfl)
      · simp only [isGap, Bool.or_eq_true, decide_eq_true_eq] at hgap
        rcases hgap with ((rfl | rfl) | rfl) | rfl <;> exact absurd hd (by decide)
      all_goals exact absurd hd (by decide)
  | arr vs => cases vs <;> exact ⟨'[', _, rfl, by simp [EndsValue, isGap]⟩
  | obj fields =>
    match fields with
    | [] => exact ⟨'\x7b', _, rfl, by simp [EndsValue, isGap]⟩
    | (name, v) :: fields => exact ⟨'\x7b', _, rfl, by simp [EndsValue, isGap]⟩

/-- No value begins with a gap. -/
theorem skipGap_writeAt (style : Style) (level : Nat) (v : Json) (rest : List Char) :
    skipGap (writeAt style level v ++ rest) = writeAt style level v ++ rest := by
  obtain ⟨c, more, hwrite, hc⟩ := writeAt_head style level v
  rw [hwrite]
  exact skipGap_cons (by simpa using fun hgap => hc (.inl hgap)) _

theorem skipGap_writeString (asciiOnly : Bool) (s : String) (rest : List Char) :
    skipGap (writeString asciiOnly s ++ rest) = writeString asciiOnly s ++ rest :=
  skipGap_cons rfl _

/-! ## Containers -/

theorem isGap_lineBreak (style : Style) (level : Nat) :
    ∀ c ∈ style.lineBreak level, isGap c = true := by
  unfold Style.lineBreak
  split
  · simp
  · intro c hc
    rcases List.mem_cons.1 hc with rfl | hc
    · rfl
    · rw [List.eq_of_mem_replicate hc]
      rfl

/-- A number ends at a line break, or at the sign that comes without one. -/
theorem endsNumber_lineBreak {c : Char} (h : c.isDigit = false ∧ c ≠ '.' ∧ c ≠ 'e' ∧ c ≠ 'E')
    (level : Nat) (rest : List Char) : EndsNumber (style.lineBreak level ++ c :: rest) := by
  unfold Style.lineBreak
  split
  · exact endsNumber_cons h rest
  · exact endsNumber_cons (by decide) _

/-- A separator is a comma and a gap. -/
theorem separator_eq (style : Style) (level : Nat) :
    ∃ gap, style.separator level = ',' :: gap ∧ ∀ c ∈ gap, isGap c = true := by
  unfold Style.separator
  split
  · exact ⟨[' '], rfl, by simp [isGap]⟩
  · exact ⟨_, rfl, isGap_lineBreak style level⟩

/-- Behind an item stands a separator or the end of the list. -/
theorem endsNumber_writeItems (style : Style) (level outer : Nat) (vs : List Json)
    (rest : List Char) :
    EndsNumber (writeItems style level vs ++ (style.lineBreak outer ++ ']' :: rest)) := by
  cases vs with
  | nil => exact endsNumber_lineBreak (by decide) outer rest
  | cons v vs =>
    obtain ⟨gap, hgap, -⟩ := separator_eq style level
    rw [writeItems, hgap]
    exact endsNumber_cons (by decide) _

/-- The items of a list are read one by one, with its closing bracket. -/
theorem items_append {v : Json} {vs : List Json} (hv : Rereads style room v)
    (hvs : ∀ w ∈ vs, Rereads style room w) (level outer : Nat) {fuel : Nat} (rest : List Char)
    (hfuel : 2 * (writeAt style level v ++ (writeItems style level vs
      ++ (style.lineBreak outer ++ [']']))).length ≤ fuel) :
    faults (items fuel room (writeAt style level v ++ (writeItems style level vs
      ++ (style.lineBreak outer ++ ']' :: rest)))) = (·, rest) <$> rereadItems room (v :: vs) := by
  induction vs generalizing v fuel with
  | nil =>
    simp only [List.length_append, List.length_singleton] at hfuel
    obtain ⟨fuel, rfl⟩ := Nat.exists_eq_succ_of_ne_zero (show fuel ≠ 0 by omega)
    rw [items, faults_bind,
      hv level fuel _ (by omega) (endsNumber_writeItems style level outer [] rest), bind_map_left,
      rereadItems, map_bind]
    refine bind_congr fun w => ?_
    simp only [writeItems, List.nil_append, skipGap_append (isGap_lineBreak style outer),
      skipGap_cons (show isGap ']' = false from rfl)]
    rfl
  | cons u vs ih =>
    obtain ⟨gap, hgap, hisGap⟩ := separator_eq style level
    have hothers : ∀ w ∈ vs, Rereads style room w := fun w hw => hvs w (by simp [hw])
    simp only [writeItems, hgap, List.length_append, List.length_cons, List.length_nil] at hfuel
    obtain ⟨fuel, rfl⟩ := Nat.exists_eq_succ_of_ne_zero (show fuel ≠ 0 by omega)
    have hmore := @ih u (hvs u (by simp)) hothers fuel
      (by simp only [List.length_append, List.length_cons, List.length_nil]; omega)
    rw [items, faults_bind,
      hv level fuel _ (by omega) (endsNumber_writeItems style level outer (u :: vs) rest),
      bind_map_left, rereadItems, map_bind]
    refine bind_congr fun w => ?_
    simp only [writeItems, hgap, List.cons_append, List.append_assoc,
      skipGap_cons (show isGap ',' = false from rfl), skipGap_append hisGap, skipGap_writeAt]
    rw [faults_bind, hmore, bind_map_left, map_bind]
    exact bind_congr fun ws => rfl

/-- A list is read again if there is room for it and its items. -/
theorem rereads_arr {vs : List Json} (hvs : ∀ v ∈ vs, Rereads style room v) :
    Rereads style (room + 1) (.arr vs) := by
  intro level fuel rest hfuel _
  cases vs with
  | nil =>
    have hpos : fuel ≠ 0 := by
      simp only [writeAt, List.length_cons] at hfuel
      omega
    obtain ⟨fuel, rfl⟩ := Nat.exists_eq_succ_of_ne_zero hpos
    rfl
  | cons v vs =>
    simp only [writeAt, List.length_append, List.length_cons, List.length_nil] at hfuel
    obtain ⟨fuel, rfl⟩ := Nat.exists_eq_succ_of_ne_zero (show fuel ≠ 0 by omega)
    have hothers : ∀ w ∈ vs, Rereads style room w := fun w hw => hvs w (by simp [hw])
    have hitems := @items_append style room v vs (hvs v (by simp)) hothers (level + 1) level fuel
      rest (by simp only [List.length_append, List.length_cons, List.length_nil]; omega)
    simp only [writeAt, List.cons_append, List.append_assoc, List.nil_append]
    rw [value]
    simp only [skipGap_append (isGap_lineBreak style (level + 1)), skipGap_writeAt]
    split
    · next heq =>
      obtain ⟨c, more, hwrite, hc⟩ := writeAt_head style (level + 1) v
      rw [hwrite] at heq
      obtain ⟨rfl, -⟩ := List.cons.inj heq
      exact absurd (.inr (.inl rfl)) hc
    · rw [faults_bind, hitems, bind_map_left, reread, Functor.map_map]
      exact (map_eq_pure_bind _ _).symm

/-- Behind a member stands a separator or the end of the object. -/
theorem endsNumber_writeFields (style : Style) (level outer : Nat) (fields : Fields)
    (rest : List Char) :
    EndsNumber (writeFields style level fields ++ (style.lineBreak outer ++ '\x7d' :: rest)) := by
  match fields with
  | [] => exact endsNumber_lineBreak (by decide) outer rest
  | (name, v) :: fields =>
    obtain ⟨gap, hgap, -⟩ := separator_eq style level
    rw [writeFields, hgap]
    exact endsNumber_cons (by decide) _

/-- Reading the next member of an object. -/
theorem members_succ {v : Json} (hv : Rereads style room v) (name : String) (level : Nat)
    {fuel : Nat} (hfuel : 2 * (writeAt style level v).length ≤ fuel) {rest : List Char}
    (hrest : EndsNumber rest) :
    faults (members (fuel + 1) room (writeString style.asciiOnly name
        ++ ':' :: ' ' :: (writeAt style level v ++ rest))) = (do
      let w ← reread room v
      faults (match skipGap rest with
        | '\x7d' :: rest => return ([(name, w)], rest)
        | ',' :: rest => do
          let (more, rest) ← members fuel room (skipGap rest)
          return ((name, w) :: more, rest)
        | rest => .error ⟨.expectingComma, rest⟩)) := by
  obtain ⟨text, htext, hname⟩ := stringText_writeString style.asciiOnly name
    (':' :: ' ' :: (writeAt style level v ++ rest))
  have hspace : skipGap (' ' :: (writeAt style level v ++ rest)) = writeAt style level v ++ rest :=
    skipGap_writeAt style level v rest
  rw [htext, members, hname]
  change faults (value fuel room (skipGap (' ' :: (writeAt style level v ++ rest))) >>= _) = _
  rw [hspace, faults_bind, hv level fuel rest hfuel hrest]
  exact bind_map_left _ _ _

/-- The members of an object are read one by one, with its closing brace. -/
theorem members_append {name : String} {v : Json} {fields : Fields} (hv : Rereads style room v)
    (hfields : ∀ f ∈ fields, Rereads style room f.2) (level outer : Nat) {fuel : Nat}
    (rest : List Char)
    (hfuel : 2 * (writeString style.asciiOnly name ++ ':' :: ' ' :: (writeAt style level v
      ++ (writeFields style level fields ++ (style.lineBreak outer ++ ['\x7d'])))).length ≤ fuel) :
    faults (members fuel room (writeString style.asciiOnly name ++ ':' :: ' '
      :: (writeAt style level v ++ (writeFields style level fields
        ++ (style.lineBreak outer ++ '\x7d' :: rest)))))
      = (·, rest) <$> rereadFields room ((name, v) :: fields) := by
  induction fields generalizing name v fuel with
  | nil =>
    simp only [List.length_append, List.length_cons, List.length_nil] at hfuel
    obtain ⟨fuel, rfl⟩ := Nat.exists_eq_succ_of_ne_zero (show fuel ≠ 0 by omega)
    rw [members_succ hv name level (by omega) (endsNumber_writeFields style level outer [] rest),
      rereadFields, map_bind]
    refine bind_congr fun w => ?_
    simp only [writeFields, List.nil_append, skipGap_append (isGap_lineBreak style outer),
      skipGap_cons (show isGap '\x7d' = false from rfl)]
    rfl
  | cons f fields ih =>
    obtain ⟨other, u⟩ := f
    obtain ⟨gap, hgap, hisGap⟩ := separator_eq style level
    have hu : Rereads style room u := hfields (other, u) (by simp)
    have hothers : ∀ g ∈ fields, Rereads style room g.2 := fun g hg => hfields g (by simp [hg])
    simp only [writeFields, hgap, List.length_append, List.length_cons, List.length_nil] at hfuel
    obtain ⟨fuel, rfl⟩ := Nat.exists_eq_succ_of_ne_zero (show fuel ≠ 0 by omega)
    have hmore := @ih other u hu hothers fuel
      (by simp only [List.length_append, List.length_cons, List.length_nil]; omega)
    rw [members_succ hv name level (by omega)
      (endsNumber_writeFields style level outer ((other, u) :: fields) rest), rereadFields,
      map_bind]
    refine bind_congr fun w => ?_
    simp only [writeFields, hgap, List.cons_append, List.append_assoc,
      skipGap_cons (show isGap ',' = false from rfl), skipGap_append hisGap, skipGap_writeString]
    rw [faults_bind, hmore, bind_map_left, map_bind]
    exact bind_congr fun ws => rfl

/-- An object is read with each name once. -/
theorem rereads_obj {fields : Fields} (hfields : ∀ f ∈ fields, Rereads style room f.2) :
    Rereads style (room + 1) (.obj fields) := by
  intro level fuel rest hfuel _
  match fields with
  | [] =>
    obtain ⟨fuel, rfl⟩ := Nat.exists_eq_succ_of_ne_zero
      (show fuel ≠ 0 by simp [writeAt] at hfuel; omega)
    rfl
  | (name, v) :: fields =>
    have hv : Rereads style room v := hfields (name, v) (by simp)
    have hothers : ∀ g ∈ fields, Rereads style room g.2 := fun g hg => hfields g (by simp [hg])
    simp only [writeAt, List.length_append, List.length_cons, List.length_nil] at hfuel
    obtain ⟨fuel, rfl⟩ := Nat.exists_eq_succ_of_ne_zero (show fuel ≠ 0 by omega)
    have hmembers := @members_append style room name v fields hv hothers (level + 1) level fuel rest
      (by simp only [List.length_append, List.length_cons, List.length_nil]; omega)
    simp only [writeAt, List.cons_append, List.append_assoc, List.nil_append]
    rw [value]
    simp only [skipGap_append (isGap_lineBreak style (level + 1)), skipGap_writeString]
    split
    · next heq => simp [writeString] at heq
    · rw [faults_bind, hmembers, bind_map_left, reread, Functor.map_map]
      exact (map_eq_pure_bind _ _).symm

/-! ## Any value -/

/-- Where no container may stand, one is too deep. -/
theorem rereads_zero {v : Json} (hwrite : ∀ level, ∃ more, writeAt style level v = '[' :: more
      ∨ writeAt style level v = '\x7b' :: more) (hv : reread 0 v = .error .tooDeep) :
    Rereads style 0 v := by
  intro level fuel rest hfuel _
  obtain ⟨more, hmore⟩ := hwrite level
  rw [hv]
  rcases hmore with hmore | hmore <;>
    rw [hmore] at hfuel ⊢ <;>
    obtain ⟨fuel, rfl⟩ := Nat.exists_eq_succ_of_ne_zero
      (show fuel ≠ 0 by simp only [List.length_cons] at hfuel; omega) <;>
    rfl

mutual

theorem rereads (style : Style) : (room : Nat) → (v : Json) → Rereads style room v
  | _, .null => reads_null.rereads rfl
  | _, .bool b => (reads_bool b).rereads rfl
  | _, .int n => rereads_int n
  | _, .float x => (reads_float x).rereads rfl
  | _, .str s => (reads_str s).rereads rfl
  | 0, .arr vs => rereads_zero (fun level => by cases vs <;> exact ⟨_, .inl rfl⟩) rfl
  | 0, .obj fields => rereads_zero (fun level => by
      match fields with
      | [] => exact ⟨_, .inr rfl⟩
      | (name, v) :: rest => exact ⟨_, .inr rfl⟩) rfl
  | room + 1, .arr vs => rereads_arr (rereads_items style room vs)
  | room + 1, .obj fields => rereads_obj (rereads_fields style room fields)

theorem rereads_items (style : Style) (room : Nat) : (vs : List Json) →
    ∀ v ∈ vs, Rereads style room v
  | [] => by simp
  | v :: rest => List.forall_mem_cons.2 ⟨rereads style room v, rereads_items style room rest⟩

theorem rereads_fields (style : Style) (room : Nat) : (fields : List (String × Json)) →
    ∀ f ∈ fields, Rereads style room f.2
  | [] => by simp
  | (name, v) :: rest =>
    List.forall_mem_cons.2 ⟨rereads style room v, rereads_fields style room rest⟩

end

mutual

/-- A text that was written is a text of a value. -/
theorem reread_ne_expectingValue : (room : Nat) → (v : Json) →
    reread room v ≠ .error .expectingValue
  | _, .null | _, .bool _ | _, .float _ | _, .str _ => by simp [reread]
  | _, .int n => by
    rw [reread]
    split <;> simp
  | 0, .arr _ | 0, .obj _ => by simp [reread]
  | room + 1, .arr vs => by
    intro h
    rw [reread, map_eq_pure_bind] at h
    rcases error_of_bind_error h with h | ⟨_, h⟩
    · exact rereadItems_ne_expectingValue room vs h
    · cases h
  | room + 1, .obj fields => by
    intro h
    rw [reread, map_eq_pure_bind] at h
    rcases error_of_bind_error h with h | ⟨_, h⟩
    · exact rereadFields_ne_expectingValue room fields h
    · cases h

theorem rereadItems_ne_expectingValue (room : Nat) : (vs : List Json) →
    rereadItems room vs ≠ .error .expectingValue
  | [] => by simp [rereadItems]
  | v :: rest => by
    intro h
    rw [rereadItems] at h
    rcases error_of_bind_error h with h | ⟨_, h⟩
    · exact reread_ne_expectingValue room v h
    · rcases error_of_bind_error h with h | ⟨_, h⟩
      · exact rereadItems_ne_expectingValue room rest h
      · cases h

theorem rereadFields_ne_expectingValue (room : Nat) : (fields : List (String × Json)) →
    rereadFields room fields ≠ .error .expectingValue
  | [] => by simp [rereadFields]
  | (name, v) :: rest => by
    intro h
    rw [rereadFields] at h
    rcases error_of_bind_error h with h | ⟨_, h⟩
    · exact reread_ne_expectingValue room v h
    · rcases error_of_bind_error h with h | ⟨_, h⟩
      · exact rereadFields_ne_expectingValue room rest h
      · cases h

end

/-- **What is read from the text of a value depends on the value alone.** -/
theorem faults_read_write (style : Style) (v : Json) :
    faults (read (write style v)) = reread maxDepth v := by
  obtain ⟨c, more, hwrite, hc⟩ := writeAt_head style 0 v
  have hmark : (writeAt style 0 v).head? ≠ some '\ufeff' := by
    rw [hwrite]
    rintro ⟨⟩
    exact hc (.inr (.inr (.inr rfl)))
  have hskip := skipGap_writeAt style 0 v []
  have hread := rereads style maxDepth v 0 (2 * (writeAt style 0 v).length + 2) [] (by omega)
    (by simp [EndsNumber])
  rw [List.append_nil] at hskip hread
  rw [read, write, String.toList_ofList, readChars, if_neg hmark, hskip, faults_bind, hread,
    bind_map_left]
  exact bind_pure _

/-! ## Values that fit -/

/-- The value has no number with too many digits, no name twice in an object, and at most `room`
containers in one another. -/
inductive Fits : Nat → Json → Prop
  | null {room : Nat} : Fits room .null
  | bool {room : Nat} (b : Bool) : Fits room (.bool b)
  | int {room : Nat} {n : Int} (hn : (Nat.toDigits 10 n.natAbs).length ≤ maxDigits) :
    Fits room (.int n)
  | float {room : Nat} (x : Float) : Fits room (.float x)
  | str {room : Nat} (s : String) : Fits room (.str s)
  | arr {room : Nat} {items : List Json} (hitems : ∀ v ∈ items, Fits room v) :
    Fits (room + 1) (.arr items)
  | obj {room : Nat} {fields : Fields} (hnames : fields.names.Nodup)
    (hfields : ∀ f ∈ fields, Fits room f.2) : Fits (room + 1) (.obj fields)

/-- What fits still fits into more room. -/
theorem Fits.mono {v : Json} (h : Fits room v) {more : Nat} (hmore : room ≤ more) :
    Fits more v := by
  induction h generalizing more with
  | null => exact .null
  | bool b => exact .bool b
  | int hn => exact .int hn
  | float x => exact .float x
  | str s => exact .str s
  | arr _ ih =>
    obtain ⟨more, rfl⟩ := Nat.exists_eq_succ_of_ne_zero (show more ≠ 0 by omega)
    exact .arr fun v hv => ih v hv (by omega)
  | obj hnames _ ih =>
    obtain ⟨more, rfl⟩ := Nat.exists_eq_succ_of_ne_zero (show more ≠ 0 by omega)
    exact .obj hnames fun f hf => ih f hf (by omega)

/-- A list of items that are read as they are is read as it is. -/
theorem rereadItems_eq_ok {items : List Json} (h : ∀ v ∈ items, reread room v = .ok v) :
    rereadItems room items = .ok items := by
  induction items with
  | nil => rfl
  | cons v rest ih =>
    obtain ⟨hv, hrest⟩ := List.forall_mem_cons.1 h
    rw [rereadItems, hv, ih hrest]
    rfl

theorem rereadFields_eq_ok {fields : Fields} (h : ∀ f ∈ fields, reread room f.2 = .ok f.2) :
    rereadFields room fields = .ok fields := by
  induction fields with
  | nil => rfl
  | cons f rest ih =>
    obtain ⟨name, v⟩ := f
    obtain ⟨hv, hrest⟩ := List.forall_mem_cons.1 h
    rw [rereadFields, hv, ih hrest]
    rfl

/-- A value that fits is read back. -/
theorem Fits.reread {v : Json} (h : Fits room v) : reread room v = .ok v := by
  induction h with
  | null => rfl
  | bool b => rfl
  | int hn => rw [Json.reread, if_neg (not_lt.2 hn)]
  | float x => rfl
  | str s => rfl
  | arr _ ih =>
    rw [Json.reread, rereadItems_eq_ok ih]
    rfl
  | obj hnames _ ih =>
    rw [Json.reread, rereadFields_eq_ok ih]
    exact congrArg (fun fields => Except.ok (Json.obj fields)) (Fields.ofList_of_nodup hnames)

/-- **A value that fits is read back from its text.** -/
theorem read_write {v : Json} (h : Fits maxDepth v) (style : Style) :
    read (write style v) = .ok v :=
  eq_ok_of_faults ((faults_read_write style v).trans h.reread)

/-- An object with members that fit is read back with each name once. -/
theorem read_write_obj {fields : Fields} (h : ∀ f ∈ fields, Fits (maxDepth - 1) f.2)
    (style : Style) :
    read (write style (.obj fields)) = .ok (.obj (Fields.ofList fields)) := by
  have hfields := rereadFields_eq_ok fun f hf => (h f hf).reread
  refine eq_ok_of_faults ((faults_read_write style _).trans ?_)
  rw [show maxDepth = (maxDepth - 1) + 1 from rfl, reread, hfields]
  rfl

/-! ## Values that were read -/

theorem isDigit_wholeDigits (cs : List Char) : ∀ c ∈ (wholeDigits cs).1, c.isDigit = true := by
  unfold wholeDigits
  split
  · simp
  · exact fun c hc => List.mem_takeWhile_imp hc

/-- A number fits anywhere. -/
theorem fits_of_number {cs rest : List Char} {v : Json} (h : number cs = .ok (v, rest)) :
    Fits room v := by
  obtain ⟨negative, d, more, rfl, hd⟩ := number_head h
  rw [number_signText negative hd, numberBehind] at h
  have hdigits := isDigit_wholeDigits (d :: more)
  have hpos := List.length_pos_iff.2 (wholeDigits_ne_nil hd more)
  set whole := (wholeDigits (d :: more)).1
  dsimp only at h
  split at h
  · split at h
    · simp at h
    · next hlength =>
      obtain ⟨rfl, -⟩ := Prod.mk.inj (Except.ok.inj h)
      have habs : (if negative = true then -(plainValue whole : Int)
          else (plainValue whole : Int)).natAbs = plainValue whole := by
        split <;> simp
      refine .int ?_
      rw [habs]
      exact ((Nat.length_toDigits_le_iff (by decide) hpos).2 (plainValue_lt hdigits)).trans
        (not_lt.1 hlength)
  · obtain ⟨rfl, -⟩ := Prod.mk.inj (Except.ok.inj h)
    exact .float _

theorem fits_of_namedValue? {cs rest : List Char} {v : Json}
    (h : namedValue? cs = some (v, rest)) : Fits room v := by
  obtain ⟨⟨word, w⟩, hword, hv⟩ := List.exists_of_findSome?_eq_some h
  obtain ⟨left, -, hleft⟩ := Option.map_eq_some_iff.1 hv
  obtain ⟨rfl, -⟩ := Prod.mk.inj hleft
  simp only [namedValues, List.mem_cons, Prod.mk.injEq, List.not_mem_nil, or_false] at hword
  rcases hword with ⟨-, rfl⟩ | ⟨-, rfl⟩ | ⟨-, rfl⟩ | ⟨-, rfl⟩ | ⟨-, rfl⟩ | ⟨-, rfl⟩
  · exact .null
  · exact .bool _
  · exact .bool _
  · exact .float _
  · exact .float _
  · exact .float _

/-- Members that fit make an object that fits into one level more. -/
theorem fits_ofList {members : Fields} (h : ∀ f ∈ members, Fits room f.2) :
    Fits (room + 1) (.obj (Fields.ofList members)) := by
  refine .obj (Fields.nodup_ofList members) fun f hf => ?_
  obtain ⟨g, hg, hfg⟩ := Fields.mem_ofList hf
  exact hfg ▸ h g hg

section Steps

variable {fuel : Nat}

/-- A value fits if its items and members do, which are read with one step less. -/
theorem fits_value_succ
    (hitems : ∀ {room cs vs rest}, items fuel room cs = .ok (vs, rest) → ∀ v ∈ vs, Fits room v)
    (hmembers : ∀ {room cs fields rest}, members fuel room cs = .ok (fields, rest) →
      ∀ f ∈ fields, Fits room f.2)
    {room : Nat} {cs : List Char} {v : Json} {rest : List Char}
    (h : value (fuel + 1) room cs = .ok (v, rest)) : Fits room v := by
  rw [value.eq_def] at h
  dsimp only at h
  split at h
  · obtain ⟨⟨s, left⟩, -, hs⟩ := exists_of_bind_ok h
    obtain ⟨rfl, -⟩ := Prod.mk.inj (Except.ok.inj hs)
    exact .str s
  · simp at h
  · simp at h
  · split at h
    · obtain ⟨rfl, -⟩ := Prod.mk.inj (Except.ok.inj h)
      exact .arr (by simp)
    · obtain ⟨⟨vs, left⟩, hvs, hv⟩ := exists_of_bind_ok h
      obtain ⟨rfl, -⟩ := Prod.mk.inj (Except.ok.inj hv)
      exact .arr (hitems hvs)
  · split at h
    · obtain ⟨rfl, -⟩ := Prod.mk.inj (Except.ok.inj h)
      exact .obj (by simp [Fields.names]) (by simp)
    · obtain ⟨⟨fields, left⟩, hfields, hv⟩ := exists_of_bind_ok h
      obtain ⟨rfl, -⟩ := Prod.mk.inj (Except.ok.inj hv)
      exact fits_ofList (hmembers hfields)
  · split at h
    · next found hfound =>
      obtain rfl := Except.ok.inj h
      exact fits_of_namedValue? hfound
    · exact fits_of_number h

theorem fits_items_succ
    (hvalue : ∀ {room cs v rest}, value fuel room cs = .ok (v, rest) → Fits room v)
    (hitems : ∀ {room cs vs rest}, items fuel room cs = .ok (vs, rest) → ∀ v ∈ vs, Fits room v)
    {room : Nat} {cs : List Char} {vs : List Json} {rest : List Char}
    (h : items (fuel + 1) room cs = .ok (vs, rest)) : ∀ v ∈ vs, Fits room v := by
  rw [items] at h
  obtain ⟨⟨v, left⟩, hv, h⟩ := exists_of_bind_ok h
  dsimp only at h
  split at h
  · obtain ⟨rfl, -⟩ := Prod.mk.inj (Except.ok.inj h)
    simpa using hvalue hv
  · obtain ⟨⟨more, left⟩, hmore, h⟩ := exists_of_bind_ok h
    obtain ⟨rfl, -⟩ := Prod.mk.inj (Except.ok.inj h)
    exact List.forall_mem_cons.2 ⟨hvalue hv, hitems hmore⟩
  · simp at h

theorem fits_members_succ
    (hvalue : ∀ {room cs v rest}, value fuel room cs = .ok (v, rest) → Fits room v)
    (hmembers : ∀ {room cs fields rest}, members fuel room cs = .ok (fields, rest) →
      ∀ f ∈ fields, Fits room f.2)
    {room : Nat} {cs : List Char} {fields : Fields} {rest : List Char}
    (h : members (fuel + 1) room cs = .ok (fields, rest)) : ∀ f ∈ fields, Fits room f.2 := by
  rw [members.eq_def] at h
  dsimp only at h
  split at h
  · obtain ⟨⟨name, left⟩, -, h⟩ := exists_of_bind_ok h
    dsimp only at h
    split at h
    · obtain ⟨⟨v, left⟩, hv, h⟩ := exists_of_bind_ok h
      dsimp only at h
      split at h
      · obtain ⟨rfl, -⟩ := Prod.mk.inj (Except.ok.inj h)
        simpa using hvalue hv
      · obtain ⟨⟨more, left⟩, hmore, h⟩ := exists_of_bind_ok h
        obtain ⟨rfl, -⟩ := Prod.mk.inj (Except.ok.inj h)
        exact List.forall_mem_cons.2 ⟨hvalue hv, hmembers hmore⟩
      · simp at h
    · simp at h
  · simp at h

end Steps

/-- What is read fits. The induction is on the steps of the reader, for values, items and members
at once. -/
theorem fits_of_value (fuel : Nat) :
    (∀ {room cs v rest}, value fuel room cs = .ok (v, rest) → Fits room v)
      ∧ (∀ {room cs vs rest}, items fuel room cs = .ok (vs, rest) → ∀ v ∈ vs, Fits room v)
      ∧ ∀ {room cs fields rest}, members fuel room cs = .ok (fields, rest) →
        ∀ f ∈ fields, Fits room f.2 := by
  induction fuel with
  | zero => exact ⟨by simp [value], by simp [items], by simp [members]⟩
  | succ fuel ih =>
    obtain ⟨hvalue, hitems, hmembers⟩ := ih
    exact ⟨fits_value_succ hitems hmembers, fits_items_succ hvalue hitems,
      fits_members_succ hvalue hmembers⟩

/-- **What is read from a text fits.** -/
theorem fits_of_read {text : String} {v : Json} (h : read text = .ok v) : Fits maxDepth v := by
  rw [read, readChars] at h
  split at h
  · simp at h
  · obtain ⟨⟨w, left⟩, hw, h⟩ := exists_of_bind_ok h
    dsimp only at h
    split at h
    · obtain rfl := Except.ok.inj h
      exact (fits_of_value _).1 hw
    · simp at h

end Json

end Retrace
