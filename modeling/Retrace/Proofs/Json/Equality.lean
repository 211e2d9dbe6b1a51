/-
Equality of values.

Values that are equal to the same value are equal (`same_trans`): numbers by their size, whatever
their kind, and containers by what they hold. The induction is on the first value; the members of an
object are followed by their names through the second object to the third.

A value is not always equal to itself in this sense, since an object could have a name twice. Where
one value is to stand for another, both may also be one and the same (`Equal`).
-/
import Retrace.Proofs.Decimal.Whole
import Retrace.Json.Value

set_option autoImplicit false

namespace Retrace

/-! ## Numbers -/

namespace Number

theorem same_trans {a b c : Number} (h : a.same b = true) (h' : b.same c = true) :
    a.same c = true := by
  -- not-a-number is the same as itself and equal to nothing, so the two ways never meet
  have hnan : ∀ {x y : Float}, (x == y) = true → x.isNaN = y.isNaN := by
    intro x y hxy
    obtain ⟨hx, hy, -⟩ := Float.beq_iff_ne_nan_and_eq.1 hxy
    rw [Float.isNaN_eq_decide_eq_nan, Float.isNaN_eq_decide_eq_nan, decide_eq_false hx,
      decide_eq_false hy]
  have hnotInt : ∀ {x : Float} {n : Int}, x.isNaN = true → Decimal.isInt x n = false := by
    intro x n hx
    rw [Float.isNaN_eq_decide_eq_nan, decide_eq_true_iff] at hx
    rw [hx]
    rfl
  cases a <;> cases b <;> cases c <;> simp only [same, Bool.or_eq_true, Bool.and_eq_true] at h h' ⊢
  case int.int.int => rwa [beq_iff_eq.1 h]
  case int.int.float => rwa [beq_iff_eq.1 h]
  case int.float.int => exact beq_iff_eq.2 (Decimal.eq_of_isInt h h')
  case int.float.float =>
    rcases h' with h' | ⟨hx, -⟩
    · rwa [← Decimal.isInt_eq_of_beq h']
    · rw [hnotInt hx] at h
      cases h
  case float.int.int => rwa [← beq_iff_eq.1 h']
  case float.int.float => exact .inl (Decimal.beq_of_isInt h h')
  case float.float.int =>
    rcases h with h | ⟨-, hy⟩
    · rwa [Decimal.isInt_eq_of_beq h]
    · rw [hnotInt hy] at h'
      cases h'
  case float.float.float =>
    rcases h with h | ⟨hx, hy⟩ <;> rcases h' with h' | ⟨hy', hz⟩
    · exact .inl (Decimal.beq_trans h h')
    · exact .inr ⟨(hnan h).trans hy', hz⟩
    · exact .inr ⟨hx, (hnan h').symm.trans hy⟩
    · exact .inr ⟨hx, hz⟩

end Number

namespace Json

/-- Numbers and truth values are equal to such values only, and by their size. -/
theorem same_of_number? {a : Json} {x : Number} (ha : a.number? = some x) (b : Json) :
    a.same b = true ↔ ∃ y, b.number? = some y ∧ x.same y = true := by
  cases a <;> cases ha <;> cases b <;> simp [same, number?]

/-- Objects are equal by lookup: each member has an equal one under its name. -/
theorem sameFields_iff (fields other : List (String × Json)) :
    sameFields fields other = true
      ↔ ∀ f ∈ fields, ∃ w, other.lookup f.1 = some w ∧ f.2.same w = true := by
  induction fields with
  | nil => simp [sameFields]
  | cons f rest ih =>
    obtain ⟨name, v⟩ := f
    rw [sameFields, Bool.and_eq_true, List.forall_mem_cons, ih]
    refine and_congr_left fun _ => ?_
    cases other.lookup name <;> simp

/-- What equals a number is a number, or one of the two truth values that count as numbers. -/
theorem same_trans_of_number? {a b c : Json} {x : Number} (ha : a.number? = some x)
    (h : a.same b = true) (h' : b.same c = true) : a.same c = true := by
  obtain ⟨y, hb, hxy⟩ := (same_of_number? ha b).1 h
  obtain ⟨z, hc, hyz⟩ := (same_of_number? hb c).1 h'
  exact (same_of_number? ha c).2 ⟨z, hc, Number.same_trans hxy hyz⟩

mutual

/-- **Values that are equal to the same value are equal.** -/
theorem same_trans : (a : Json) → {b c : Json} → a.same b = true → b.same c = true →
    a.same c = true
  | .null, b, c, h, h' => by
    cases b <;> simp [same, number?] at h
    exact h'
  | .str s, b, c, h, h' => by
    cases b <;> simp [same, number?] at h
    rwa [h]
  | .arr items, b, c, h, h' => by
    cases b <;> simp [same, number?] at h
    cases c <;> simp [same, number?] at h'
    rw [same]
    exact sameItems_trans items h h'
  | .obj fields, b, c, h, h' => by
    cases b <;> simp [same, number?] at h
    cases c <;> simp [same, number?] at h'
    rw [same, Bool.and_eq_true, beq_iff_eq]
    exact ⟨h.1.trans h'.1, sameFields_trans fields h.2 h'.2⟩
  | .bool t, b, c, h, h' => same_trans_of_number? rfl h h'
  | .int n, b, c, h, h' => same_trans_of_number? rfl h h'
  | .float x, b, c, h, h' => same_trans_of_number? rfl h h'

theorem sameItems_trans : (as : List Json) → {bs cs : List Json} → sameItems as bs = true →
    sameItems bs cs = true → sameItems as cs = true
  | [], bs, cs, h, h' => by
    cases bs with
    | nil => exact h'
    | cons b rest => simp [sameItems] at h
  | a :: as, bs, cs, h, h' => by
    cases bs with
    | nil => simp [sameItems] at h
    | cons b bs =>
      cases cs with
      | nil => simp [sameItems] at h'
      | cons c cs =>
        rw [sameItems, Bool.and_eq_true] at h h' ⊢
        exact ⟨same_trans a h.1 h'.1, sameItems_trans as h.2 h'.2⟩

theorem sameFields_trans : (fields : List (String × Json)) → {others more : List (String × Json)} →
    sameFields fields others = true → sameFields others more = true →
    sameFields fields more = true
  | [], others, more, h, h' => rfl
  | (name, v) :: rest, others, more, h, h' => by
    obtain ⟨⟨w, hw, hvw⟩, -⟩ := List.forall_mem_cons.1 ((sameFields_iff _ _).1 h)
    rw [sameFields, Bool.and_eq_true] at h ⊢
    refine ⟨?_, sameFields_trans rest h.2 h'⟩
    have hmem : (name, w) ∈ others := by
      obtain ⟨before, behind, heq, -⟩ := List.lookup_eq_some_iff.1 hw
      rw [heq]
      exact List.mem_append_right _ List.mem_cons_self
    obtain ⟨z, hz, hwz⟩ := (sameFields_iff _ _).1 h' (name, w) hmem
    rw [hz]
    exact same_trans v hvw hwz

end

/-- The values are one and the same, or equal in size and content. -/
def Equal (u v : Json) : Prop := u = v ∨ u.same v = true

theorem Equal.trans {u v w : Json} (h : u.Equal v) (h' : v.Equal w) : u.Equal w := by
  rcases h with rfl | h
  · exact h'
  · rcases h' with rfl | h'
    · exact .inr h
    · exact .inr (same_trans u h h')

/-- A value that has not changed is equal to the one before. -/
theorem equal_of_not_differs {u v : Json} (h : u.differs v = false) : u.Equal v := by
  right
  unfold differs at h
  split at h
  · next x y =>
    have hxy : (x == y) = true := by simpa [bne] using h
    show (x == y || x.isNaN && y.isNaN) = true
    rw [hxy, Bool.true_or]
  · simpa using h

end Json

end Retrace
