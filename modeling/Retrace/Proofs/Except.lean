/-
Steps that can fail.

What was done in several steps succeeded only if each step did, and a row of steps succeeds if each
of them does.
-/
import Mathlib.Data.List.Forall2

set_option autoImplicit false

namespace Retrace

variable {ε α β γ δ : Type}

/-- Where a step after another one succeeds, so does the first. -/
theorem exists_of_bind_ok {x : Except ε α} {f : α → Except ε β} {b : β} (h : x >>= f = .ok b) :
    ∃ a, x = .ok a ∧ f a = .ok b := by
  cases x with
  | error e => simp [bind, Except.bind] at h
  | ok a => exact ⟨a, rfl, h⟩

/-- Two steps succeed if the first does, and then the second. -/
theorem exists_bind_ok_iff {x : Except ε α} {f : α → Except ε β} :
    (∃ b, x >>= f = .ok b) ↔ ∃ a, x = .ok a ∧ ∃ b, f a = .ok b := by
  cases x with
  | error e => simp [bind, Except.bind]
  | ok a => simp [bind, Except.bind]

/-- What is made of a step succeeds if the step does. -/
theorem map_eq_ok_iff {x : Except ε α} {f : α → β} {b : β} :
    f <$> x = .ok b ↔ ∃ a, x = .ok a ∧ f a = b := by
  cases x with
  | error e => simp [Functor.map, Except.map]
  | ok a => simp [Functor.map, Except.map]

theorem isOk_eq_false_iff {x : Except ε α} : x.isOk = false ↔ ∃ e, x = .error e := by
  cases x with
  | error e => simp [Except.isOk, Except.toBool]
  | ok a => simp [Except.isOk, Except.toBool]

/-- Where two steps fail, the first does, or else the second. -/
theorem error_of_bind_error {x : Except ε α} {f : α → Except ε β} {e : ε}
    (h : x >>= f = .error e) : x = .error e ∨ ∃ a, f a = .error e := by
  cases x with
  | error e' => exact .inl (congrArg Except.error (Except.error.inj h))
  | ok a => exact .inr ⟨a, h⟩

/-- What a row of steps leads to was led to by one of them. -/
theorem exists_of_mem_mapM {f : α → Except ε β} {l : List α} {bs : List β}
    (h : l.mapM f = .ok bs) : ∀ b ∈ bs, ∃ a ∈ l, f a = .ok b := by
  induction l generalizing bs with
  | nil =>
    obtain rfl := Except.ok.inj h
    simp
  | cons a rest ih =>
    rw [List.mapM_cons] at h
    obtain ⟨b, hb, h⟩ := exists_of_bind_ok h
    obtain ⟨more, hmore, h⟩ := exists_of_bind_ok h
    obtain rfl := Except.ok.inj h
    intro b' hb'
    rcases List.mem_cons.1 hb' with rfl | hb'
    · exact ⟨a, by simp, hb⟩
    · obtain ⟨a', ha', heq⟩ := ih hmore b' hb'
      exact ⟨a', by simp [ha'], heq⟩

/-- A row of steps that all succeed succeeds. -/
theorem exists_mapM_eq_ok {f : α → Except ε β} {R : α → β → Prop} {l : List α}
    (h : ∀ a ∈ l, ∃ b, f a = .ok b ∧ R a b) :
    ∃ bs, l.mapM f = .ok bs ∧ List.Forall₂ R l bs := by
  induction l with
  | nil => exact ⟨[], rfl, .nil⟩
  | cons a rest ih =>
    obtain ⟨⟨b, hb, hR⟩, hrest⟩ := List.forall_mem_cons.1 h
    obtain ⟨bs, hbs, hall⟩ := ih hrest
    exact ⟨b :: bs, by simp [hb, hbs, bind, Except.bind, pure, Except.pure], .cons hR hall⟩

/-! ## Two runs -/

/-- What is seen of a step and of the next one depends on what is seen of the first. -/
theorem map_bind_congr {x y : Except ε α} {f f' : α → Except ε β} {see : α → γ} {see' : β → δ}
    (h : see <$> x = see <$> y)
    (hf : ∀ a b, see a = see b → see' <$> f a = see' <$> f' b) :
    see' <$> (x >>= f) = see' <$> (y >>= f') := by
  cases x with
  | error e =>
    cases y with
    | error e' => cases h; rfl
    | ok b => cases h
  | ok a =>
    cases y with
    | error e' => cases h
    | ok b => exact hf a b (Except.ok.inj h)

/-- Two rows of steps are seen alike if their steps are, one by one. -/
theorem map_mapM_congr {f : α → Except ε β} {f' : δ → Except ε β} {see : β → γ} {l : List α}
    {l' : List δ} (h : List.Forall₂ (fun a b => see <$> f a = see <$> f' b) l l') :
    List.map see <$> l.mapM f = List.map see <$> l'.mapM f' := by
  induction h with
  | nil => rfl
  | cons hab _ ih =>
    rw [List.mapM_cons, List.mapM_cons]
    refine map_bind_congr hab fun b b' hb => map_bind_congr ih fun bs bs' hbs => ?_
    show Except.ok (List.map see (b :: bs)) = Except.ok (List.map see (b' :: bs'))
    rw [List.map_cons, List.map_cons, hb, hbs]

end Retrace
