/-
When the times of a log go back.

An append looks at the latest action only, and makes the new one no older than that. As long as
times are numbers, this is enough: the new action is no older than any action before it. A time
that is no number is older than nothing, and nothing is older than it, so it hides what stands
before it: an action right behind it keeps its time, whatever that is. This is the only way in which
the times of a log go back (`neverBack_iff_bridged`), and each single append can be judged by it
(`neverBack_push_iff`).
-/
import Retrace.Proofs.Action.Absorption
import Retrace.Proofs.Action.RoundTrip

set_option autoImplicit false

namespace Retrace.Log

variable {α : Type}

/-- No action is older than any before it. -/
def NeverBack (actions : List (Action α)) : Prop :=
  actions.Pairwise fun a b => ¬ b.timestamp < a.timestamp

instance (actions : List (Action α)) : Decidable (NeverBack actions) :=
  inferInstanceAs (Decidable (actions.Pairwise fun a b => ¬ b.timestamp < a.timestamp))

/-- What stands right behind an action without a number for its time is no older than anything
before that. -/
def Bridged (actions : List (Action α)) : Prop :=
  ∀ before a b after, actions = before ++ a :: b :: after → a.timestamp.isNaN = true →
    ∀ c ∈ before, ¬ b.timestamp < c.timestamp

theorem neverBack_concat {actions : List (Action α)} {b : Action α} :
    NeverBack (actions ++ [b]) ↔
      NeverBack actions ∧ ∀ c ∈ actions, ¬ b.timestamp < c.timestamp := by
  simp [NeverBack, List.pairwise_append]

theorem Bridged.initial {actions : List (Action α)} {b : Action α} (h : Bridged (actions ++ [b])) :
    Bridged actions := by
  intro before a b' after hsplit
  refine h before a b' (after ++ [b]) ?_
  rw [hsplit]
  simp

/-- An action that is no older than the latest one is no older than all of them, if the time of the
latest one is a number. -/
theorem not_lt_of_latest {before : List (Action α)} {a b : Action α}
    (hback : NeverBack (before ++ [a])) (ha : a.timestamp.isNaN = false)
    (hb : ¬ b.timestamp < a.timestamp) : ∀ c ∈ before ++ [a], ¬ b.timestamp < c.timestamp := by
  intro c hc
  rcases List.mem_append.1 hc with hc | hc
  · exact Decimal.not_lt_trans ha ((neverBack_concat.1 hback).2 c hc) hb
  · rwa [List.mem_singleton.1 hc]

/-- **Logs in order.** Their times go back only right behind a time that is no number. The
induction is on the log, from its end. -/
theorem neverBack_iff_bridged {actions : List (Action α)} (h : Ordered actions) :
    NeverBack actions ↔ Bridged actions := by
  constructor
  · rintro hback before a b after rfl -
    intro c hc
    exact (List.pairwise_append.1 hback).2.2 c hc b (by simp)
  · intro hbridged
    induction actions using List.reverseRecOn with
    | nil => exact .nil
    | append_singleton actions b ih =>
      obtain ⟨hordered, -, hlast⟩ := ordered_append.1 h
      have hback := ih hordered hbridged.initial
      refine neverBack_concat.2 ⟨hback, ?_⟩
      cases actions using List.reverseRecOn with
      | nil => simp
      | append_singleton before a =>
        have hb : ¬ b.timestamp < a.timestamp := hlast a (by simp)
        cases ha : a.timestamp.isNaN with
        | false => exact not_lt_of_latest hback ha hb
        | true =>
          intro c hc
          rcases List.mem_append.1 hc with hc | hc
          · exact hbridged before a b [] (by simp) ha c hc
          · rwa [List.mem_singleton.1 hc]

/-- **One append.** It makes the times go back if what it leaves in the log ends in a time that is
no number, and the new action is older than something there. -/
theorem neverBack_push_iff {log : Log α} (h : NeverBack log.actions) (a : Action α)
    (coalesce : Bool) :
    NeverBack (log.push a coalesce).actions ↔
      ∀ latest ∈ (kept coalesce a log.actions).getLast?, latest.timestamp.isNaN = true →
        ∀ c ∈ kept coalesce a log.actions, ¬ a.timestamp < c.timestamp := by
  have hkept : NeverBack (kept coalesce a log.actions) :=
    List.Pairwise.sublist (kept_initial coalesce a log.actions).sublist h
  rw [push, neverBack_concat, and_iff_right hkept, entry]
  generalize kept coalesce a log.actions = actions at hkept ⊢
  have hlatest := not_notBefore_lt actions a
  have hstored := storedBehind_notBefore actions a
  cases actions using List.reverseRecOn with
  | nil => simp
  | append_singleton before latest =>
    simp only [List.getLast?_concat, Option.mem_some_iff, forall_eq'] at hlatest ⊢
    cases hnumber : latest.timestamp.isNaN with
    | false =>
      -- over a number, the latest action stands for all
      exact iff_of_true (not_lt_of_latest hkept hnumber hlatest) (by simp)
    | true =>
      -- no time is moved up to one that is no number
      have hsame : notBefore (before ++ [latest]) a = a := by
        refine hstored.same ?_
        intro latest' hlatest'
        obtain rfl : latest = latest' := by simpa using hlatest'
        exact Decimal.not_lt_of_isNaN hnumber
      rw [hsame]
      simp

/-! ## Every log -/

theorem bridged_of_numbers {actions : List (Action α)}
    (h : ∀ a ∈ actions, a.timestamp.isNaN = false) : Bridged actions := by
  rintro before a b after rfl ha
  rw [h a (by simp)] at ha
  exact absurd ha Bool.false_ne_true

/-- **The times of a log** go back only right behind a time that is no number, so not at all where
all times are numbers; and an append makes them go back only there. -/
theorem Reached.neverBack_iff {log : Log String} (h : Reached log) :
    (NeverBack log.actions ↔ Bridged log.actions)
      ∧ ((∀ a ∈ log.actions, a.timestamp.isNaN = false) → NeverBack log.actions)
      ∧ (NeverBack log.actions → ∀ (a : Action String) (coalesce : Bool),
        NeverBack (log.push a coalesce).actions ↔
          ∀ latest ∈ (kept coalesce a log.actions).getLast?, latest.timestamp.isNaN = true →
            ∀ c ∈ kept coalesce a log.actions, ¬ a.timestamp < c.timestamp) := by
  have hiff := neverBack_iff_bridged h.ordered
  exact ⟨hiff, fun hnumbers => hiff.2 (bridged_of_numbers hnumbers),
    fun hback => neverBack_push_iff hback⟩

/-- The text of a log of three clicks, at the times that are written so. -/
def threeClicks (first second third : String) : String :=
  String.join [
    "[\x7b\"kind\":\"click\",\"locator\":\"#a\",\"timestamp\":", first, "\x7d,",
    "\x7b\"kind\":\"click\",\"locator\":\"#b\",\"timestamp\":", second, "\x7d,",
    "\x7b\"kind\":\"click\",\"locator\":\"#c\",\"timestamp\":", third, "\x7d]"]

theorem exists_ofText_eq {text : String} {back : Bool}
    (h : ((ofText text).toOption.map fun log => decide (NeverBack log.actions)) = some back) :
    ∃ log, ofText text = .ok log ∧ decide (NeverBack log.actions) = back := by
  cases hlog : ofText text with
  | error why => simp [hlog, Except.toOption] at h
  | ok log => exact ⟨log, rfl, by simpa [hlog, Except.toOption] using h⟩

/-- At five, at no number, and at seven. -/
theorem neverBack_iff_fiveThenSeven : ∃ log, ofText (threeClicks "5" "NaN" "7") = .ok log
    ∧ NeverBack log.actions ∧ Bridged log.actions := by
  obtain ⟨log, hlog, hback⟩ :=
    @exists_ofText_eq (threeClicks "5" "NaN" "7") true (by decide +kernel)
  have hnever := of_decide_eq_true hback
  exact ⟨log, hlog, hnever, (Reached.neverBack_iff (.ofText hlog)).1.1 hnever⟩

/-- At five, at no number, and at three. -/
theorem not_neverBack_fiveThenThree : ∃ log, ofText (threeClicks "5" "NaN" "3") = .ok log
    ∧ ¬ NeverBack log.actions := by
  obtain ⟨log, hlog, hback⟩ :=
    @exists_ofText_eq (threeClicks "5" "NaN" "3") false (by decide +kernel)
  exact ⟨log, hlog, of_decide_eq_false hback⟩

end Retrace.Log
