/-
The order of a log.

An append leaves a log in order: every action has a locator, and none is older than the one before
it. Not-a-number is older than nothing and nothing is older than it, so "not older" is no order and
is only ever said of neighbours. Actions that stand in order are appended as they are
(`append_of_ordered`), and so a log is rebuilt from its own actions.
-/
import Mathlib.Data.List.Chain
import Retrace.Action.Record
import Retrace.Proofs.Action.Bounds
import Retrace.Proofs.Decimal.Double

set_option autoImplicit false

namespace Retrace.Log

variable {α β : Type}

/-- Every action has a locator, and none is older than the one before it. -/
structure Ordered (actions : List (Action α)) : Prop where
  located : ∀ a ∈ actions, a.locator ≠ ""
  chain : actions.IsChain fun a b => ¬ b.timestamp < a.timestamp

theorem Ordered.nil : Ordered ([] : List (Action α)) := ⟨by simp, .nil⟩

/-- Only the new action has to be compared, and only with the latest one. -/
theorem ordered_append {before : List (Action α)} {a : Action α} :
    Ordered (before ++ [a]) ↔
      Ordered before ∧ a.locator ≠ ""
        ∧ ∀ latest ∈ before.getLast?, ¬ a.timestamp < latest.timestamp := by
  constructor
  · rintro ⟨hlocated, hchain⟩
    obtain ⟨hbefore, -, hlast⟩ := List.isChain_append.1 hchain
    exact ⟨⟨fun b hb => hlocated b (by simp [hb]), hbefore⟩, hlocated a (by simp),
      fun latest hlatest => hlast latest hlatest a rfl⟩
  · rintro ⟨⟨hlocated, hchain⟩, ha, hlast⟩
    refine ⟨?_, List.isChain_append.2 ⟨hchain, .singleton a, ?_⟩⟩
    · intro b hb
      rcases List.mem_append.1 hb with hb | hb
      · exact hlocated b hb
      · rwa [List.mem_singleton.1 hb]
    · intro latest hlatest b hb
      obtain rfl : a = b := by simpa using hb
      exact hlast latest hlatest

/-- A log that is cut off is in order. -/
theorem Ordered.initial {before actions : List (Action α)} (h : Ordered actions)
    (hbefore : before <+: actions) : Ordered before :=
  ⟨fun a ha => h.located a (hbefore.subset ha), List.IsChain.prefix (h.chain) hbefore⟩

/-- An edit may take one entry off the end, and nothing else is lost. -/
theorem kept_initial (coalesce : Bool) (a : Action α) (actions : List (Action α)) :
    kept coalesce a actions <+: actions := by
  unfold kept
  split
  · exact dropEdits_prefix a actions
  · exact List.prefix_rfl

theorem kept_subset (coalesce : Bool) (a : Action α) (actions : List (Action α)) :
    kept coalesce a actions ⊆ actions :=
  (kept_initial coalesce a actions).subset

theorem Ordered.kept {actions : List (Action α)} (h : Ordered actions) (coalesce : Bool)
    (a : Action α) : Ordered (kept coalesce a actions) :=
  h.initial (kept_initial coalesce a actions)

/-- Values have nothing to do with the order. -/
theorem Ordered.map {actions : List (Action α)} (h : Ordered actions) (f : α → β) :
    Ordered (actions.map (·.map f)) := by
  refine ⟨?_, ?_⟩
  · intro a ha
    obtain ⟨b, hb, rfl⟩ := List.mem_map.1 ha
    exact h.located b hb
  · rw [List.isChain_map]
    exact h.chain

/-- The time of an action is moved up to that of the latest one, if at all. -/
theorem not_notBefore_lt (actions : List (Action α)) (a : Action α) :
    ∀ latest ∈ actions.getLast?, ¬ (notBefore actions a).timestamp < latest.timestamp := by
  intro latest hlatest
  rw [notBefore, Option.mem_def.1 hlatest]
  dsimp only
  split
  · exact Decimal.not_lt_self _
  · assumption

theorem notBefore_locator (actions : List (Action α)) (a : Action α) :
    (notBefore actions a).locator = a.locator := by
  unfold notBefore
  split
  · split <;> rfl
  · rfl

/-- What an append keeps. -/
theorem Ordered.push {log : Log α} (h : Ordered log.actions) {a : Action α} (ha : a.locator ≠ "")
    (coalesce : Bool) : Ordered (log.push a coalesce).actions :=
  ordered_append.2 ⟨h.kept coalesce a, by rwa [entry, notBefore_locator], not_notBefore_lt _ a⟩

/-- **One action.** It comes no earlier than the latest one. -/
theorem Ordered.append {log log' : Log α} {a stored : Action α} {coalesce : Bool}
    (h : Ordered log.actions) (happend : log.append a coalesce = .ok (log', stored)) :
    Ordered log'.actions := by
  unfold Log.append at happend
  split at happend
  · simp at happend
  · next ha =>
    obtain ⟨rfl, -⟩ := Prod.mk.inj (Except.ok.inj happend)
    exact h.push ha coalesce

/-- An entry that was stored is stored as it is. -/
theorem push_entry (log : Log α) (a : Action α) (coalesce : Bool) :
    log.push (log.entry a coalesce) coalesce = log.push a coalesce := by
  obtain ⟨timestamp, heq⟩ := log.exists_entry_eq a coalesce
  have hkept : Log.kept coalesce (log.entry a coalesce) log.actions
      = Log.kept coalesce a log.actions := by
    rw [heq]
    rfl
  have hentry : log.entry (log.entry a coalesce) coalesce = log.entry a coalesce := by
    rw [entry, hkept, notBefore]
    split
    · next latest hlatest => exact if_neg (not_notBefore_lt _ a latest hlatest)
    · rfl
  rw [Log.push, Log.push, hkept, hentry]

/-! ## Appending what stands in order -/

/-- In a log that is in order, no time has to be put right. -/
theorem notBefore_of_ordered {before : List (Action α)} {a : Action α}
    (h : Ordered (before ++ [a])) : notBefore before a = a := by
  obtain ⟨-, -, hlast⟩ := ordered_append.1 h
  unfold notBefore
  split
  · next latest hlatest => rw [if_neg (hlast latest hlatest)]
  · rfl

/-- An action that stands in order is appended as it is. -/
theorem append_of_ordered {baseUrl : α} {before : List (Action α)} {a : Action α}
    (h : Ordered (before ++ [a])) :
    Log.append { baseUrl, actions := before } a
      = .ok ({ baseUrl, actions := before ++ [a] }, a) := by
  obtain ⟨-, ha, -⟩ := ordered_append.1 h
  have hentry : entry { baseUrl, actions := before } a false = a := notBefore_of_ordered h
  rw [Log.append, if_neg ha, Log.push, hentry]
  rfl

/-- **A log is rebuilt from its actions.** -/
theorem ofActions_of_ordered {actions : List (Action α)} (h : Ordered actions) (baseUrl : α) :
    ofActions actions baseUrl = .ok { baseUrl, actions } := by
  have hrest : ∀ (rest before : List (Action α)), Ordered (before ++ rest) →
      rest.foldlM (fun (log : Log α) a => (·.1) <$> log.append a) { baseUrl, actions := before }
        = .ok ({ baseUrl, actions := before ++ rest } : Log α) := by
    intro rest
    induction rest with
    | nil => exact fun before _ => by simp [pure, Except.pure]
    | cons a rest ih =>
      intro before hordered
      have hassoc : before ++ [a] ++ rest = before ++ a :: rest := by simp
      have hnext := ih (before ++ [a]) (by rwa [hassoc])
      rw [List.foldlM_cons, append_of_ordered (hordered.initial ⟨rest, hassoc⟩)]
      rw [hassoc] at hnext
      exact hnext
  exact hrest actions [] h

/-! ## Logs of records -/

/-- Records are appended one by one. -/
theorem Ordered.addRecords {records : List Json} {log log' : Log String} {index : Nat}
    (h : Ordered log.actions) (hadd : log.addRecords index records = .ok log') :
    Ordered log'.actions := by
  induction records generalizing log index with
  | nil =>
    obtain rfl := Except.ok.inj hadd
    exact h
  | cons record rest ih =>
    rw [Log.addRecords] at hadd
    split at hadd
    · simp at hadd
    · split at hadd
      · simp at hadd
      · next happend => exact ih (h.append happend) hadd

theorem Ordered.ofRecords {records : List Json} {baseUrl : String} {log : Log String}
    (h : ofRecords records baseUrl = .ok log) : Ordered log.actions :=
  Ordered.addRecords .nil h

theorem Ordered.ofCollection {records : Json} {baseUrl : String} {log : Log String}
    (h : ofCollection records baseUrl = .ok log) : Ordered log.actions := by
  unfold Log.ofCollection at h
  split at h
  · exact .ofRecords h
  · simp at h

/-- **A log that is read is in order**, whatever the text says. -/
theorem Ordered.ofText {text : String} {log : Log String} (h : ofText text = .ok log) :
    Ordered log.actions := by
  unfold Log.ofText Log.ofJson at h
  split at h
  · simp at h
  · split at h
    · exact .ofRecords h
    · split at h
      · exact .ofRecords h
      · simp at h
    · simp at h

end Retrace.Log
