/-
Control characters in scripts.

Recorded text reaches a script as literals and as remarks. A literal escapes line feeds, carriage
returns and tabs, and a remark has no blanks but spaces; any other control character is written as
it is. The fixed code has none. So a script has, apart from its line feeds, exactly the control
characters of its texts that are neither carriage returns nor tabs (`Quotes.mem_text_iff`), and
whether it can be loaded is decided by the log (`loadable_compile_iff`).
-/
import Retrace.Proofs.Script.Quotes
import Retrace.Proofs.Text.Cutting

set_option autoImplicit false

namespace Retrace

open Script
open Text (isControl Printed)

/-! ## Characters of literals and remarks -/

namespace Script

/-- Is the control character written as it is? -/
def Leaks (c : Char) (t : String) : Prop := c ∈ t.toList ∧ c ≠ '\r' ∧ c ≠ '\t'

variable {c d : Char} {t : String}

theorem ne_of_isControl (hc : isControl c = true) (hd : isControl d = false) : c ≠ d := by
  rintro rfl
  simp [hc] at hd

/-- **A character of a literal.** What an escape is made of is printed. -/
theorem mem_escapeChar_iff (hc : isControl c = true) (hbreak : c ≠ '\n') :
    c ∈ escapeChar d ↔ d = c ∧ c ≠ '\r' ∧ c ≠ '\t' := by
  have hback : c ≠ '\\' := ne_of_isControl hc (by decide)
  have hquote : c ≠ '"' := ne_of_isControl hc (by decide)
  have hn : c ≠ 'n' := ne_of_isControl hc (by decide)
  have hr : c ≠ 'r' := ne_of_isControl hc (by decide)
  have ht : c ≠ 't' := ne_of_isControl hc (by decide)
  unfold escapeChar
  split <;> grind

theorem mem_quote_iff (hc : isControl c = true) (hbreak : c ≠ '\n') :
    c ∈ (quote t).toList ↔ Leaks c t := by
  have hquote : c ≠ '"' := ne_of_isControl hc (by decide)
  simp only [quote, escape, String.toList_ofList, List.cons_append, List.mem_cons, hquote,
    List.mem_append, List.mem_flatMap, mem_escapeChar_iff hc hbreak, List.not_mem_nil, false_or,
    or_false]
  constructor
  · rintro ⟨d, hd, rfl, hkept⟩
    exact ⟨hd, hkept⟩
  · rintro ⟨hmem, hkept⟩
    exact ⟨c, hmem, rfl, hkept⟩

/-- A character of a text that is put together of others is one of these or of what is between. -/
theorem mem_intercalate_iff {sep : String} (hsep : c ∉ sep.toList) {ts : List String} :
    c ∈ (sep.intercalate ts).toList ↔ ∃ t ∈ ts, c ∈ t.toList := by
  induction ts with
  | nil => simp
  | cons t rest ih =>
    by_cases hnil : rest = []
    · simp [hnil]
    · rw [String.intercalate_cons_of_ne_nil hnil, String.toList_append, String.toList_append,
        List.mem_append, List.mem_append, ih]
      simp [hsep]

/-- **A character of a remark.** Carriage returns and tabs are blanks. -/
theorem leaks_of_mem_remark (hc : isControl c = true) (hmem : c ∈ (remark t).toList) :
    Leaks c t := by
  have hspace : c ∉ " ".toList := by
    have hne : c ≠ ' ' := ne_of_isControl hc (by decide)
    simpa using hne
  obtain ⟨w, hw, hmem⟩ := (mem_intercalate_iff hspace).1 hmem
  have hblank := Text.not_isBlank_of_mem_words hw hmem
  simp only [Text.words, List.mem_map, List.mem_filter] at hw
  obtain ⟨cs, ⟨hcs, -⟩, rfl⟩ := hw
  rw [String.toList_ofList] at hmem
  refine ⟨Text.subset_of_mem_pieces hcs hmem, ?_, ?_⟩
  · rintro rfl
    exact absurd hblank (by decide)
  · rintro rfl
    exact absurd hblank (by decide)

/-! ## Characters of a script -/

/-- A control character of a line is one of its parts. -/
theorem mem_lineText_iff (hc : isControl c = true) {l : Line} :
    c ∈ l.text.toList ↔ ∃ p ∈ l.parts, c ∈ p.text.toList := by
  have hspace : c ≠ ' ' := ne_of_isControl hc (by decide)
  have hindent : ∀ n, c ∉ List.replicate n ' ' := by
    intro n hmem
    exact hspace (List.eq_of_mem_replicate hmem)
  unfold Line.text
  split
  · next hempty => simp [List.isEmpty_iff.1 hempty]
  · rw [String.toList_append, String.toList_ofList, String.toList_join]
    simp [hindent]

/-- A control character of a script, other than a line feed, is one of a part of its lines. -/
theorem mem_text_iff (hc : isControl c = true) (hbreak : c ≠ '\n') {s : Script} :
    c ∈ s.text.toList ↔ ∃ l ∈ s.blocks.flatten, ∃ p ∈ l.parts, c ∈ p.text.toList := by
  have hsep : c ∉ "\n".toList := by simpa using hbreak
  have hseps : c ∉ "\n\n\n".toList := by simpa using hbreak
  rw [Script.text, String.toList_append, List.mem_append, or_iff_left hsep,
    mem_intercalate_iff hseps]
  constructor
  · rintro ⟨t, ht, hmem⟩
    obtain ⟨b, hb, rfl⟩ := List.mem_map.1 ht
    obtain ⟨t, ht, hmem⟩ := (mem_intercalate_iff hsep).1 hmem
    obtain ⟨l, hl, rfl⟩ := List.mem_map.1 ht
    exact ⟨l, List.mem_flatten.2 ⟨b, hb, hl⟩, (mem_lineText_iff hc).1 hmem⟩
  · rintro ⟨l, hl, hmem⟩
    obtain ⟨b, hb, hl⟩ := List.mem_flatten.1 hl
    refine ⟨Block.text b, List.mem_map_of_mem hb, (mem_intercalate_iff hsep).2 ?_⟩
    exact ⟨l.text, List.mem_map_of_mem hl, (mem_lineText_iff hc).2 hmem⟩

/-- **The control characters of a script** are those of its texts, but for carriage returns and
tabs. -/
theorem Quotes.mem_text_iff (hc : isControl c = true) (hbreak : c ≠ '\n') {s : Script}
    {texts : List String} (h : Quotes texts s.blocks.flatten) :
    c ∈ s.text.toList ↔ ∃ t ∈ texts, Leaks c t := by
  have hleak : ∀ t, t = "" ∨ t ∈ texts → Leaks c t → ∃ t ∈ texts, Leaks c t := by
    rintro t (rfl | ht) hleaks
    · simp [Leaks] at hleaks
    · exact ⟨t, ht, hleaks⟩
  rw [Script.mem_text_iff hc hbreak]
  constructor
  · rintro ⟨l, hl, p, hp, hmem⟩
    have hfrom := h.only l hl p hp
    cases p with
    | code s => simp [hfrom c hmem] at hc
    | literal t => exact hleak t hfrom ((mem_quote_iff hc hbreak).1 hmem)
    | remark t => exact hleak t hfrom (leaks_of_mem_remark hc hmem)
  · rintro ⟨t, ht, hleaks⟩
    rcases h.literal t ht with rfl | ⟨l, hl, hmem⟩
    · simp [Leaks] at hleaks
    · exact ⟨l, hl, _, hmem, (mem_quote_iff hc hbreak).2 hleaks⟩

/-! ## Loadable scripts -/

/-- There are no control characters in the script but line feeds. -/
def Loadable (s : Script) : Prop := ∀ c ∈ s.text.toList, isControl c = true → c = '\n'

/-- **The control characters of a script**, other than line feeds, are those of the texts that it
has, other than carriage returns and tabs. -/
theorem exists_compile_mem_iff (settings : Settings) (actions : List (Action String))
    (baseUrl : String) :
    ∃ s, (compile settings actions baseUrl).1 = .ok s
      ∧ ∀ c, isControl c = true → c ≠ '\n' → (c ∈ s.text.toList
        ↔ c ≠ '\r' ∧ c ≠ '\t' ∧ ∃ t ∈ Plan.textsOf actions baseUrl, c ∈ t.toList) := by
  obtain ⟨s, hs, hquotes⟩ := exists_quotes_ofPlan settings (Plan.renders_ofActions actions baseUrl)
    (.repr (Plan.ofActions actions baseUrl).1.actionCount)
  refine ⟨s, hs, fun c hc hbreak => ?_⟩
  rw [hquotes.mem_text_iff hc hbreak]
  simp only [Plan.mem_textsOf_iff, Leaks]
  constructor
  · rintro ⟨t, ht, hmem, hreturn, htab⟩
    exact ⟨hreturn, htab, t, ht, hmem⟩
  · rintro ⟨hreturn, htab, t, ht, hmem⟩
    exact ⟨t, ht, hmem, hreturn, htab⟩

/-- **Which scripts are loadable.** Every log has a script. It is loadable exactly if the texts of
the log that the script has, namely the address, what is said with the actions, and the paths of the
plan, have no control characters but line feeds, carriage returns and tabs; and one that is in a
path of the plan was recorded in a path of the log. Otherwise all others of these characters stand
in the script as they are. -/
theorem loadable_compile_iff (settings : Settings) (actions : List (Action String))
    (baseUrl : String) :
    ∃ s, (compile settings actions baseUrl).1 = .ok s
      ∧ (s.Loadable ↔ ∀ t ∈ Plan.textsOf actions baseUrl, ∀ c ∈ t.toList, isControl c = true →
        c = '\n' ∨ c = '\r' ∨ c = '\t')
      ∧ (∀ c, isControl c = true → c ≠ '\n' → (c ∈ s.text.toList
        ↔ c ≠ '\r' ∧ c ≠ '\t' ∧ ∃ t ∈ Plan.textsOf actions baseUrl, c ∈ t.toList))
      ∧ ∀ t ∈ (Plan.ofActions actions baseUrl).1.paths, ∀ c ∈ t.toList, isControl c = true →
        ∃ a ∈ actions, c ∈ a.locator.toList := by
  obtain ⟨s, hs, hmem⟩ := exists_compile_mem_iff settings actions baseUrl
  refine ⟨s, hs, ?_, hmem, ?_⟩
  · constructor
    · intro hloadable t ht c hc hcontrol
      by_contra! hother
      obtain ⟨hbreak, hreturn, htab⟩ := hother
      have hscript := (hmem c hcontrol hbreak).2 ⟨hreturn, htab, t, ht, hc⟩
      exact hbreak (hloadable c hscript hcontrol)
    · intro htexts c hc hcontrol
      by_contra hbreak
      obtain ⟨hreturn, htab, t, ht, hc⟩ := (hmem c hcontrol hbreak).1 hc
      rcases htexts t ht c hc hcontrol with h | h | h
      · exact hbreak h
      · exact hreturn h
      · exact htab h
  · intro t ht c hc hcontrol
    obtain ⟨u, hu, hc⟩ := Plan.drawnFrom_paths actions baseUrl t ht c hc hcontrol
    obtain ⟨a, ha, rfl⟩ := List.mem_map.1 hu
    exact ⟨a, ha, hc⟩

/-- A field into which a null character was typed. -/
def nullTyped : Action String := { kind := .input, locator := "#a", value := some "\x00" }

theorem not_loadable_nullTyped :
    ∃ s, (compile {} [nullTyped] "").1 = .ok s ∧ '\x00' ∈ s.text.toList ∧ ¬ s.Loadable := by
  obtain ⟨s, hs, hmem⟩ := exists_compile_mem_iff {} [nullTyped] ""
  have hnull : '\x00' ∈ s.text.toList := by
    refine (hmem '\x00' (by decide) (by decide)).2 ⟨by decide, by decide, "\x00", ?_, by decide⟩
    decide
  refine ⟨s, hs, hnull, fun hloadable => ?_⟩
  exact absurd (hloadable '\x00' hnull (by decide)) (by decide)

end Script

end Retrace
