/-
Settings from the environment, and which of them can be used.

A number must be at least one, and a class must be some text that neither begins nor ends with a
blank. A variable that asks for such a value gives it, one that does not should leave the setting
at its default, and no setting looks at the variable of another one. All of this holds but for one
case: a class variable that has blanks and nothing else is taken for a class, and the class is
empty then. For the marker of the overlay this means that no element is ignored any more.
-/
import Retrace.Interaction
import Retrace.Proofs.Locator.Description
import Retrace.Proofs.Page.Nesting
import Retrace.Proofs.Text.Cutting

set_option autoImplicit false

namespace Retrace

namespace Text

/-! ## Classes in a text -/

/-- The classes that a class attribute can give: some text without a blank. -/
theorem exists_mem_words_iff {name : String} :
    (∃ text, name ∈ words text) ↔ name ≠ "" ∧ ∀ c ∈ name.toList, isBlank c = false := by
  constructor
  · rintro ⟨text, hname⟩
    exact ⟨Locator.ne_empty_of_mem_words hname, fun c hc => not_isBlank_of_mem_words hname hc⟩
  · rintro ⟨hne, hblank⟩
    have hcs : name.toList ≠ [] := fun hnil => hne (String.toList_eq_nil_iff.1 hnil)
    refine ⟨name, ?_⟩
    rw [words, pieces_of_forall_not hblank]
    simp [hcs]

end Text

namespace Settings

open Text (isBlank IsTrimmed IsCore)

/-! ## The settings, one by one -/

inductive Field where
  | ignoreClass | tableClass | waitTimeout | maxRetries | maxPages | headless
  deriving Repr, DecidableEq

/-- The value of a setting: a class, a number or a flag. -/
inductive Value where
  | className (name : String)
  | number (n : Int)
  | flag (b : Bool)
  deriving Repr, DecidableEq

namespace Field

/-- The variable of the environment that is for the setting. -/
def variableName : Field → String
  | ignoreClass => "SCRIPTRECORDER_IGNORE_CLASS"
  | tableClass => "SCRIPTRECORDER_TABLE_CLASS"
  | waitTimeout => "SCRIPTRECORDER_WAIT_TIMEOUT"
  | maxRetries => "SCRIPTRECORDER_MAX_RETRIES"
  | maxPages => "SCRIPTRECORDER_MAX_PAGES"
  | headless => "SCRIPTRECORDER_HEADLESS"

def IsClass (field : Field) : Prop := field = ignoreClass ∨ field = tableClass

def IsNumber (field : Field) : Prop :=
  field = waitTimeout ∨ field = maxRetries ∨ field = maxPages

variable {field : Field}

theorem IsClass.not_isNumber (hclass : field.IsClass) : ¬ field.IsNumber := by
  rcases hclass with rfl | rfl <;> simp [IsNumber]

end Field

def get (settings : Settings) : Field → Value
  | .ignoreClass => .className settings.ignoreClass
  | .tableClass => .className settings.tableClass
  | .waitTimeout => .number settings.waitTimeout
  | .maxRetries => .number settings.maxRetries
  | .maxPages => .number settings.maxPages
  | .headless => .flag settings.headless

/-- Can the value be used? A class must have something to look for and no blank at its ends, and a
number must be at least one. -/
def Value.IsUsable : Value → Prop
  | className name => name ≠ "" ∧ IsTrimmed isBlank name.toList
  | number n => 1 ≤ n
  | flag _ => True

/-- The text is usable for the setting and asks for the value. -/
inductive Field.Asks : Field → String → Value → Prop
  /-- The class stands in the text, with nothing but blanks around it. -/
  | className {field : Field} {text name : String} : field.IsClass →
    IsCore isBlank name.toList text.toList → Asks field text (.className name)
  /-- The text spells a number that is not too small. -/
  | number {field : Field} {text : String} {n : Int} : field.IsNumber →
    Decimal.readInt? text = some n → 1 ≤ n → Asks field text (.number n)
  /-- The text is a word for yes. -/
  | flag {text : String} : Text.lower (Text.strip text) ∈ ["true", "1", "yes"] →
    Asks .headless text (.flag true)

/-- The variable of the setting, which is for a class, has blanks and nothing else. -/
def Field.IsHollow (field : Field) (env : List (String × String)) : Prop :=
  field.IsClass ∧ ∃ text, env.lookup field.variableName = some text ∧ text ≠ ""
    ∧ ∀ c ∈ text.toList, isBlank c = true

/-! ## Reading a variable -/

variable {env : List (String × String)} {variableName text : String}

/-- A class that the text has in it is the class. -/
theorem classFrom_eq_of_isCore {name : String} (default : String)
    (hlookup : env.lookup variableName = some text)
    (hcore : IsCore isBlank name.toList text.toList) :
    classFrom env variableName default = name := by
  obtain ⟨hne, hname⟩ := Text.isCore_iff.1 hcore
  have htext : text ≠ "" := by
    rintro rfl
    exact hne (by simp [Text.trim, Text.dropTrailing])
  rw [classFrom, hlookup]
  simp only [if_neg htext]
  rw [Text.strip, ← hname, String.ofList_toList]

/-- A variable with blanks and nothing else makes the class empty. -/
theorem classFrom_of_isBlank (default : String) (hlookup : env.lookup variableName = some text)
    (htext : text ≠ "") (hblank : ∀ c ∈ text.toList, isBlank c = true) :
    classFrom env variableName default = "" := by
  rw [classFrom, hlookup]
  simp only [if_neg htext]
  rw [Text.strip, Text.trim_eq_nil_iff.2 hblank, String.ofList_nil]

/-- In every other case the class is the default. -/
theorem classFrom_eq_default {default : String}
    (hblank : ∀ text, env.lookup variableName = some text → text ≠ "" →
      ¬ ∀ c ∈ text.toList, isBlank c = true)
    (hcore : ∀ text, env.lookup variableName = some text →
      ∀ name : String, ¬ IsCore isBlank name.toList text.toList) :
    classFrom env variableName default = default := by
  unfold classFrom
  cases hlookup : env.lookup variableName with
  | none => rfl
  | some text =>
    by_cases htext : text = ""
    · simp [htext]
    · -- the text is neither empty nor blank, so there is a class in it
      have hne : Text.trim isBlank text.toList ≠ [] :=
        fun hnil => hblank text hlookup htext (Text.trim_eq_nil_iff.1 hnil)
      have hstrip : IsCore isBlank (Text.strip text).toList text.toList :=
        Text.isCore_iff.2 ⟨hne, by rw [Text.strip, String.toList_ofList]⟩
      exact absurd hstrip (hcore text hlookup _)

theorem numberFrom_eq_of_readInt? {n : Int} (default : Int)
    (hlookup : env.lookup variableName = some text) (hread : Decimal.readInt? text = some n)
    (hn : 1 ≤ n) : (numberFrom env variableName default).1 = n := by
  have hsmall : ¬ n < 1 := by omega
  simp [numberFrom, hlookup, readPositive, hread, hsmall]

theorem numberFrom_eq_default {default : Int}
    (hread : ∀ text, env.lookup variableName = some text →
      ∀ n, Decimal.readInt? text = some n → ¬ 1 ≤ n) :
    (numberFrom env variableName default).1 = default := by
  unfold numberFrom readPositive
  cases hlookup : env.lookup variableName with
  | none => rfl
  | some text =>
    cases hn : Decimal.readInt? text with
    | none => simp [hn]
    | some n =>
      have hsmall : n < 1 := by
        have := hread text hlookup n hn
        omega
      simp [hn, hsmall]

/-! ## Every setting is read in one of three ways -/

/-- How a setting comes from the environment: it is a class, a number or the flag, and it looks at
its own variable only. -/
theorem get_ofEnvironment_cases (field : Field) :
    (field.IsClass ∧ ∃ default, ({} : Settings).get field = .className default
        ∧ (Value.className default).IsUsable
        ∧ ∀ env, (ofEnvironment env).1.get field
            = .className (classFrom env field.variableName default))
      ∨ (field.IsNumber ∧ ∃ default, ({} : Settings).get field = .number default
        ∧ (Value.number default).IsUsable
        ∧ ∀ env, (ofEnvironment env).1.get field
            = .number (numberFrom env field.variableName default).1)
      ∨ (field = .headless ∧ ({} : Settings).get field = .flag false
        ∧ ∀ env, (ofEnvironment env).1.get field
            = .flag ((env.lookup field.variableName).any readFlag)) := by
  cases field with
  | ignoreClass =>
    refine .inl ⟨.inl rfl, "ignore-recorder", rfl, ?_, fun env => rfl⟩
    simp only [Value.IsUsable]
    decide
  | tableClass =>
    refine .inl ⟨.inr rfl, "table", rfl, ?_, fun env => rfl⟩
    simp only [Value.IsUsable]
    decide
  | waitTimeout =>
    exact .inr (.inl ⟨.inl rfl, 10000, rfl, by simp [Value.IsUsable], fun env => rfl⟩)
  | maxRetries =>
    exact .inr (.inl ⟨.inr (.inl rfl), 3, rfl, by simp [Value.IsUsable], fun env => rfl⟩)
  | maxPages =>
    exact .inr (.inl ⟨.inr (.inr rfl), 50, rfl, by simp [Value.IsUsable], fun env => rfl⟩)
  | headless =>
    refine .inr (.inr ⟨rfl, rfl, fun env => ?_⟩)
    simp only [get, ofEnvironment, Field.variableName]
    generalize env.lookup "SCRIPTRECORDER_HEADLESS" = answer
    cases answer <;> simp

/-- A class from the environment can be used unless its variable is hollow, and asks for what it
gives unless the default is left. -/
theorem isUsable_classFrom_iff {default : String} (hdefault : (Value.className default).IsUsable) :
    (Value.className (classFrom env variableName default)).IsUsable
      ↔ ¬ ∃ text, env.lookup variableName = some text ∧ text ≠ ""
        ∧ ∀ c ∈ text.toList, isBlank c = true := by
  constructor
  · rintro ⟨hne, -⟩ ⟨text, hlookup, htext, hblank⟩
    exact hne (classFrom_of_isBlank default hlookup htext hblank)
  · intro hhollow
    by_cases hcore : ∃ text, env.lookup variableName = some text
        ∧ ∃ name : String, IsCore isBlank name.toList text.toList
    · obtain ⟨text, hlookup, name, hname⟩ := hcore
      rw [classFrom_eq_of_isCore default hlookup hname]
      exact ⟨fun hnil => hname.1 (String.toList_eq_nil_iff.2 hnil), hname.2.1⟩
    · rw [classFrom_eq_default
        (fun text hlookup htext hblank => hhollow ⟨text, hlookup, htext, hblank⟩)
        (fun text hlookup name hname => hcore ⟨text, hlookup, name, hname⟩)]
      exact hdefault

/-- A number from the environment is at least one. -/
theorem one_le_numberFrom {default : Int} (hdefault : 1 ≤ default) :
    1 ≤ (numberFrom env variableName default).1 := by
  by_cases hread : ∃ text, env.lookup variableName = some text
      ∧ ∃ n, Decimal.readInt? text = some n ∧ 1 ≤ n
  · obtain ⟨text, hlookup, n, hn, hpos⟩ := hread
    rw [numberFrom_eq_of_readInt? default hlookup hn hpos]
    exact hpos
  · rw [numberFrom_eq_default
      (fun text hlookup n hn hpos => hread ⟨text, hlookup, n, hn, hpos⟩)]
    exact hdefault

/-! ## The settings as a whole -/

theorem isUsable_get_iff (field : Field) (env : List (String × String)) :
    ((ofEnvironment env).1.get field).IsUsable ↔ ¬ field.IsHollow env := by
  obtain ⟨hclass, default, -, hdefault, hget⟩ | ⟨hnumber, default, -, hdefault, hget⟩
    | ⟨rfl, -, hget⟩ := get_ofEnvironment_cases field
  · rw [hget, isUsable_classFrom_iff hdefault, Field.IsHollow, and_iff_right hclass]
  · rw [hget]
    have hnot : ¬ field.IsHollow env := fun hhollow => hhollow.1.not_isNumber hnumber
    exact iff_of_true (one_le_numberFrom hdefault) hnot
  · rw [hget]
    exact iff_of_true trivial fun hhollow => by simp [Field.IsHollow, Field.IsClass] at hhollow

/-- What a variable asks for is what its setting is. -/
theorem get_of_asks {field : Field} {value : Value}
    (hlookup : env.lookup field.variableName = some text) (hasks : field.Asks text value) :
    (ofEnvironment env).1.get field = value := by
  obtain ⟨hclass, default, -, -, hget⟩ | ⟨hnumber, default, -, -, hget⟩
    | ⟨rfl, -, hget⟩ := get_ofEnvironment_cases field
  all_goals rw [hget]
  · cases hasks with
    | className _ hcore => rw [classFrom_eq_of_isCore default hlookup hcore]
    | number hnumber _ _ => exact absurd hnumber hclass.not_isNumber
    | flag _ => simp [Field.IsClass] at hclass
  · cases hasks with
    | className hclass _ => exact absurd hnumber hclass.not_isNumber
    | number _ hread hpos => rw [numberFrom_eq_of_readInt? default hlookup hread hpos]
    | flag _ => simp [Field.IsNumber] at hnumber
  · cases hasks with
    | className hclass _ => simp [Field.IsClass] at hclass
    | number hnumber _ _ => simp [Field.IsNumber] at hnumber
    | flag hword => simpa [hlookup, readFlag] using hword

/-- A variable that asks for nothing leaves its setting at the default, unless it is hollow. -/
theorem get_of_not_asks {field : Field}
    (hasks : ∀ text, env.lookup field.variableName = some text →
      ∀ value, ¬ field.Asks text value)
    (hhollow : ¬ field.IsHollow env) :
    (ofEnvironment env).1.get field = ({} : Settings).get field := by
  obtain ⟨hclass, default, hdefault, -, hget⟩ | ⟨hnumber, default, hdefault, -, hget⟩
    | ⟨rfl, hdefault, hget⟩ := get_ofEnvironment_cases field
  all_goals rw [hget, hdefault]
  · rw [classFrom_eq_default
      (fun text hlookup htext hblank => hhollow ⟨hclass, text, hlookup, htext, hblank⟩)
      (fun text hlookup name hname => hasks text hlookup _ (.className hclass hname))]
  · rw [numberFrom_eq_default
      (fun text hlookup n hread hpos => hasks text hlookup _ (.number hnumber hread hpos))]
  · cases hlookup : env.lookup (Field.variableName .headless) with
    | none => simp
    | some text =>
      have hword := fun hyes => hasks text hlookup _ (.flag hyes)
      simpa [readFlag] using hword

/-- A hollow variable makes its class empty. -/
theorem get_of_isHollow {field : Field} (hhollow : field.IsHollow env) :
    (ofEnvironment env).1.get field = .className "" := by
  obtain ⟨hclass, text, hlookup, htext, hblank⟩ := hhollow
  obtain ⟨-, default, -, -, hget⟩ | ⟨hnumber, -⟩ | ⟨rfl, -⟩ := get_ofEnvironment_cases field
  · rw [hget, classFrom_of_isBlank default hlookup htext hblank]
  · exact absurd hnumber hclass.not_isNumber
  · simp [Field.IsClass] at hclass

end Settings

namespace Interaction

open Text (isBlank)

/-- The overlay can be told from a page as long as its marker is a class: some text without a
blank. -/
theorem exists_isIgnored_iff {settings : Settings} :
    (∃ page i, isIgnored settings page i = true)
      ↔ settings.ignoreClass ≠ "" ∧ ∀ c ∈ settings.ignoreClass.toList, isBlank c = false := by
  rw [← Text.exists_mem_words_iff]
  constructor
  · rintro ⟨page, i, hignored⟩
    obtain ⟨j, -, hmarked⟩ := List.any_eq_true.1 hignored
    exact ⟨page.attr j "class", List.contains_iff_mem.1 hmarked⟩
  · rintro ⟨text, hmarker⟩
    refine ⟨Page.empty.push "div" [("class", text)] none, 0, List.any_eq_true.2 ?_⟩
    refine ⟨0, Page.self_mem_ancestors _ 0, List.contains_iff_mem.2 ?_⟩
    simpa [Page.classes, Page.attr, Page.attr?, Page.push, Page.empty] using hmarker

end Interaction

namespace Settings

/-- **What the environment does to the settings.** A setting can be used unless its variable is
hollow. If the variable asks for a value, that is the setting; if it asks for none, the setting is
the default unless the variable is hollow, and then it is the empty class. No other variable has a
say in it. The overlay is found as long as its marker is a class. -/
theorem ofEnvironment_usable_iff (env : List (String × String)) :
    (∀ field : Field, ((ofEnvironment env).1.get field).IsUsable ↔ ¬ field.IsHollow env)
      ∧ (∀ (field : Field) (text : String) (value : Value),
        env.lookup field.variableName = some text → field.Asks text value →
          (ofEnvironment env).1.get field = value)
      ∧ (∀ field : Field,
        (∀ text, env.lookup field.variableName = some text → ∀ value, ¬ field.Asks text value) →
          ((ofEnvironment env).1.get field = ({} : Settings).get field ↔ ¬ field.IsHollow env))
      ∧ (∀ field : Field, field.IsHollow env → (ofEnvironment env).1.get field = .className "")
      ∧ (∀ (field : Field) (env' : List (String × String)),
        env'.lookup field.variableName = env.lookup field.variableName →
          (ofEnvironment env').1.get field = (ofEnvironment env).1.get field)
      ∧ ((∃ page i, Interaction.isIgnored (ofEnvironment env).1 page i = true)
        ↔ (ofEnvironment env).1.ignoreClass ≠ ""
          ∧ ∀ c ∈ (ofEnvironment env).1.ignoreClass.toList, Text.isBlank c = false) := by
  refine ⟨fun field => isUsable_get_iff field env, fun field text value => get_of_asks, ?_,
    fun field => get_of_isHollow, ?_, Interaction.exists_isIgnored_iff⟩
  · intro field hasks
    constructor
    · intro hdefault hhollow
      have husable : (({} : Settings).get field).IsUsable := by
        have hnone : ¬ field.IsHollow [] := by simp [Field.IsHollow]
        exact (isUsable_get_iff field []).2 hnone
      rw [← hdefault, isUsable_get_iff] at husable
      exact husable hhollow
    · exact get_of_not_asks hasks
  · intro field env' hlookup
    obtain ⟨-, default, -, -, hget⟩ | ⟨-, default, -, -, hget⟩ | ⟨-, -, hget⟩ :=
      get_ofEnvironment_cases field
    all_goals rw [hget, hget]
    · rw [classFrom, classFrom, hlookup]
    · rw [numberFrom, numberFrom, hlookup]
    · rw [hlookup]

/-- Two spaces are taken for the marker of the overlay, which is empty then. -/
theorem not_isUsable_blankMarker :
    ¬ ((ofEnvironment [("SCRIPTRECORDER_IGNORE_CLASS", "  ")]).1.get .ignoreClass).IsUsable := by
  rintro ⟨hne, -⟩
  apply hne
  decide +kernel

/-- A number may have a sign, underscores and blanks around it; zero is too small. -/
example : ofEnvironment [("SCRIPTRECORDER_WAIT_TIMEOUT", " +2_500 "),
      ("SCRIPTRECORDER_MAX_PAGES", "0"), ("SCRIPTRECORDER_TABLE_CLASS", " grid ")]
    = ({ waitTimeout := 2500, tableClass := "grid" },
      [.notPositive "SCRIPTRECORDER_MAX_PAGES" 0]) := by
  decide +kernel

end Settings

end Retrace
