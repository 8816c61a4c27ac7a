import FaustLens.Config
import Mathlib.Data.List.Forall2

/-!
# The values of settings

The value of a setting is read (`parse_choice` in `config`, `parse_overrides` in `syntax::theme`) as
what it means. A mode for colours and a palette are written by their names, in letters of either
case (`IsChoice`), the mode also as a truth value (`MeansMode`). A table of colours means one
override for each of its entries, in the same order (`MeansOverrides`).

Any other value has a problem. In a table of colours it is that of the first entry that is no override
(`EntriesProblem`), and in an entry with two problems that of its category (`EntryProblem`).

Results:
* `readChoice_eq_ok_iff`, `readChoice_eq_error_iff`: the values that name a choice.
* `readColor_eq_ok_iff`, `readColor_eq_error_iff`: the modes.
* `readOverrides_eq_ok_iff`, `readOverrides_eq_error_iff`: the tables of colours.
-/

namespace FaustLens

/-! ## Steps that can fail -/

section

variable {ε α β : Type} {x : Except ε α} {f : α → Except ε β}

theorem bind_eq_ok_iff {b : β} : x >>= f = .ok b ↔ ∃ a, x = .ok a ∧ f a = .ok b := by
  cases x <;> simp [bind, Except.bind]

theorem bind_eq_error_iff {e : ε} :
    x >>= f = .error e ↔ x = .error e ∨ ∃ a, x = .ok a ∧ f a = .error e := by
  cases x <;> simp [bind, Except.bind]

theorem pure_ne_error {a : α} {e : ε} : (pure a : Except ε α) ≠ .error e := by
  simp [pure, Except.pure]

theorem mapError_eq_ok_iff {ε' : Type} {f : ε → ε'} {a : α} :
    x.mapError f = .ok a ↔ x = .ok a := by
  cases x <;> simp [Except.mapError]

theorem mapError_eq_error_iff {ε' : Type} {f : ε → ε'} {e : ε'} :
    x.mapError f = .error e ↔ ∃ cause, x = .error cause ∧ e = f cause := by
  cases x <;> simp [Except.mapError, eq_comm]

/-- A step with one error only has it iff it does not succeed. -/
theorem eq_error_iff_of_ok_iff {e e₀ : ε} {P : Prop} (hok : (∃ a, x = .ok a) ↔ P)
    (herror : ∀ e, x = .error e → e = e₀) : x = .error e ↔ ¬ P ∧ e = e₀ := by
  rw [← hok]
  constructor
  · rintro rfl
    exact ⟨by simp, herror e rfl⟩
  · rintro ⟨hnot, rfl⟩
    cases x with
    | error e' => rw [herror e' rfl]
    | ok a => exact absurd ⟨a, rfl⟩ hnot

end

/-- If one member of a list at most passes the test, that one is found. -/
theorem find?_eq_some_iff_mem {α : Type} {p : α → Bool} {l : List α}
    (hunique : ∀ a ∈ l, ∀ b ∈ l, p a = true → p b = true → a = b) {a : α} :
    l.find? p = some a ↔ a ∈ l ∧ p a = true := by
  refine ⟨fun h => ⟨List.mem_of_find?_eq_some h, List.find?_some h⟩, fun ⟨hmem, ha⟩ => ?_⟩
  cases hfind : l.find? p with
  | none => exact absurd ha (List.find?_eq_none.mp hfind a hmem)
  | some b =>
    rw [hunique b (List.mem_of_find?_eq_some hfind) a hmem (List.find?_some hfind) ha]

namespace Config

/-! ## What values can be -/

/-- The strings are equal up to the case of ASCII letters. -/
def SameLetters (a b : String) : Prop :=
  List.Forall₂ (fun c d => c.toLower = d.toLower) a.toList b.toList

/-- The value is a truth value. -/
def IsBoolean (value : Toml) : Prop := ∃ b, value = .boolean b

/-- The value is one of the names, in letters of either case. -/
def IsOneOf (names : List String) (value : Toml) : Prop :=
  ∃ s, value = .string s ∧ ∃ name ∈ names, SameLetters name s

/-- The value is a string that is read as a colour. -/
def IsColor (value : Toml) : Prop := ∃ s color, value = .string s ∧ Color.parse? s = some color

/-- The entry has the name of a category and a colour. -/
def IsOverride (entry : String × Toml) : Prop :=
  (∃ category : Category, category.name = entry.1) ∧ IsColor entry.2

/-! ## What values mean -/

/-- The value is the name of the choice, in letters of either case. -/
def IsChoice {α : Type} (choices : List (String × α)) (value : Toml) (choice : α) : Prop :=
  ∃ s name, value = .string s ∧ (name, choice) ∈ choices ∧ SameLetters name s

/-- The value means the mode. -/
inductive MeansMode : Toml → ColorMode → Prop
  | true : MeansMode (.boolean true) .auto
  | false : MeansMode (.boolean false) .never
  | name {value : Toml} {mode : ColorMode} (h : IsChoice ColorMode.names value mode) :
      MeansMode value mode

/-- The entry means the override. -/
def MeansOverride (entry : String × Toml) (override : Category × Color) : Prop :=
  override.1.name = entry.1 ∧ ∃ s, entry.2 = .string s ∧ Color.parse? s = some override.2

/-- The value means the overrides, in its order. -/
def MeansOverrides (value : Toml) (overrides : Overrides) : Prop :=
  ∃ entries, value = .table entries ∧ List.Forall₂ MeansOverride entries overrides

/-! ## What is wrong with values -/

/-- What is wrong with an entry of the table of colours. The category goes first. -/
inductive EntryProblem (key : String) (value : Toml) : SettingError → Prop
  | unknownCategory (h : ∀ category : Category, category.name ≠ key) :
      EntryProblem key value (.unknownCategory key)
  | invalidColor {category : Category} (hcategory : category.name = key) (h : ¬ IsColor value) :
      EntryProblem key value (.invalidColor key (String.ofList value.display))

/-- What is wrong with a table of colours: the first entry that is no override. -/
def EntriesProblem (entries : Toml.Table) (e : SettingError) : Prop :=
  ∃ before key value after, entries = before ++ (key, value) :: after ∧
    (∀ entry ∈ before, IsOverride entry) ∧ EntryProblem key value e

/-- What is wrong with the value of the colours. -/
inductive ColorsProblem : Toml → SettingError → Prop
  | noTable {value : Toml} (h : ∀ entries, value ≠ .table entries) : ColorsProblem value .colors
  | entry {entries : Toml.Table} {e : SettingError} (h : EntriesProblem entries e) :
      ColorsProblem (.table entries) e

/-! ## Names of choices -/

theorem equalIgnoringCase_iff {a b : String} : equalIgnoringCase a b = true ↔ SameLetters a b := by
  rw [equalIgnoringCase, beq_iff_eq, SameLetters, ← List.forall₂_eq_eq_eq,
    List.forall₂_map_left_iff, List.forall₂_map_right_iff]

theorem equalIgnoringCase_of_same {a b s : String} (ha : equalIgnoringCase a s = true)
    (hb : equalIgnoringCase b s = true) : equalIgnoringCase a b = true := by
  simp only [equalIgnoringCase, beq_iff_eq] at ha hb ⊢
  rw [ha, hb]

section Choice

variable {α : Type} {key : String} {choices : List (String × α)} {value : Toml}

/-- No two choices have the same name, letters of either case being the same. -/
def DistinctChoices (choices : List (String × α)) : Prop :=
  ∀ a ∈ choices, ∀ b ∈ choices, equalIgnoringCase a.1 b.1 = true → a = b

theorem find?_choice_eq_some_iff (hdistinct : DistinctChoices choices) {s : String}
    {a : String × α} : (choices.find? fun x => equalIgnoringCase x.1 s) = some a ↔
      a ∈ choices ∧ SameLetters a.1 s := by
  rw [← equalIgnoringCase_iff]
  exact find?_eq_some_iff_mem fun a ha b hb has hbs =>
    hdistinct a ha b hb (equalIgnoringCase_of_same has hbs)

/-- **A choice** is read from its name, in letters of either case. -/
theorem readChoice_eq_ok_iff (hdistinct : DistinctChoices choices) {choice : α} :
    readChoice key choices value = .ok choice ↔ IsChoice choices value choice := by
  unfold readChoice
  constructor
  · intro h
    split at h
    · rename_i name choice' hfind
      obtain ⟨s, hs, hfind⟩ := Option.bind_eq_some_iff.mp hfind
      obtain rfl := Except.ok.inj h
      obtain ⟨hmem, hname⟩ := (find?_choice_eq_some_iff hdistinct).mp hfind
      exact ⟨s, name, Toml.string?_eq_some_iff.mp hs, hmem, hname⟩
    · exact absurd h (by simp)
  · rintro ⟨s, name, rfl, hmem, hname⟩
    have hfind := (find?_choice_eq_some_iff hdistinct).mpr ⟨hmem, hname⟩
    simp only [Toml.string?, Option.bind_some, hfind]

theorem exists_isChoice_iff :
    (∃ choice, IsChoice choices value choice) ↔ IsOneOf (choices.map (·.1)) value := by
  constructor
  · rintro ⟨choice, s, name, hs, hmem, hname⟩
    exact ⟨s, hs, name, List.mem_map.mpr ⟨(name, choice), hmem, rfl⟩, hname⟩
  · rintro ⟨s, hs, name, hmem, hname⟩
    obtain ⟨⟨name, choice⟩, hchoice, rfl⟩ := List.mem_map.mp hmem
    exact ⟨choice, s, name, hs, hchoice, hname⟩

/-- **No choice** is read iff the value is the name of none. -/
theorem readChoice_eq_error_iff (hdistinct : DistinctChoices choices) {e : SettingError} :
    readChoice key choices value = .error e ↔
      ¬ IsOneOf (choices.map (·.1)) value ∧ e = .choice key (choices.map (·.1)) := by
  refine eq_error_iff_of_ok_iff ?_ fun e h => ?_
  · simp only [readChoice_eq_ok_iff hdistinct, exists_isChoice_iff]
  · unfold readChoice at h
    split at h
    · exact absurd h (by simp)
    · exact (Except.error.inj h).symm

end Choice

theorem distinctChoices_modes : DistinctChoices ColorMode.names := by
  unfold DistinctChoices
  decide +kernel

theorem distinctChoices_palettes : DistinctChoices Palette.names := by
  unfold DistinctChoices
  decide +kernel

/-! ## Single settings -/

section Value

variable {value : Toml} {e : SettingError}

theorem readLineNumbers_eq_ok_iff {b : Bool} :
    readLineNumbers value = .ok b ↔ value = .boolean b := by
  unfold readLineNumbers
  rw [← Toml.boolean?_eq_some_iff]
  split
  · rename_i b' hb
    simp [hb]
  · rename_i hnone
    simp [hnone]

theorem readLineNumbers_eq_error_iff :
    readLineNumbers value = .error e ↔ ¬ IsBoolean value ∧ e = .lineNumbers := by
  refine eq_error_iff_of_ok_iff ?_ fun e h => ?_
  · simp only [readLineNumbers_eq_ok_iff, IsBoolean]
  · unfold readLineNumbers at h
    split at h
    · exact absurd h (by simp)
    · exact (Except.error.inj h).symm

theorem readColor_eq_ok_iff {mode : ColorMode} :
    readColor value = .ok mode ↔ MeansMode value mode := by
  unfold readColor
  constructor
  · intro h
    split at h
    · obtain rfl := Except.ok.inj h
      exact .true
    · obtain rfl := Except.ok.inj h
      exact .false
    · exact .name ((readChoice_eq_ok_iff distinctChoices_modes).mp h)
  · intro h
    cases h with
    | true => rfl
    | false => rfl
    | name h =>
      obtain ⟨s, name, rfl, -⟩ := id h
      exact (readChoice_eq_ok_iff distinctChoices_modes).mpr h

theorem exists_meansMode_iff : (∃ mode, MeansMode value mode) ↔
    IsBoolean value ∨ IsOneOf ["auto", "always", "never"] value := by
  have hnames : ColorMode.names.map (·.1) = ["auto", "always", "never"] := rfl
  rw [← hnames, ← exists_isChoice_iff]
  constructor
  · rintro ⟨mode, h⟩
    cases h with
    | true => exact Or.inl ⟨true, rfl⟩
    | false => exact Or.inl ⟨false, rfl⟩
    | name h => exact Or.inr ⟨mode, h⟩
  · rintro (⟨b, rfl⟩ | ⟨mode, h⟩)
    · cases b with
      | true => exact ⟨.auto, .true⟩
      | false => exact ⟨.never, .false⟩
    · exact ⟨mode, .name h⟩

theorem readColor_eq_error_iff : readColor value = .error e ↔
    ¬ (IsBoolean value ∨ IsOneOf ["auto", "always", "never"] value) ∧
      e = .choice "color" ["auto", "always", "never"] := by
  refine eq_error_iff_of_ok_iff ?_ fun e h => ?_
  · simp only [readColor_eq_ok_iff, exists_meansMode_iff]
  · unfold readColor at h
    split at h
    · exact absurd h (by simp)
    · exact absurd h (by simp)
    · exact ((readChoice_eq_error_iff distinctChoices_modes).mp h).2

end Value

/-! ## Colours of single categories -/

section Overrides

variable {key : String} {value : Toml} {entries : Toml.Table} {e : SettingError}

theorem exists_meansOverride_iff {entry : String × Toml} :
    (∃ override, MeansOverride entry override) ↔ IsOverride entry := by
  constructor
  · rintro ⟨⟨category, color⟩, hname, s, hs, hcolor⟩
    exact ⟨⟨category, hname⟩, s, color, hs, hcolor⟩
  · rintro ⟨⟨category, hname⟩, s, color, hs, hcolor⟩
    exact ⟨(category, color), hname, s, hs, hcolor⟩

theorem colorOf_eq_some_iff {color : Color} : value.string?.bind Color.parse? = some color ↔
    ∃ s, value = .string s ∧ Color.parse? s = some color := by
  simp only [Option.bind_eq_some_iff, Toml.string?_eq_some_iff]

theorem readOverride_eq_ok_iff {override : Category × Color} :
    readOverride key value = .ok override ↔ MeansOverride (key, value) override := by
  obtain ⟨category, color⟩ := override
  unfold readOverride MeansOverride
  rw [← colorOf_eq_some_iff, ← Category.ofName?_eq_some_iff]
  split
  · rename_i hnone
    simp [hnone]
  · rename_i category' hcategory
    split
    · rename_i hnone
      simp [hnone]
    · rename_i color' hcolor
      simp [hcategory, hcolor]

/-- **What is wrong with an entry**: its category or, if that exists, its colour. -/
theorem readOverride_eq_error_iff :
    readOverride key value = .error e ↔ EntryProblem key value e := by
  unfold readOverride
  constructor
  · intro h
    split at h
    · rename_i hnone
      obtain rfl := Except.error.inj h
      exact .unknownCategory fun c hc =>
        absurd (Category.ofName?_eq_some_iff.mpr hc) (by simp [hnone])
    · rename_i category hcategory
      split at h
      · rename_i hnone
        obtain rfl := Except.error.inj h
        refine .invalidColor (Category.ofName?_eq_some_iff.mp hcategory) fun ⟨s, color, hs⟩ => ?_
        exact absurd (colorOf_eq_some_iff.mpr ⟨s, hs⟩) (by simp [hnone])
      · exact absurd h (by simp)
  · intro h
    cases h with
    | unknownCategory h =>
      have hnone : Category.ofName? key = none := Option.eq_none_iff_forall_ne_some.mpr
        fun c hc => h c (Category.ofName?_eq_some_iff.mp hc)
      simp only [hnone]
    | invalidColor hcategory h =>
      have hnone : value.string?.bind Color.parse? = none :=
        Option.eq_none_iff_forall_ne_some.mpr fun color hcolor =>
          have ⟨s, hs⟩ := colorOf_eq_some_iff.mp hcolor
          h ⟨s, color, hs⟩
      simp only [Category.ofName?_eq_some_iff.mpr hcategory, hnone]

/-- **A table of colours** is read entry by entry. -/
theorem readOverrides_eq_ok_iff {overrides : Overrides} :
    readOverrides entries = .ok overrides ↔ List.Forall₂ MeansOverride entries overrides := by
  induction entries generalizing overrides with
  | nil => simp [readOverrides, eq_comm]
  | cons entry entries ih =>
    obtain ⟨key, value⟩ := entry
    simp only [readOverrides, bind_eq_ok_iff, readOverride_eq_ok_iff, ih,
      List.forall₂_cons_left_iff]
    constructor
    · rintro ⟨first, hfirst, others, hothers, h⟩
      exact ⟨first, others, hfirst, hothers, (Except.ok.inj h).symm⟩
    · rintro ⟨first, others, hfirst, hothers, rfl⟩
      exact ⟨first, hfirst, others, hothers, rfl⟩

theorem exists_forall₂_meansOverride_iff :
    (∃ overrides, List.Forall₂ MeansOverride entries overrides) ↔
      ∀ entry ∈ entries, IsOverride entry := by
  simp only [← exists_meansOverride_iff]
  induction entries with
  | nil => simp
  | cons entry entries ih =>
    rw [List.forall_mem_cons, ← ih]
    simp only [List.forall₂_cons_left_iff]
    constructor
    · rintro ⟨-, first, others, hfirst, hothers, rfl⟩
      exact ⟨⟨first, hfirst⟩, others, hothers⟩
    · rintro ⟨⟨first, hfirst⟩, others, hothers⟩
      exact ⟨first :: others, first, others, hfirst, hothers, rfl⟩

theorem entriesProblem_cons_iff : EntriesProblem ((key, value) :: entries) e ↔
    EntryProblem key value e ∨ IsOverride (key, value) ∧ EntriesProblem entries e := by
  constructor
  · rintro ⟨before, key', value', after, happend, hbefore, h⟩
    cases before with
    | nil =>
      obtain ⟨hentry, -⟩ := List.cons.inj happend
      obtain ⟨rfl, rfl⟩ := Prod.mk.inj hentry
      exact Or.inl h
    | cons first before =>
      obtain ⟨rfl, rfl⟩ := List.cons.inj happend
      rw [List.forall_mem_cons] at hbefore
      exact Or.inr ⟨hbefore.1, before, key', value', after, rfl, hbefore.2, h⟩
  · rintro (h | ⟨hfirst, before, key', value', after, rfl, hbefore, h⟩)
    · exact ⟨[], key, value, entries, rfl, by simp, h⟩
    · exact ⟨(key, value) :: before, key', value', after, rfl,
        List.forall_mem_cons.mpr ⟨hfirst, hbefore⟩, h⟩

/-- **The error of a table of colours** is that of its first entry that is no override. -/
theorem readOverrides_eq_error_iff :
    readOverrides entries = .error e ↔ EntriesProblem entries e := by
  induction entries with
  | nil => simp [readOverrides, EntriesProblem]
  | cons entry entries ih =>
    obtain ⟨key, value⟩ := entry
    rw [entriesProblem_cons_iff, ← exists_meansOverride_iff, ← ih]
    simp only [readOverrides, bind_eq_error_iff, readOverride_eq_error_iff,
      readOverride_eq_ok_iff, pure_ne_error, and_false, exists_false, or_false, exists_and_right]

/-- Overrides have the names that are the keys of their entries. -/
theorem names_of_forall₂ {overrides : Overrides}
    (h : List.Forall₂ MeansOverride entries overrides) :
    overrides.map (·.1.name) = entries.map (·.1) := by
  induction h with
  | nil => rfl
  | cons hfirst _ ih => rw [List.map_cons, List.map_cons, hfirst.1, ih]

end Overrides

/-! ## The value of the colours -/

section Colors

variable {value : Toml} {e : SettingError}

theorem table?_eq_none_iff : value.table? = none ↔ ∀ entries, value ≠ .table entries := by
  simp only [Option.eq_none_iff_forall_ne_some, ne_eq, Toml.table?_eq_some_iff]

theorem readColors_eq_ok_iff {overrides : Overrides} :
    readColors value = .ok overrides ↔ MeansOverrides value overrides := by
  unfold readColors MeansOverrides
  simp only [← Toml.table?_eq_some_iff, ← readOverrides_eq_ok_iff]
  cases value.table? <;> simp

theorem exists_meansOverrides_iff : (∃ overrides, MeansOverrides value overrides) ↔
    ∃ entries, value = .table entries ∧ ∀ entry ∈ entries, IsOverride entry := by
  unfold MeansOverrides
  rw [exists_comm]
  simp only [exists_and_left, exists_forall₂_meansOverride_iff]

theorem readColors_eq_error_iff : readColors value = .error e ↔ ColorsProblem value e := by
  unfold readColors
  constructor
  · intro h
    split at h
    · rename_i entries hentries
      obtain rfl := Toml.table?_eq_some_iff.mp hentries
      exact .entry (readOverrides_eq_error_iff.mp h)
    · rename_i hnone
      obtain rfl := Except.error.inj h
      exact .noTable (table?_eq_none_iff.mp hnone)
  · intro h
    cases h with
    | noTable h => rw [table?_eq_none_iff.mpr h]
    | entry h => exact readOverrides_eq_error_iff.mpr h

end Colors

end Config

end FaustLens
