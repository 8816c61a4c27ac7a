import FaustLens.ConfigFile
import FaustLens.Proofs.Config.Value
import FaustLens.Proofs.Toml.Ordered

/-!
# The validation of settings

A table of settings is acceptable if each of the four settings is absent or has a value that it can
take (`Acceptable`). Then it describes one configuration (`Describes`), in which an absent setting
has its default. Else it has a first problem (`FirstProblem`): that of the first setting in the
fixed order whose value cannot be taken. A table is read (`Config::apply`, `config`) iff it is
acceptable; it is read as what it describes, and the error is its first problem.

The overrides are in the order of the table of colours. In a file that is the increasing order of the
names, because the keys of every table in it increase.

Results:
* `ofTable_eq_ok_iff`, `ofTable_eq_error_iff`: the configuration and the error of a table.
* `ofTable_congr`: other keys have no influence.
* `Describes.pairwise_colors`: the order of the overrides.
* `loadFrom_of_read?`: a file is loaded as its table is read.
* `settings_validated`: how a table of settings is read, and how a file.
-/

namespace FaustLens.Config

/-! ## Acceptable tables -/

/-- The setting is absent or has such a value. -/
def Fits (table : Toml.Table) (key : String) (P : Toml → Prop) : Prop :=
  ∀ value, Toml.get? table key = some value → P value

/-- The setting for line numbers can be taken. -/
def LineNumbersFit (table : Toml.Table) : Prop := Fits table "line-numbers" IsBoolean

/-- The setting for the use of colours can be taken. -/
def ColorFits (table : Toml.Table) : Prop :=
  Fits table "color" fun value => IsBoolean value ∨ IsOneOf ["auto", "always", "never"] value

/-- The setting for the palette can be taken. -/
def ThemeFits (table : Toml.Table) : Prop := Fits table "theme" (IsOneOf ["truecolor", "ansi"])

/-- The colours for single categories can be taken. -/
def ColorsFit (table : Toml.Table) : Prop :=
  Fits table "colors" fun value => ∃ entries, value = .table entries ∧ ∀ e ∈ entries, IsOverride e

/-- All settings in the table can be taken. -/
structure Acceptable (table : Toml.Table) : Prop where
  lineNumbers : LineNumbersFit table
  color : ColorFits table
  theme : ThemeFits table
  colors : ColorsFit table

/-! ## Configurations and problems -/

/-- The table gives the setting: as its value means it or, if it is absent, by its default. -/
inductive Gives {α : Type} (Means : Toml → α → Prop) (table : Toml.Table) (key : String)
    (default : α) : α → Prop
  | present {value : Toml} {a : α} (hvalue : Toml.get? table key = some value)
      (h : Means value a) : Gives Means table key default a
  | absent (h : Toml.get? table key = none) : Gives Means table key default default

/-- The table describes the configuration. -/
structure Describes (table : Toml.Table) (c : Config) : Prop where
  lineNumbers : Gives (fun value b => value = .boolean b) table "line-numbers" false c.lineNumbers
  color : Gives MeansMode table "color" .auto c.color
  palette : Gives (IsChoice Palette.names) table "theme" .truecolor c.palette
  colors : Gives MeansOverrides table "colors" [] c.colors

/-- The first problem of a table of settings. -/
inductive FirstProblem (table : Toml.Table) : SettingError → Prop
  | lineNumbers (h : ¬ LineNumbersFit table) : FirstProblem table .lineNumbers
  | color (hlines : LineNumbersFit table) (h : ¬ ColorFits table) :
      FirstProblem table (.choice "color" ["auto", "always", "never"])
  | theme (hlines : LineNumbersFit table) (hcolor : ColorFits table) (h : ¬ ThemeFits table) :
      FirstProblem table (.choice "theme" ["truecolor", "ansi"])
  | colors {value : Toml} {e : SettingError} (hlines : LineNumbersFit table)
      (hcolor : ColorFits table) (htheme : ThemeFits table)
      (hvalue : Toml.get? table "colors" = some value) (h : ColorsProblem value e) :
      FirstProblem table e

/-! ## Settings of a table -/

section Setting

variable {α : Type} {table : Toml.Table} {key : String} {read : Toml → Except SettingError α}
  {default : α} {e : SettingError}

theorem setting_eq_ok_iff {Means : Toml → α → Prop}
    (hread : ∀ value a, read value = .ok a ↔ Means value a) {a : α} :
    setting table key read default = .ok a ↔ Gives Means table key default a := by
  unfold setting
  constructor
  · intro h
    split at h
    · rename_i value hvalue
      exact .present hvalue ((hread value a).mp h)
    · rename_i hnone
      obtain rfl := Except.ok.inj h
      exact .absent hnone
  · intro h
    cases h with
    | present hvalue h =>
      simp only [hvalue]
      exact (hread _ _).mpr h
    | absent h => simp only [h]

theorem exists_gives_iff {Means : Toml → α → Prop} :
    (∃ a, Gives Means table key default a) ↔ Fits table key fun value => ∃ a, Means value a := by
  constructor
  · rintro ⟨a, h⟩ value hvalue
    cases h with
    | present hvalue' h =>
      obtain rfl := Option.some.inj (hvalue'.symm.trans hvalue)
      exact ⟨a, h⟩
    | absent h => exact absurd (h.symm.trans hvalue) (by simp)
  · intro h
    cases hvalue : Toml.get? table key with
    | none => exact ⟨default, .absent hvalue⟩
    | some value =>
      obtain ⟨a, ha⟩ := h value hvalue
      exact ⟨a, .present hvalue ha⟩

theorem setting_eq_error_iff : setting table key read default = .error e ↔
    ∃ value, Toml.get? table key = some value ∧ read value = .error e := by
  unfold setting
  cases Toml.get? table key <;> simp

/-- A setting with one error only has it iff its value cannot be taken. -/
theorem setting_eq_error_iff_of_one {P : Toml → Prop} {e₀ : SettingError}
    (hread : ∀ value e, read value = .error e ↔ ¬ P value ∧ e = e₀) :
    setting table key read default = .error e ↔ ¬ Fits table key P ∧ e = e₀ := by
  rw [setting_eq_error_iff]
  simp only [hread, Fits, not_forall, exists_prop, ← and_assoc, exists_and_right]

end Setting

/-! ## Tables of settings -/

section Table

variable {table : Toml.Table} {e : SettingError}

theorem lineNumbersFit_iff : LineNumbersFit table ↔
    ∃ b, setting table "line-numbers" readLineNumbers false = .ok b := by
  simp only [setting_eq_ok_iff fun _ _ => readLineNumbers_eq_ok_iff, exists_gives_iff]
  rfl

theorem colorFits_iff :
    ColorFits table ↔ ∃ mode, setting table "color" readColor .auto = .ok mode := by
  simp only [setting_eq_ok_iff fun _ _ => readColor_eq_ok_iff, exists_gives_iff,
    exists_meansMode_iff]
  rfl

theorem themeFits_iff : ThemeFits table ↔
    ∃ palette, setting table "theme" (readChoice "theme" Palette.names) .truecolor = .ok palette := by
  simp only [setting_eq_ok_iff fun _ _ => readChoice_eq_ok_iff distinctChoices_palettes,
    exists_gives_iff, exists_isChoice_iff]
  rfl

theorem colorsFit_iff :
    ColorsFit table ↔ ∃ overrides, setting table "colors" readColors [] = .ok overrides := by
  simp only [setting_eq_ok_iff fun _ _ => readColors_eq_ok_iff, exists_gives_iff,
    exists_meansOverrides_iff]
  rfl

/-- **A table is read** as the configuration that it describes. -/
theorem ofTable_eq_ok_iff {c : Config} : ofTable table = .ok c ↔ Describes table c := by
  simp only [ofTable, bind_eq_ok_iff, setting_eq_ok_iff fun _ _ => readLineNumbers_eq_ok_iff,
    setting_eq_ok_iff fun _ _ => readColor_eq_ok_iff,
    setting_eq_ok_iff fun _ _ => readChoice_eq_ok_iff distinctChoices_palettes,
    setting_eq_ok_iff fun _ _ => readColors_eq_ok_iff]
  constructor
  · rintro ⟨lineNumbers, hlines, color, hcolor, palette, hpalette, colors, hcolors, h⟩
    obtain rfl := Except.ok.inj h
    exact ⟨hlines, hcolor, hpalette, hcolors⟩
  · rintro ⟨hlines, hcolor, hpalette, hcolors⟩
    exact ⟨_, hlines, _, hcolor, _, hpalette, _, hcolors, rfl⟩

/-- **A table is read** iff all its settings can be taken. -/
theorem exists_ofTable_eq_ok_iff : (∃ c, ofTable table = .ok c) ↔ Acceptable table := by
  simp only [ofTable, bind_eq_ok_iff]
  constructor
  · rintro ⟨c, lineNumbers, hlines, color, hcolor, palette, hpalette, colors, hcolors, -⟩
    exact ⟨lineNumbersFit_iff.mpr ⟨_, hlines⟩, colorFits_iff.mpr ⟨_, hcolor⟩,
      themeFits_iff.mpr ⟨_, hpalette⟩, colorsFit_iff.mpr ⟨_, hcolors⟩⟩
  · rintro ⟨hlines, hcolor, htheme, hcolors⟩
    obtain ⟨lineNumbers, hlines⟩ := lineNumbersFit_iff.mp hlines
    obtain ⟨color, hcolor⟩ := colorFits_iff.mp hcolor
    obtain ⟨palette, htheme⟩ := themeFits_iff.mp htheme
    obtain ⟨colors, hcolors⟩ := colorsFit_iff.mp hcolors
    exact ⟨_, _, hlines, _, hcolor, _, htheme, _, hcolors, rfl⟩

theorem setting_lineNumbers_eq_error_iff :
    setting table "line-numbers" readLineNumbers false = .error e ↔
      ¬ LineNumbersFit table ∧ e = .lineNumbers :=
  setting_eq_error_iff_of_one fun _ _ => readLineNumbers_eq_error_iff

theorem setting_color_eq_error_iff : setting table "color" readColor .auto = .error e ↔
    ¬ ColorFits table ∧ e = .choice "color" ["auto", "always", "never"] :=
  setting_eq_error_iff_of_one fun _ _ => readColor_eq_error_iff

theorem setting_theme_eq_error_iff :
    setting table "theme" (readChoice "theme" Palette.names) .truecolor = .error e ↔
      ¬ ThemeFits table ∧ e = .choice "theme" ["truecolor", "ansi"] :=
  setting_eq_error_iff_of_one fun _ _ => readChoice_eq_error_iff distinctChoices_palettes

theorem setting_colors_eq_error_iff : setting table "colors" readColors [] = .error e ↔
    ∃ value, Toml.get? table "colors" = some value ∧ ColorsProblem value e := by
  simp only [setting_eq_error_iff, readColors_eq_error_iff]

/-- **The error of a table** is its first problem. -/
theorem ofTable_eq_error_iff : ofTable table = .error e ↔ FirstProblem table e := by
  simp only [ofTable, bind_eq_error_iff, pure_ne_error, and_false, exists_false, or_false,
    exists_and_right, ← lineNumbersFit_iff, ← colorFits_iff, ← themeFits_iff,
    setting_lineNumbers_eq_error_iff, setting_color_eq_error_iff, setting_theme_eq_error_iff,
    setting_colors_eq_error_iff]
  -- What is left says for each setting that those before it fit, as the first problem does.
  constructor
  · rintro (⟨h, rfl⟩ | ⟨hlines, ⟨h, rfl⟩ | ⟨hcolor, ⟨h, rfl⟩ | ⟨htheme, value, hvalue, h⟩⟩⟩)
    · exact .lineNumbers h
    · exact .color hlines h
    · exact .theme hlines hcolor h
    · exact .colors hlines hcolor htheme hvalue h
  · intro h
    cases h with
    | lineNumbers h => exact Or.inl ⟨h, rfl⟩
    | color hlines h => exact Or.inr ⟨hlines, Or.inl ⟨h, rfl⟩⟩
    | theme hlines hcolor h => exact Or.inr ⟨hlines, Or.inr ⟨hcolor, Or.inl ⟨h, rfl⟩⟩⟩
    | colors hlines hcolor htheme hvalue h =>
      exact Or.inr ⟨hlines, Or.inr ⟨hcolor, Or.inr ⟨htheme, _, hvalue, h⟩⟩⟩

/-- **Other keys** have no influence. -/
theorem ofTable_congr {table' : Toml.Table}
    (h : ∀ key ∈ ["line-numbers", "color", "theme", "colors"],
      Toml.get? table' key = Toml.get? table key) : ofTable table' = ofTable table := by
  simp only [List.forall_mem_cons] at h
  obtain ⟨hlines, hcolor, htheme, hcolors, -⟩ := h
  simp only [ofTable, setting, hlines, hcolor, htheme, hcolors]

end Table

/-- **The overrides** are in increasing order of their names, if the keys of all tables increase. -/
theorem Describes.pairwise_colors {table : Toml.Table} {c : Config} (h : Describes table c)
    (hordered : Toml.Ordered (.table table)) :
    c.colors.Pairwise fun a b => a.1.name < b.1.name := by
  obtain ⟨-, -, -, hcolors⟩ := h
  generalize c.colors = overrides at hcolors
  cases hcolors with
  | present hvalue hmeans =>
    obtain ⟨entries, rfl, hentries⟩ := hmeans
    have hkeys : (entries.map (·.1)).Pairwise (· < ·) :=
      List.pairwise_map.mpr (hordered.of_get? hvalue).keysIncrease
    rw [← names_of_forall₂ hentries] at hkeys
    exact List.pairwise_map.mp hkeys
  | absent => exact List.Pairwise.nil

/-! ## Files -/

/-- A file is loaded as its table is read, and an error comes with its path. -/
theorem loadFrom_of_read? {read : ReadFile} {path : String} {text : Text} {table : Toml.Table}
    (hread : (read path).bind decode = .ok text) (htable : Toml.read? text = some table) :
    loadFrom read path = (ofTable table).mapError (.invalidSetting path) := by
  simp only [loadFrom, hread, ofText, htable]

/-- **Settings are validated** completely and in a fixed order. A table is read iff all its settings
can be taken, then as the configuration that it describes, with the overrides in the order of the keys;
else the error is its first problem. Keys of no setting have no influence. A file with such a table is
loaded in the same way, and the error comes with its path. -/
theorem settings_validated (table : Toml.Table) :
    ((∃ c, ofTable table = .ok c) ↔ Acceptable table) ∧
    (∀ c, ofTable table = .ok c ↔ Describes table c) ∧
    (Toml.Ordered (.table table) → ∀ c, ofTable table = .ok c →
      c.colors.Pairwise fun a b => a.1.name < b.1.name) ∧
    (∀ e, ofTable table = .error e ↔ FirstProblem table e) ∧
    (∀ table', (∀ key ∈ ["line-numbers", "color", "theme", "colors"],
      Toml.get? table' key = Toml.get? table key) → ofTable table' = ofTable table) ∧
    ∀ (read : ReadFile) (path : String) (text : Text), (read path).bind decode = .ok text →
      Toml.read? text = some table →
      Toml.Ordered (.table table) ∧
      (∀ c, loadFrom read path = .ok c ↔ Describes table c) ∧
      ∀ e, loadFrom read path = .error e ↔
        ∃ cause, FirstProblem table cause ∧ e = .invalidSetting path cause := by
  refine ⟨exists_ofTable_eq_ok_iff, fun c => ofTable_eq_ok_iff, fun hordered c h =>
    (ofTable_eq_ok_iff.mp h).pairwise_colors hordered, fun e => ofTable_eq_error_iff,
    fun table' h => ofTable_congr h, fun read path text hread htable => ?_⟩
  rw [loadFrom_of_read? hread htable]
  refine ⟨Toml.ordered_of_read? htable, fun c => ?_, fun e => ?_⟩
  · rw [mapError_eq_ok_iff, ofTable_eq_ok_iff]
  · simp only [mapError_eq_error_iff, ofTable_eq_error_iff]

/-- The theorem for a file whose overrides are in another order than its names, also with one key
more, and for a file with two entries that are wrong, the second of which goes first. -/
theorem settings_validated_files :
    let good := "color = \"ALWAYS\"\n[colors]\nKeyword = \"red\"\nComment = \"#012345\""
    let bad := "color = true\n[colors]\nKeyword = 1\nComment = 2"
    let read : ReadFile := fun path => .ok (if path = "good" then good else bad).toUTF8
    let c : Config :=
      { color := .always, colors := [(.comment, .rgb ⟨1, 35, 69⟩), (.keyword, .ansi .red false)] }
    let cause : SettingError := .invalidColor "Comment" "2"
    (∃ table, (read "good").bind decode = .ok good.toList ∧ Toml.read? good.toList = some table ∧
      Toml.Ordered (.table table) ∧ loadFrom read "good" = .ok c ∧ Describes table c ∧
      Acceptable table ∧ (c.colors.Pairwise fun a b => a.1.name < b.1.name) ∧
      (∀ key ∈ ["line-numbers", "color", "theme", "colors"],
        Toml.get? (("extra", .integer 0) :: table) key = Toml.get? table key) ∧
      ofTable (("extra", .integer 0) :: table) = .ok c) ∧
    ∃ table, (read "bad").bind decode = .ok bad.toList ∧ Toml.read? bad.toList = some table ∧
      loadFrom read "bad" = .error (.invalidSetting "bad" cause) ∧ FirstProblem table cause ∧
      ofTable table = .error cause := by
  intro good bad read c cause
  constructor
  · have hread : (read "good").bind decode = .ok good.toList := by decide +kernel
    have hsome : (Toml.read? good.toList).isSome = true := by decide +kernel
    have hload : loadFrom read "good" = .ok c := by decide +kernel
    obtain ⟨table, htable⟩ := Option.isSome_iff_exists.mp hsome
    have hextra : ∀ key ∈ ["line-numbers", "color", "theme", "colors"],
        Toml.get? (("extra", .integer 0) :: table) key = Toml.get? table key := by
      simp [Toml.get?, List.lookup_cons]
    obtain ⟨haccepted, hdescribes, hsorted, -, hother, hfiles⟩ := settings_validated table
    obtain ⟨hordered, hloaded, -⟩ := hfiles read "good" _ hread htable
    have hc := (hloaded c).mp hload
    have hok := (hdescribes c).mpr hc
    exact ⟨table, hread, htable, hordered, hload, hc, haccepted.mp ⟨c, hok⟩,
      hsorted hordered c hok, hextra, (hother _ hextra).trans hok⟩
  · have hread : (read "bad").bind decode = .ok bad.toList := by decide +kernel
    have hsome : (Toml.read? bad.toList).isSome = true := by decide +kernel
    have hload : loadFrom read "bad" = .error (.invalidSetting "bad" cause) := by decide +kernel
    obtain ⟨table, htable⟩ := Option.isSome_iff_exists.mp hsome
    obtain ⟨-, -, -, hproblem, -, hfiles⟩ := settings_validated table
    obtain ⟨-, -, hfailed⟩ := hfiles read "bad" _ hread htable
    obtain ⟨cause', hcause, heq⟩ := (hfailed _).mp hload
    obtain rfl : cause = cause' := (Error.invalidSetting.inj heq).2
    exact ⟨table, hread, htable, hload, hcause, (hproblem cause).mpr hcause⟩

end FaustLens.Config
