import FaustLens.Error
import FaustLens.Theme
import FaustLens.Toml.Printer
import FaustLens.Toml.Reader

/-!
# Configuration

Model of `ColorMode`, `Palette` and `Config` (`config`): `enabled`, `theme`, `parse`, `apply`,
`parse_choice`; and of `parse_overrides` (`syntax::theme`). A choice is compared with its names as
`ValueEnum` of the library `clap` 4 does it when it ignores case, which concerns ASCII letters only.

A configuration has four settings: line numbers, when to use colours, the palette, and colours for
single categories. `Config.ofTable` reads them from a TOML table and checks them in this order; a
setting that is absent keeps its default, and other keys are ignored. `Config.theme` is the palette
with the colours applied.

Results:
* `ofTable_nil`: an empty table gives the default configuration.
-/

namespace FaustLens

/-- When to use colours. -/
inductive ColorMode
  /-- When the output is a terminal. -/
  | auto
  | always
  | never
deriving DecidableEq, Repr, Inhabited

namespace ColorMode

/-- The modes with their names. -/
def names : List (String × ColorMode) := [("auto", auto), ("always", always), ("never", never)]

/-- Whether colours are used, given whether the output is a terminal. -/
def enabled : ColorMode → (isTerminal : Bool) → Bool
  | auto, isTerminal => isTerminal
  | always, _ => true
  | never, _ => false

end ColorMode

/-- The palette that a theme starts from. -/
inductive Palette
  /-- 24-bit colours. -/
  | truecolor
  /-- The sixteen ANSI colours. -/
  | ansi
deriving DecidableEq, Repr, Inhabited

namespace Palette

/-- The palettes with their names. -/
def names : List (String × Palette) := [("truecolor", truecolor), ("ansi", ansi)]

/-- The theme of the palette. -/
def theme : Palette → Theme
  | truecolor => .truecolor
  | ansi => .ansi

end Palette

/-! ## Reading settings -/

/-- Foregrounds for single categories, in order. -/
abbrev Overrides := List (Category × Color)

/-- Read one entry of the table of colours. The category is checked before the colour. -/
def readOverride (key : String) (value : Toml) : Except SettingError (Category × Color) :=
  match Category.ofName? key with
  | none => .error (.unknownCategory key)
  | some category =>
    match value.string?.bind Color.parse? with
    | none => .error (.invalidColor key (String.ofList value.display))
    | some color => .ok (category, color)

/-- Read the table of colours, in the order of its keys. -/
def readOverrides : Toml.Table → Except SettingError Overrides
  | [] => .ok []
  | (key, value) :: rest => do
    let first ← readOverride key value
    let others ← readOverrides rest
    return first :: others

/-- Whether two strings are equal up to the case of ASCII letters. -/
def equalIgnoringCase (a b : String) : Bool :=
  a.toList.map Char.toLower == b.toList.map Char.toLower

/-- Read a setting whose value is one of several names, in letters of either case. -/
def readChoice {α : Type} (key : String) (choices : List (String × α)) (value : Toml) :
    Except SettingError α :=
  match value.string?.bind fun s => choices.find? (equalIgnoringCase ·.1 s) with
  | some (_, choice) => .ok choice
  | none => .error (.choice key (choices.map (·.1)))

/-- Settings of the program. -/
structure Config where
  lineNumbers : Bool := false
  color : ColorMode := .auto
  palette : Palette := .truecolor
  colors : Overrides := []
deriving DecidableEq, Repr, Inhabited

namespace Config

/-- Read the setting for line numbers. -/
def readLineNumbers (value : Toml) : Except SettingError Bool :=
  match value.boolean? with
  | some b => .ok b
  | none => .error .lineNumbers

/-- Read the setting for colours: a mode, or `true` for the automatic mode and `false` for none. -/
def readColor : Toml → Except SettingError ColorMode
  | .boolean true => .ok .auto
  | .boolean false => .ok .never
  | value => readChoice "color" ColorMode.names value

/-- Read the setting for the colours of categories. -/
def readColors (value : Toml) : Except SettingError Overrides :=
  match value.table? with
  | some table => readOverrides table
  | none => .error .colors

/-- Read a setting if its key is present; else keep its default. -/
def setting {α : Type} (table : Toml.Table) (key : String) (read : Toml → Except SettingError α)
    (absent : α) : Except SettingError α :=
  match Toml.get? table key with
  | some value => read value
  | none => .ok absent

/-- Read a configuration. -/
def ofTable (table : Toml.Table) : Except SettingError Config := do
  let lineNumbers ← setting table "line-numbers" readLineNumbers false
  let color ← setting table "color" readColor .auto
  let palette ← setting table "theme" (readChoice "theme" Palette.names) .truecolor
  let colors ← setting table "colors" readColors []
  return ⟨lineNumbers, color, palette, colors⟩

/-- The theme of the palette with the colours of the categories applied. -/
def theme (c : Config) : Theme := c.palette.theme.overrideColors c.colors

/-- Read the text of a configuration file, whose path is only reported. -/
def ofText (path : String) (text : Text) : Except Error Config :=
  match Toml.read? text with
  | none => .error (.malformedConfig path)
  | some table => (ofTable table).mapError (.invalidSetting path)

theorem ofTable_nil : ofTable [] = .ok {} := rfl

end Config

end FaustLens
