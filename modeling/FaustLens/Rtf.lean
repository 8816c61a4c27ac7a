import FaustLens.Output
import FaustLens.Span
import FaustLens.Theme

/-!
# RTF documents

Model of `render::rtf` and `render::escape_rtf`.

`Rtf.render` writes a text as a rich text document in a monospaced font. The colour table holds the
colours of the theme, each once, in category order; entry 0 is the automatic colour. A span in the
default style is written as it is, any other in a group that sets its colour and attributes.

Results:
* `mem_colorTable`: the table holds exactly the 24-bit values of the theme's colours.
-/

namespace FaustLens.Rtf

/-! ## Escaping -/

/-- A UTF-16 code unit as a signed number of sixteen bits. -/
def signed (unit : Nat) : Int := if unit < 0x8000 then unit else (unit : Int) - 0x10000

/-- How a code unit outside printable ASCII is written. -/
def escapeUnit (unit : Nat) : Text := ("\\u" ++ toString (signed unit) ++ "?").toList

/-- How a character is written. Carriage returns are left out. -/
def escapeChar (c : Char) : Text :=
  match c with
  | '\\' => ['\\', '\\']
  | '\x7b' => ['\\', '\x7b']
  | '\x7d' => ['\\', '\x7d']
  | '\n' => "\\par\n".toList
  | '\t' => "\\tab ".toList
  | '\r' => []
  | c => if ' ' ≤ c ∧ c ≤ '~' then [c] else (Text.charUnits c).flatMap escapeUnit

/-- How a text is written. -/
def escape (text : Text) : Text := text.flatMap escapeChar

/-! ## Colours -/

/-- The 24-bit values of the theme's foregrounds, each once, in category order. -/
def colorTable (theme : Theme) : List Rgb :=
  (Category.all.filterMap fun c => (theme.style c).foreground.rgb?).eraseDups

theorem mem_colorTable {theme : Theme} {v : Rgb} :
    v ∈ colorTable theme ↔ ∃ c, (theme.style c).foreground.rgb? = some v := by
  simp [colorTable, Category.mem_all]

/-- The entry of a colour, counted from one. -/
def colorIndex (table : List Rgb) (v : Rgb) : Nat :=
  match table.findIdx? (· == v) with
  | some i => i + 1
  | none => 0

/-! ## The document -/

/-- The definition of one colour. -/
def colorEntry (v : Rgb) : String :=
  "\\red" ++ toString v.red.toNat ++ "\\green" ++ toString v.green.toNat ++ "\\blue" ++
    toString v.blue.toNat ++ ";"

/-- Everything before the first span. -/
def header (table : List Rgb) : Output :=
  Output.say "\x7b\\rtf1\\ansi\\deff0\x7b\\fonttbl\x7b\\f0\\fmodern Menlo;\x7d\x7d\n\x7b\\colortbl;"
    ++ table.flatMap (fun v => Output.say (colorEntry v)) ++ Output.say "\x7d\n\\f0\\fs26\n"

/-- The control words that set a style. -/
def controls (table : List Rgb) (s : Style) : String :=
  (match s.foreground.rgb? with
    | some v => "\\cf" ++ toString (colorIndex table v)
    | none => "") ++
    (if s.bold then "\\b" else "") ++ (if s.italic then "\\i" else "")

/-- A piece of text in a style. -/
def styled (table : List Rgb) (s : Style) (part : Text) : Text :=
  if s.isDefault then escape part
  else '\x7b' :: ((controls table s).toList ++ ' ' :: escape part) ++ ['\x7d']

/-- Write some spans of a text. -/
def renderSpans (table : List Rgb) (theme : Theme) (text : Text) : List Span → Output
  | [] => Output.say "\x7d\n"
  | s :: rest =>
    match s.text? text with
    | none => [.missingSlice]
    | some part =>
      .write (styled table (theme.style s.category) part) :: renderSpans table theme text rest

/-- Write a text as a document. -/
def render (theme : Theme) (text : Text) (spans : List Span) : Output :=
  let table := colorTable theme
  header table ++ renderSpans table theme text spans

end FaustLens.Rtf
