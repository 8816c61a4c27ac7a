import FaustLens.Output
import FaustLens.Span
import FaustLens.Text.Line
import FaustLens.Theme

/-!
# Terminal output

Model of `render::render`, with `Painter` and `term_color`. `foreground` is what `term_color`
followed by the library `crossterm` 0.27 makes of a colour. The control sequences are those that the
library writes for `SetForegroundColor`, `SetAttribute` and `ResetColor`.

`Terminal.render` prints a text span by span, each in the style that the theme gives its category. A
styled piece begins with the sequences that set its style and ends with a reset, and no piece
reaches over a line feed, so a style never outlasts its line. On request each line begins with a
gutter that holds its number, right-aligned and dim.

Premise: the environment variable `NO_COLOR` is unset or empty. Nothing in the program asks for it,
but the library does, and leaves the colours out if it is set.
-/

namespace FaustLens.Terminal

/-- How a text is printed. -/
structure Options where
  /-- Begin each line with its number. -/
  lineNumbers : Bool := false
  /-- Print styles; plain text otherwise. -/
  color : Bool := false
deriving DecidableEq, Repr, Inhabited

/-! ## Control sequences -/

/-- The control sequence with given parameters that sets the display. -/
def sequence (parameters : String) : String := "\x1b[" ++ parameters ++ "m"

/-- The parameters that select a foreground. -/
def foreground : Color → String
  | .automatic => "39"
  | .ansi h bright => "38;5;" ++ toString (if bright then h.index + 8 else h.index)
  | .rgb v =>
    "38;2;" ++ toString v.red.toNat ++ ";" ++ toString v.green.toNat ++ ";" ++
      toString v.blue.toNat

/-- The sequences that set a style. -/
def begin (s : Style) : String :=
  sequence (foreground s.foreground) ++ (if s.bold then sequence "1" else "") ++
    (if s.italic then sequence "3" else "")

/-- The sequences that leave a style. -/
def finish : String := sequence "0" ++ sequence "0"

/-- A piece of text in a style. -/
def styled (color : Bool) (s : Style) (piece : Text) : Text :=
  if piece.isEmpty then []
  else if !color || s.isDefault then piece
  else (begin s).toList ++ piece ++ finish.toList

/-! ## The gutter -/

/-- A number, padded on the left to a width. -/
def padLeft (width : Nat) (n : Nat) : Text :=
  let digits := (toString n).toList
  List.replicate (width - digits.length) ' ' ++ digits

/-- The width that the line numbers of a text need. -/
def gutterWidth (text : Text) : Nat := (toString (max 1 text.lines.length)).length

/-- The gutter of a line; nothing unless line numbers are on. -/
def gutter (opts : Options) (width line : Nat) : Text :=
  if !opts.lineNumbers then []
  else
    let number := padLeft width line ++ [' ']
    if opts.color then (sequence "2").toList ++ number ++ (sequence "22").toList else number

/-! ## Rendering -/

/-- Where printing stands: the number of the line and whether it is still empty. -/
structure Progress where
  line : Nat := 1
  atLineStart : Bool := true
deriving DecidableEq, Repr, Inhabited

/-- Print a piece that may end in a line feed but holds no other. -/
def renderLine (opts : Options) (width : Nat) (s : Style) (now : Progress) (piece : Text) :
    Text × Progress :=
  let lead := if now.atLineStart then gutter opts width now.line else []
  if piece.getLast? = some '\n' then
    (lead ++ styled opts.color s piece.dropLast ++ ['\n'], ⟨now.line + 1, true⟩)
  else (lead ++ styled opts.color s piece, ⟨now.line, false⟩)

/-- Print some pieces. -/
def renderLines (opts : Options) (width : Nat) (s : Style) :
    Progress → List Text → List Text × Progress
  | now, [] => ([], now)
  | now, piece :: rest =>
    let (out, next) := renderLine opts width s now piece
    let (more, last) := renderLines opts width s next rest
    (out :: more, last)

/-- Print some spans of a text. -/
def renderSpans (opts : Options) (width : Nat) (theme : Theme) (text : Text) :
    Progress → List Span → Output
  | _, [] => []
  | now, span :: rest =>
    match span.text? text with
    | none => [.missingSlice]
    | some part =>
      let (out, next) := renderLines opts width (theme.style span.category) now part.lines
      out.map .write ++ renderSpans opts width theme text next rest

/-- Print a text, each span in its style. -/
def render (opts : Options) (theme : Theme) (text : Text) (spans : List Span) : Output :=
  renderSpans opts (gutterWidth text) theme text {} spans

end FaustLens.Terminal
