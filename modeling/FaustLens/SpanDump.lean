import FaustLens.Output
import FaustLens.Span
import FaustLens.Text.Quoted

/-!
# Span dumps

Model of `render::dump_spans`.

A span dump has one line per span: its byte offsets, its category and its text in quotes.
-/

namespace FaustLens.SpanDump

/-- The line of a span with a given text. -/
def line (s : Span) (part : Text) : Text :=
  (toString s.start ++ ".." ++ toString s.stop ++ " " ++ s.category.name ++ " ").toList ++
    part.quoted ++ ['\n']

/-- Print one line per span. -/
def render (text : Text) : List Span → Output
  | [] => []
  | s :: rest =>
    match s.text? text with
    | none => [.missingSlice]
    | some part => .write (line s part) :: render text rest

end FaustLens.SpanDump
