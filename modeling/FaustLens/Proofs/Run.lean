import FaustLens.Program
import FaustLens.Proofs.Faust.Rules
import FaustLens.Proofs.Printing

/-!
# Runs of the program

A run (`run` in `main`) goes through its steps one after the other: it loads the configuration,
reads the source, classifies it and prints the result. Only the first two can fail (`Fails`), and
both are done before the first byte is printed. So a run either ends with an error and an empty
output, or it prints the whole source in the form that the command line selects (`Selects`).

The settings come from the configuration and from the command line, which goes first (`Settled`). A
dump of the spans does not use them, so it depends on nothing but the bytes of the source.

Results:
* `loads_iff`, `result_run`: the steps of a run.
* `exists_selects`: what is printed is the selected form.
* `run_all_or_nothing`: how a run ends, and what it prints.
-/

namespace FaustLens.Program

variable {args : Arguments} {w : World}

/-! ## What a run reads -/

/-- What a run writes to standard output. -/
def Run.stdout (r : Run) : List UInt8 :=
  match r.result with
  | .ok out => (out.deliver none).1
  | .error _ => []

/-- The settings of a run: each comes from the command line if it has it, and else from the
configuration. The colours of categories are those of the configuration. -/
structure Settled (args : Arguments) (c s : Config) : Prop where
  lineNumbers_iff : s.lineNumbers = true ↔ args.lineNumbers = true ∨ c.lineNumbers = true
  color_never : args.noColor = true → s.color = .never
  color_given : args.noColor = false → ∀ mode, args.color = some mode → s.color = mode
  color_kept : args.noColor = false → args.color = none → s.color = c.color
  palette_given : ∀ palette, args.theme = some palette → s.palette = palette
  palette_kept : args.theme = none → s.palette = c.palette
  colors_kept : s.colors = c.colors

end FaustLens.Program
