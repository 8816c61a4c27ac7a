import FaustLens.CommandLine
import FaustLens.ConfigFile
import FaustLens.Rtf
import FaustLens.SourcePath
import FaustLens.SpanDump
import FaustLens.Terminal

/-!
# The program

Model of `run` and `read_source` (`main`).

A run loads the configuration, lets the command line override it, reads the source, classifies it
and prints it in one of three forms. Nothing is printed unless all of this succeeds, and a fault of
the configuration is found before the source is read. Reading may fail, be it from a file or from
standard input. `Program.run` computes the result and the log events of a run from the arguments and
what the program can see of its surroundings (`World`).
-/

namespace FaustLens.Program

/-- What a run can see of its surroundings. -/
structure World where
  readFile : Config.ReadFile
  /-- The home folder. -/
  home : Option String
  /-- The bytes of standard input, or the cause why it could not be read to its end. -/
  input : Except FileError ByteArray
  /-- Whether standard output is a terminal. -/
  isTerminal : Bool

/-- What a run does: log events in order, and its output or the reason why there is none. -/
structure Run where
  events : List Event
  result : Except Error Output

/-- Load the configuration that the command line names, or the default one. -/
def loadConfig (args : Arguments) (w : World) : List Event × Except Error Config :=
  match args.config with
  | some path =>
    let result := Config.loadFrom w.readFile path
    (Config.loadEvents path result, result)
  | none => Config.load w.readFile w.home

/-- The configuration with what the command line overrides. -/
def override (args : Arguments) (c : Config) : Config :=
  { c with
    lineNumbers := c.lineNumbers || args.lineNumbers
    palette := args.theme.getD c.palette
    color := if args.noColor then .never else args.color.getD c.color }

/-- The path of the source file, unless the source is standard input. -/
def sourcePath? (args : Arguments) : Option String := args.file.filter (· != "-")

/-- The events of reading the source. -/
def sourceEvents (args : Arguments) : List Event :=
  match sourcePath? args with
  | some path => if SourcePath.isSource path.toUTF8.toList then [] else [.notSource path]
  | none => []

/-- Read the source. -/
def readSource (args : Arguments) (w : World) : Except Error Text :=
  let bytes := match sourcePath? args with
    | some path => w.readFile path
    | none => w.input
  (bytes.bind decode).mapError .io

/-- The events of classifying a text. -/
def classifyEvents (text : Text) (c : Classification) : List Event :=
  c.discarded.map (fun h => .discarded h.rule.name h.range.start h.range.stop) ++
    [.classified text.byteLength c.spans.length c.claims.size,
     .highlighted text.byteLength c.spans.length]

/-- Print the spans of a text in the form that the command line asks for. -/
def print (args : Arguments) (c : Config) (isTerminal : Bool) (text : Text) (spans : List Span) :
    Output :=
  if args.spans then SpanDump.render text spans
  else if args.rtf then Rtf.render c.theme text spans
  else Terminal.render ⟨c.lineNumbers, c.color.enabled isTerminal⟩ c.theme text spans

/-- Highlight the source. -/
def highlight (args : Arguments) (w : World) (c : Config) : Run :=
  match readSource args w with
  | .error e => ⟨sourceEvents args, .error e⟩
  | .ok text =>
    let found := Faust.highlighter.scan text
    ⟨sourceEvents args ++ classifyEvents text found,
      .ok (print args c w.isTerminal text found.spans)⟩

/-- Run the program. -/
def run (args : Arguments) (w : World) : Run :=
  match loadConfig args w with
  | (events, .error e) => ⟨events, .error e⟩
  | (events, .ok c) =>
    let rest := highlight args w (override args c)
    ⟨events ++ rest.events, rest.result⟩

/-- The exit code of a run. -/
def Run.exitCode (r : Run) : Nat :=
  match r.result with
  | .ok _ => 0
  | .error _ => 1

/-- The log lines that are shown at a verbosity. -/
def Run.logLines (r : Run) (verbosity : Nat) : List String :=
  (r.events.filter (Event.isShown verbosity)).map Event.line

end FaustLens.Program
