/-!
# Log events

Model of the events that `config`, `main` and `syntax::highlighter` give to the library `tracing`. A
line is what `tracing_subscriber` writes for an event, without the time and the module.

What the program tells about its work, each event with a level and a line of text. The verbosity of
a run decides which levels are shown.
-/

namespace FaustLens

/-- The levels of log events, from the most to the least important. -/
inductive Level
  | warn | info | debug | trace
deriving DecidableEq, Repr, Inhabited

namespace Level

/-- The name of the level. -/
def name : Level → String
  | warn => "WARN"
  | info => "INFO"
  | debug => "DEBUG"
  | trace => "TRACE"

/-- How often more output must be asked for until the level is shown. -/
def verbosity : Level → Nat
  | warn => 0
  | info => 1
  | debug => 1
  | trace => 2

end Level

/-- An event of a run. -/
inductive Event
  | noConfig (path : String)
  | loadedConfig (path : String)
  | notSource (path : String)
  | discarded (rule : String) (start stop : Nat)
  | classified (length spans claimed : Nat)
  | highlighted (bytes spans : Nat)
deriving DecidableEq, Repr, Inhabited

namespace Event

/-- The level of an event. -/
def level : Event → Level
  | noConfig _ => .debug
  | loadedConfig _ => .debug
  | notSource _ => .warn
  | discarded _ _ _ => .trace
  | classified _ _ _ => .debug
  | highlighted _ _ => .info

/-- What the event says, without its data. -/
def message : Event → String
  | noConfig _ => "no config file, using defaults"
  | loadedConfig _ => "loaded config"
  | notSource _ => "not a .dsp or .lib file, highlighting anyway"
  | discarded _ _ _ => "match discarded"
  | classified _ _ _ => "classified text"
  | highlighted _ _ => "highlighted source"

/-- The data of an event, by name. -/
def fields : Event → List (String × String)
  | noConfig path => [("path", path)]
  | loadedConfig path => [("path", path)]
  | notSource path => [("path", path)]
  | discarded rule start stop =>
    [("rule", rule), ("start", toString start), ("end", toString stop)]
  | classified length spans claimed =>
    [("len", toString length), ("spans", toString spans), ("claimed", toString claimed)]
  | highlighted bytes spans => [("bytes", toString bytes), ("spans", toString spans)]

/-- The line of an event. -/
def line (e : Event) : String :=
  e.level.name ++ " " ++ e.message ++
    String.join (e.fields.map fun (name, value) => " " ++ name ++ "=" ++ value)

/-- Whether an event is shown at a verbosity. -/
def isShown (verbosity : Nat) (e : Event) : Bool := e.level.verbosity ≤ verbosity

end Event

end FaustLens
