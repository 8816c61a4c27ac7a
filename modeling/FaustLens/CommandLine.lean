import FaustLens.Config

/-!
# The command line

Model of `Cli` (`main`). Its arguments are read as the library `clap` 4 reads them; the texts of
usage errors are not word for word those of the library.

`CommandLine.parse` reads the arguments of the program. Options begin with a hyphen, short ones may
be joined, and a value follows its option or is attached to it; behind `--` every argument is the
source file. A single hyphen is a value like any other. Asking for help or for the version ends the
reading; conflicts between options are found only at the end.
-/

namespace FaustLens

/-- What the command line asks for. -/
structure Arguments where
  /-- The source file; standard input if absent or a single hyphen. -/
  file : Option String := none
  lineNumbers : Bool := false
  color : Option ColorMode := none
  noColor : Bool := false
  theme : Option Palette := none
  spans : Bool := false
  rtf : Bool := false
  config : Option String := none
  /-- How often more log output was asked for. -/
  verbosity : Nat := 0
deriving DecidableEq, Repr, Inhabited

/-- What is wrong with a command line. -/
inductive UsageError
  | unknownOption (name : String)
  | unexpectedArgument (argument : String)
  | missingValue (option : String)
  | unexpectedValue (option : String)
  | invalidValue (option value : String)
  | repeated (option : String)
  | conflict (option other : String)
deriving DecidableEq, Repr, Inhabited

/-- The text of a usage error. -/
def UsageError.message : UsageError → String
  | unknownOption name => "unexpected argument '" ++ name ++ "' found"
  | unexpectedArgument argument => "unexpected argument '" ++ argument ++ "' found"
  | missingValue option => "a value is required for '" ++ option ++ "' but none was supplied"
  | unexpectedValue option => "unexpected value for '" ++ option ++ "' found; no more were expected"
  | invalidValue option value => "invalid value '" ++ value ++ "' for '" ++ option ++ "'"
  | repeated option => "the argument '" ++ option ++ "' cannot be used multiple times"
  | conflict option other => "the argument '" ++ option ++ "' cannot be used with '" ++ other ++ "'"

/-- What the program is to do. -/
inductive Request
  | run (args : Arguments)
  | showHelp
  | showVersion
deriving DecidableEq, Repr, Inhabited

namespace CommandLine

/-- The options. -/
inductive Opt
  | lineNumbers | color | noColor | theme | spans | rtf | config | verbose | help | version
deriving DecidableEq, Repr, Inhabited

namespace Opt

/-- The options with their long names. -/
def longNames : List (String × Opt) :=
  [("line-numbers", lineNumbers), ("color", color), ("no-color", noColor), ("theme", theme),
   ("spans", spans), ("rtf", rtf), ("config", config), ("verbose", verbose), ("help", help),
   ("version", version)]

/-- The options with their short names. -/
def shortNames : List (Char × Opt) :=
  [('n', lineNumbers), ('c', config), ('v', verbose), ('h', help), ('V', version)]

/-- Whether the option takes a value. -/
def takesValue : Opt → Bool
  | color => true
  | theme => true
  | config => true
  | _ => false

end Opt

/-! ## Single options -/

/-- Set a flag that may be given once. -/
def setOnce (name : String) (already : Bool) (args : Arguments) : Except UsageError Arguments :=
  if already then .error (.repeated name) else .ok args

/-- Take in an option without a value. -/
def applyFlag (name : String) (args : Arguments) : Opt → Except UsageError Arguments
  | .lineNumbers => setOnce name args.lineNumbers { args with lineNumbers := true }
  | .noColor => setOnce name args.noColor { args with noColor := true }
  | .spans => setOnce name args.spans { args with spans := true }
  | .rtf => setOnce name args.rtf { args with rtf := true }
  | .verbose => .ok { args with verbosity := args.verbosity + 1 }
  | _ => .error (.missingValue name)

/-- Take in an option with a value. -/
def applyValue (name : String) (args : Arguments) (o : Opt) (value : String) :
    Except UsageError Arguments :=
  match o with
  | .color =>
    match ColorMode.names.lookup value with
    | some mode => setOnce name args.color.isSome { args with color := some mode }
    | none => .error (.invalidValue name value)
  | .theme =>
    match Palette.names.lookup value with
    | some palette => setOnce name args.theme.isSome { args with theme := some palette }
    | none => .error (.invalidValue name value)
  | .config =>
    if value.isEmpty then .error (.missingValue name)
    else setOnce name args.config.isSome { args with config := some value }
  | _ => .error (.unexpectedValue name)

/-- Take in the source file. -/
def applyFile (args : Arguments) (path : String) : Except UsageError Arguments :=
  if args.file.isSome then .error (.unexpectedArgument path)
  else if path.isEmpty then .error (.missingValue "FILE")
  else .ok { args with file := some path }

/-! ## Arguments -/

/-- What reading one argument leads to. -/
inductive Step
  /-- Go on with the next argument. -/
  | next (args : Arguments)
  /-- Take the next argument as the value of an option. -/
  | value (args : Arguments) (name : String) (o : Opt)
  /-- Stop with a request. -/
  | stop (r : Request)

/-- Take in an option with the value that is attached to it, if any. -/
def applyOption (name : String) (args : Arguments) (o : Opt) (attached : Option String) :
    Except UsageError Step :=
  match o, attached with
  | .help, none => .ok (.stop .showHelp)
  | .version, none => .ok (.stop .showVersion)
  | o, some value => (applyValue name args o value).map .next
  | o, none => if o.takesValue then .ok (.value args name o) else (applyFlag name args o).map .next

/-- Split a text before its first equals sign. -/
def splitValue (s : List Char) : String × Option String :=
  (String.ofList (s.takeWhile (· != '=')),
    match s.dropWhile (· != '=') with
    | [] => none
    | _ :: value => some (String.ofList value))

/-- Read a long option, after its two hyphens. -/
def readLong (args : Arguments) (s : List Char) : Except UsageError Step :=
  let (name, attached) := splitValue s
  match Opt.longNames.lookup name with
  | some o => applyOption ("--" ++ name) args o attached
  | none => .error (.unknownOption ("--" ++ name))

/-- Read joined short options, after their hyphen. What follows an option with a value is its value,
with or without an equals sign. -/
def readShort (args : Arguments) : List Char → Except UsageError Step
  | [] => .ok (.next args)
  | c :: rest =>
    let name := String.ofList ['-', c]
    match Opt.shortNames.lookup c with
    | none => .error (.unknownOption name)
    | some o =>
      if o.takesValue then
        match rest with
        | [] => applyOption name args o none
        | '=' :: value => applyOption name args o (some (String.ofList value))
        | value => applyOption name args o (some (String.ofList value))
      else
        match applyOption name args o none with
        | .ok (.next args) => readShort args rest
        | other => other

/-- Whether an argument is read as an option. -/
def isOption (argument : String) : Bool := argument.startsWith "-" && argument != "-"

/-- Read an argument that may be an option. -/
def readArgument (args : Arguments) (argument : String) : Except UsageError Step :=
  match argument.toList with
  | '-' :: '-' :: name => readLong args name
  | '-' :: c :: rest => readShort args (c :: rest)
  | _ => (applyFile args argument).map .next

/-- Read arguments behind `--`. -/
def readFiles (args : Arguments) (arguments : List String) : Except UsageError Request :=
  (arguments.foldlM applyFile args).map .run

/-- Read arguments. If an option is given, with the name it was written by, its value comes next. -/
def readAll : Arguments → Option (String × Opt) → List String → Except UsageError Request
  | args, none, [] => .ok (.run args)
  | _, some (name, _), [] => .error (.missingValue name)
  | args, some (name, o), argument :: rest =>
    if isOption argument then .error (.missingValue name)
    else
      match applyValue name args o argument with
      | .ok args => readAll args none rest
      | .error e => .error e
  | args, none, argument :: rest =>
    if argument = "--" then readFiles args rest
    else
      match readArgument args argument with
      | .ok (.next args) => readAll args none rest
      | .ok (.value args name o) => readAll args (some (name, o)) rest
      | .ok (.stop r) => .ok r
      | .error e => .error e

/-- Find options that exclude each other. -/
def checkConflicts : Request → Except UsageError Request
  | .run args =>
    if args.noColor && args.color.isSome then .error (.conflict "--no-color" "--color")
    else if args.spans && args.rtf then .error (.conflict "--spans" "--rtf")
    else .ok (.run args)
  | r => .ok r

/-- Read the command line. -/
def parse (arguments : List String) : Except UsageError Request :=
  (readAll {} none arguments).bind checkConflicts

/-! ## Texts -/

/-- The version line. -/
def versionText : String := "faustview 0.1.0\n"

/-- The lines of the help text. -/
def helpLines : List String :=
  ["Syntax-highlighted preview of Faust DSP sources",
   "",
   "Usage: faustview [OPTIONS] [FILE]",
   "",
   "Arguments:",
   "  [FILE]  Source file to preview (stdin when absent or `-`)",
   "",
   "Options:",
   "  -n, --line-numbers     Prefix lines with their number",
   "      --color <COLOR>    When to color the output (overrides the config file)" ++
     " [possible values: auto, always, never]",
   "      --no-color         Disable colored output, same as `--color never`",
   "      --theme <THEME>    Base palette (overrides the config file) [possible values:" ++
     " truecolor, ansi]",
   "      --spans            Print the classified spans instead of the rendered source",
   "      --rtf              Write the highlighted source as an RTF document",
   "  -c, --config <CONFIG>  Config file (defaults to ~/.faustview.toml)",
   "  -v, --verbose...       Increase log verbosity (-v debug, -vv trace)",
   "  -h, --help             Print help",
   "  -V, --version          Print version"]

/-- The help text. -/
def helpText : String := String.join (helpLines.map (· ++ "\n"))

end CommandLine

end FaustLens
