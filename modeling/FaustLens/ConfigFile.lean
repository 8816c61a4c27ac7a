import FaustLens.Config
import FaustLens.Files
import FaustLens.Log

/-!
# Loading the configuration

Model of `Config` (`config`): `config_path`, `load`, `load_from`, with the way in which a file is
read as a parameter.

The configuration is in a file that is named on the command line or, by default, in a file of the
home folder. `Config.loadFrom` loads a named file; `Config.load` loads the default one, where a
missing file stands for the default configuration. Both tell which events occurred.

Results:
* `load_none`: without a home folder the configuration is the default one.
-/

namespace FaustLens.Config

/-- How the bytes of a file are obtained. -/
abbrev ReadFile := String → Except FileError ByteArray

/-- The name of the default configuration file. -/
def fileName : String := ".faustview.toml"

/-- The path of the default configuration file, given the home folder. -/
def defaultPath? (home : Option String) : Option String := home.map (joinPath · fileName)

/-- Load a configuration file. -/
def loadFrom (read : ReadFile) (path : String) : Except Error Config :=
  match (read path).bind decode with
  | .error cause => .error (.io cause)
  | .ok text => ofText path text

/-- The events of loading a named file. -/
def loadEvents (path : String) : Except Error Config → List Event
  | .ok _ => [.loadedConfig path]
  | .error _ => []

/-- Load the default configuration file, with the events. -/
def load (read : ReadFile) (home : Option String) : List Event × Except Error Config :=
  match defaultPath? home with
  | none => ([], .ok {})
  | some path =>
    match loadFrom read path with
    | .error (.io .notFound) => ([.noConfig path], .ok {})
    | result => (loadEvents path result, result)

theorem load_none (read : ReadFile) : load read none = ([], .ok {}) := rfl

end FaustLens.Config
