/-!
# Errors

Model of `Error` (`error`). The texts of file errors are those of the system. What the library
`toml` says about a malformed file is left out, and so is the error for an invalid pattern:
`Rule.ofPattern?` has no value then.

The causes of failure, each with its text. Reading a file can fail, the contents of a configuration
file can be malformed, and a setting in it can have a value that it cannot take.
-/

namespace FaustLens

/-- Why a file, or a stream such as standard input, could not be read or written. -/
inductive FileError
  | notFound
  | notDirectory
  | isDirectory
  | nameTooLong
  /-- A path cannot hold the null character. -/
  | nulInPath
  /-- The bytes are not UTF-8. -/
  | invalidText
  /-- The sink has no more room. -/
  | limitReached
  /-- Any other cause, by its description. -/
  | other (description : String)
deriving DecidableEq, Repr, Inhabited

/-- The text of a file error. -/
def FileError.message : FileError → String
  | notFound => "No such file or directory (os error 2)"
  | notDirectory => "Not a directory (os error 20)"
  | isDirectory => "Is a directory (os error 21)"
  | nameTooLong => "File name too long (os error 36)"
  | nulInPath => "file name contained an unexpected NUL byte"
  | invalidText => "stream did not contain valid UTF-8"
  | limitReached => "limit reached"
  | other description => description

/-- What is wrong with a setting. -/
inductive SettingError
  /-- Line numbers are on or off. -/
  | lineNumbers
  /-- The value of `key` is none of the choices. -/
  | choice (key : String) (choices : List String)
  /-- The colours are not a table. -/
  | colors
  /-- A colour is set for a category that does not exist. -/
  | unknownCategory (name : String)
  /-- The value, as it is displayed, is no colour. -/
  | invalidColor (key value : String)
deriving DecidableEq, Repr, Inhabited

/-- The text of a setting error. -/
def SettingError.message : SettingError → String
  | lineNumbers => "`line-numbers` must be true or false"
  | choice key choices => "`" ++ key ++ "` must be one of: " ++ ", ".intercalate choices
  | colors => "`colors` must be a table"
  | unknownCategory name => "unknown category: " ++ name
  | invalidColor key value => "invalid color for `" ++ key ++ "`: " ++ value

/-- Why the program failed. -/
inductive Error
  | io (cause : FileError)
  /-- The configuration file is not TOML. -/
  | malformedConfig (path : String)
  | invalidSetting (path : String) (cause : SettingError)
deriving DecidableEq, Repr, Inhabited

/-- The text of an error. -/
def Error.message : Error → String
  | io cause => "I/O error: " ++ cause.message
  | malformedConfig path => "malformed config file " ++ path ++ ": "
  | invalidSetting path cause => "invalid setting in " ++ path ++ ": " ++ cause.message

end FaustLens
