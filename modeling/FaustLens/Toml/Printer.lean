import FaustLens.Text.Basic
import FaustLens.Toml.Value

/-!
# Printing TOML values

Stands for `Display` of values in the library `toml` 0.8.

`Toml.display` writes a value on one line, except that a string with line feeds is written over
several lines. A string is written in the simplest notation that can show it: in double quotes if it
needs no escape, else in single quotes, else in three double quotes, else in three single quotes,
and with escapes only if all of these fail. A table is written with its entries in the order that
it keeps them in.

A date or time that is not part of another value is written as a table with one key.
-/

namespace FaustLens.Toml

/-! ## Strings -/

/-- The length of the longest run of a character in a text. -/
def longestRun (quote : Char) : Nat → Text → Nat
  | _, [] => 0
  | n, c :: rest =>
    if c = quote then max (n + 1) (longestRun quote (n + 1) rest) else longestRun quote 0 rest

/-- Whether a character can only be written as an escape. -/
def needsEscape (c : Char) : Bool := (c < ' ' && c != '\t' && c != '\n') || c == '\x7f'

/-- The digits of a number below 16⁴ in hexadecimal, in capitals. -/
def hex4 (n : Nat) : Text :=
  let digits := (Nat.toDigits 16 n).map Char.toUpper
  List.replicate (4 - digits.length) '0' ++ digits

/-- How a character is written in double quotes, or in three of them if `multiline`. -/
def escapeChar (multiline : Bool) (c : Char) : Text :=
  match c with
  | '\x08' => ['\\', 'b']
  | '\t' => ['\\', 't']
  | '\n' => if multiline then ['\n'] else ['\\', 'n']
  | '\x0c' => ['\\', 'f']
  | '\r' => ['\\', 'r']
  | '\\' => ['\\', '\\']
  | c => if needsEscape c then ['\\', 'u'] ++ hex4 c.toNat else [c]

/-- A text between double quotes. At most `allowed` quotes in a row are written as they are; `n` of
them stand before the text. -/
def escapeQuotes (multiline : Bool) (allowed : Nat) : Nat → Text → Text
  | _, [] => []
  | n, c :: rest =>
    if c = '"' then
      if n < allowed then '"' :: escapeQuotes multiline allowed (n + 1) rest
      else '\\' :: '"' :: escapeQuotes multiline allowed 0 rest
    else escapeChar multiline c ++ escapeQuotes multiline allowed 0 rest

/-- A text in double quotes. -/
def basic (text : Text) : Text := '"' :: (escapeQuotes false 0 0 text ++ ['"'])

/-- A text in single quotes. -/
def literal (text : Text) : Text := '\'' :: (text ++ ['\''])

/-- A line feed in front of a text that has one. -/
def leadingLine (text : Text) : Text := if text.contains '\n' then ['\n'] else []

/-- A text in three double quotes. -/
def multilineBasic (text : Text) : Text :=
  List.replicate 3 '"' ++ leadingLine text ++ escapeQuotes true 2 0 text ++ List.replicate 3 '"'

/-- A text in three single quotes. -/
def multilineLiteral (text : Text) : Text :=
  List.replicate 3 '\'' ++ leadingLine text ++ text ++ List.replicate 3 '\''

/-- A string in the simplest notation. -/
def displayString (text : Text) : Text :=
  let escapes := text.any needsEscape
  let backslash := text.contains '\\'
  let lines := text.contains '\n'
  let double := longestRun '"' 0 text
  let single := longestRun '\'' 0 text
  if !escapes && !backslash && double == 0 && !lines then basic text
  else if !escapes && single == 0 && !lines then literal text
  else if !escapes && !backslash && double ≤ 2 then multilineBasic text
  else if !escapes && single ≤ 2 then multilineLiteral text
  else if lines then multilineBasic text
  else basic text

/-- Whether a character may stand in a key without quotes. -/
def isBareKeyChar (c : Char) : Bool := c.isAlphanum || c == '-' || c == '_'

/-- A key in the simplest notation. -/
def displayKey (key : Text) : Text :=
  let escapes := key.any fun c => needsEscape c || c == '\n'
  if !key.isEmpty && key.all isBareKeyChar then key
  else if !escapes && !key.contains '\\' && !key.contains '"' then basic key
  else if !escapes && !key.contains '\'' then literal key
  else basic key

/-! ## Values -/

/-- Some texts with a comma and a space between them. -/
def commaSeparated : List Text → Text
  | [] => []
  | [t] => t
  | t :: rest => t ++ [',', ' '] ++ commaSeparated rest

/-- Some texts in braces. -/
def braced (entries : List Text) : Text :=
  if entries.isEmpty then ['\x7b', '\x7d']
  else ['\x7b', ' '] ++ commaSeparated entries ++ [' ', '\x7d']

/-- An entry of a table. -/
def displayEntry (key : String) (value : Text) : Text := displayKey key.toList ++ [' ', '=', ' '] ++ value

mutual

/-- A value inside another value. -/
def displayInner : Toml → Text
  | string s => displayString s.toList
  | integer n => (toString n).toList
  | float d => d.toText
  | boolean b => (if b then "true" else "false").toList
  | datetime text => text.toList
  | array es => '[' :: (commaSeparated (displayElements es) ++ [']'])
  | table es => braced (displayEntries es)

/-- The elements of an array. -/
def displayElements : List Toml → List Text
  | [] => []
  | e :: rest => displayInner e :: displayElements rest

/-- The entries of a table. -/
def displayEntries : List (String × Toml) → List Text
  | [] => []
  | (k, v) :: rest => displayEntry k (displayInner v) :: displayEntries rest

end

/-- The key under which a date or time is written that is not part of another value. -/
def datetimeKey : String := "$__toml_private_datetime"

/-- A value that is not part of another value. -/
def display : Toml → Text
  | datetime text => braced [displayEntry datetimeKey (displayString text.toList)]
  | v => displayInner v

end FaustLens.Toml
