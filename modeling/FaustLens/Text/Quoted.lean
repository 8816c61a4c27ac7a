import FaustLens.Text.Basic
import FaustLens.Unicode.Property

/-!
# Quoted text

Stands for the debug form of strings in the standard library, which `render::dump_spans` writes.

A quoted text stands between double quotes on one line. Double quotes, backslashes and the usual
controls are written as two characters; other characters without a visible form of their own, and
characters that would attach to the one before, are written as their code point in braces.
-/

namespace FaustLens.Text

/-- The digits of a number in hexadecimal, in small letters. -/
def hex (n : Nat) : Text := Nat.toDigits 16 n

/-- How a character is written between quotes. -/
def quoteChar (c : Char) : Text :=
  match c with
  | '\x00' => ['\\', '0']
  | '\t' => ['\\', 't']
  | '\r' => ['\\', 'r']
  | '\n' => ['\\', 'n']
  | '\\' => ['\\', '\\']
  | '"' => ['\\', '"']
  | c =>
    if Unicode.isPrintable c && !Unicode.isGraphemeExtend c then [c]
    else ['\\', 'u', '\x7b'] ++ hex c.toNat ++ ['\x7d']

/-- The text in quotes. -/
def quoted (text : Text) : Text := '"' :: (text.flatMap quoteChar ++ ['"'])

end FaustLens.Text
