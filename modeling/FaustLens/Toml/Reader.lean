import FaustLens.Text.Basic
import FaustLens.Toml.Node
import FaustLens.Unicode.Property

/-!
# Reading TOML

Stands for the reading of a document by the library `toml` 0.8, without its descriptions of errors.

`Toml.read?` reads a document of TOML 1.0 into a table; it fails on any text that is not a document.
A reader of a part of a document takes the text from that part on and returns what it read together
with the rest. Loops whose steps take more than one character are bounded by the length of the text.

Arrays and inline tables may be nested to a fixed depth (`maxDepth`), and integers must fit into 64
bits. A decimal number is rounded to a floating-point number, which must not be positive infinity.
-/

namespace FaustLens.Toml.Reader

/-- The bound of the nesting of arrays and inline tables, and of the length of dotted keys. -/
def maxDepth : Nat := 80

/-! ## Blanks, line ends and comments -/

/-- Whether a character is a blank within a line. -/
def isBlank (c : Char) : Bool := c == ' ' || c == '\t'

/-- Skip blanks within a line. -/
def skipBlanks (s : Text) : Text := s.dropWhile isBlank

/-- Read a line end: a line feed, alone or behind a carriage return. -/
def lineEnd? : Text → Option Text
  | '\n' :: rest => some rest
  | '\r' :: '\n' :: rest => some rest
  | _ => none

/-- Whether a character may stand in a comment or, quotes and backslashes apart, in a string. -/
def isPlain (c : Char) : Bool := c == '\t' || (' ' ≤ c && c != '\x7f')

/-- Skip a comment, up to its line end, if there is one. -/
def skipComment : Text → Text
  | '#' :: rest => rest.dropWhile isPlain
  | s => s

/-- Read the end of a line that holds nothing more but blanks and a comment. -/
def restOfLine? (s : Text) : Option Text :=
  match skipComment (skipBlanks s) with
  | [] => some []
  | s => lineEnd? s

/-- Skip blanks, line ends and comments, starting in a comment or not. A comment ends only at a line
end; any other character that may not stand in it is left. -/
def skipLines : Bool → Text → Text
  | _, [] => []
  | _, '\r' :: '\n' :: rest => skipLines false rest
  | true, c :: rest =>
    if c = '\n' then skipLines false rest
    else if isPlain c then skipLines true rest
    else c :: rest
  | false, c :: rest =>
    if c = '#' then skipLines true rest
    else if c = '\n' ∨ isBlank c then skipLines false rest
    else c :: rest

/-- Skip blanks, line ends and comments. -/
def skipSpace (s : Text) : Text := skipLines false s

/-! ## Strings -/

/-- The value of a hexadecimal digit. -/
def hexValue? (c : Char) : Option Nat :=
  if c.isDigit then some (c.toNat - '0'.toNat)
  else if 'a' ≤ c ∧ c ≤ 'f' then some (c.toNat - 'a'.toNat + 10)
  else if 'A' ≤ c ∧ c ≤ 'F' then some (c.toNat - 'A'.toNat + 10)
  else none

/-- Read the character with a code point of `n` hexadecimal digits. -/
def codePoint? : Nat → Nat → Text → Option (Char × Text)
  | 0, value, s => if value.isValidChar then some (Char.ofNat value, s) else none
  | _ + 1, _, [] => none
  | n + 1, value, c :: rest => (hexValue? c).bind fun d => codePoint? n (16 * value + d) rest

/-- Read an escape, after the backslash. -/
def escape? : Text → Option (Char × Text)
  | 'b' :: rest => some ('\x08', rest)
  | 't' :: rest => some ('\t', rest)
  | 'n' :: rest => some ('\n', rest)
  | 'f' :: rest => some ('\x0c', rest)
  | 'r' :: rest => some ('\r', rest)
  | '"' :: rest => some ('"', rest)
  | '\\' :: rest => some ('\\', rest)
  | 'u' :: rest => codePoint? 4 0 rest
  | 'U' :: rest => codePoint? 8 0 rest
  | _ => none

/-- Read a basic string, after its opening quote. `read` holds the characters so far, the last one
first; the first argument bounds the number of steps. -/
def basicString? : Nat → List Char → Text → Option (String × Text)
  | 0, _, _ => none
  | _ + 1, _, [] => none
  | n + 1, read, c :: rest =>
    if c = '"' then some (String.ofList read.reverse, rest)
    else if c = '\\' then (escape? rest).bind fun (d, rest) => basicString? n (d :: read) rest
    else if isPlain c then basicString? n (c :: read) rest
    else none

/-- Read a literal string, after its opening quote. -/
def literalString? (s : Text) : Option (String × Text) :=
  match s.dropWhile fun c => isPlain c && c != '\'' with
  | '\'' :: rest => some (String.ofList (s.takeWhile fun c => isPlain c && c != '\''), rest)
  | _ => none

/-- Skip blanks and line ends. -/
def skipEmptyLines : Text → Text
  | '\r' :: '\n' :: rest => skipEmptyLines rest
  | c :: rest => if isBlank c || c == '\n' then skipEmptyLines rest else c :: rest
  | [] => []

/-- The rest of the text behind a backslash at the end of a line, without the blanks and line ends
that follow. -/
def continuation? (s : Text) : Option Text := (lineEnd? (skipBlanks s)).map skipEmptyLines

/-- Read the end of a string in three quotes that `count` of the quotes may be part of. -/
def closing? (quote : Char) (read : List Char) (s : Text) : Option (String × Text) :=
  let count := (s.takeWhile (· == quote)).length
  let inside := min (count - 3) 2
  if count < 3 then none
  else some (String.ofList (read.reverse ++ List.replicate inside quote), s.drop (inside + 3))

/-- Read a string of several lines, after its opening quotes. In a basic string (`quote` is a double
quote) escapes are read, and a backslash at the end of a line joins it to the next text. -/
def multilineString? (quote : Char) : Nat → List Char → Text → Option (String × Text)
  | 0, _, _ => none
  | _ + 1, _, [] => none
  | n + 1, read, c :: rest =>
    if c = quote then
      match closing? quote read (c :: rest) with
      | some result => some result
      | none => multilineString? quote n (c :: read) rest
    else if c = '\\' ∧ quote = '"' then
      match continuation? rest with
      | some rest => multilineString? quote n read rest
      | none => (escape? rest).bind fun (d, rest) => multilineString? quote n (d :: read) rest
    else
      match lineEnd? (c :: rest) with
      | some rest => multilineString? quote n ('\n' :: read) rest
      | none => if isPlain c then multilineString? quote n (c :: read) rest else none

/-- Read a string of several lines, after its opening quotes; a line end directly behind them is not
part of it. -/
def multiline? (quote : Char) (s : Text) : Option (String × Text) :=
  multilineString? quote (s.length + 1) [] ((lineEnd? s).getD s)

/-- Read a string. -/
def string? : Text → Option (String × Text)
  | '"' :: '"' :: '"' :: rest => multiline? '"' rest
  | '\'' :: '\'' :: '\'' :: rest => multiline? '\'' rest
  | '"' :: rest => basicString? (rest.length + 1) [] rest
  | '\'' :: rest => literalString? rest
  | _ => none

/-! ## Keys -/

/-- Whether a character may stand in a key without quotes. -/
def isKeyChar (c : Char) : Bool := c.isAlphanum || c == '-' || c == '_'

/-- Read one part of a key. -/
def simpleKey? : Text → Option (String × Text)
  | '"' :: rest => basicString? (rest.length + 1) [] rest
  | '\'' :: rest => literalString? rest
  | s =>
    match s.takeWhile isKeyChar with
    | [] => none
    | key => some (String.ofList key, s.dropWhile isKeyChar)

/-- Read the parts of a key that follow its first part, with the blanks around them. `parts` holds
the parts so far, the last one first. -/
def keyParts? : Nat → List String → Text → Option ((List String × String) × Text)
  | 0, _, _ => none
  | n + 1, parts, s =>
    match simpleKey? (skipBlanks s) with
    | none => none
    | some (part, rest) =>
      match skipBlanks rest with
      | '.' :: rest => keyParts? n (part :: parts) rest
      | rest => some ((parts.reverse, part), rest)

/-- Read a key: the parts before its last one, and the last. Blanks around it are skipped. -/
def key? (s : Text) : Option ((List String × String) × Text) := keyParts? (maxDepth - 1) [] s

/-! ## Numbers -/

/-- The value of some decimal digits. -/
def decimalValue (digits : List Char) : Nat :=
  digits.foldl (fun n c => 10 * n + (c.toNat - '0'.toNat)) 0

/-- Read digits, between which single underscores may stand. The digits are returned without the
underscores, the last one first. -/
def digitsFrom (isDigit : Char → Bool) : List Char → Text → List Char × Text
  | read, c :: rest =>
    if isDigit c then digitsFrom isDigit (c :: read) rest
    else
      match c, rest with
      | '_', d :: more =>
        if isDigit d then digitsFrom isDigit (d :: read) more else (read, c :: rest)
      | _, _ => (read, c :: rest)
  | read, [] => (read, [])

/-- Read one digit or more, with single underscores between them. -/
def digits? (isDigit : Char → Bool) : Text → Option (List Char × Text)
  | c :: rest =>
    if isDigit c then
      let (read, rest) := digitsFrom isDigit [c] rest
      some (read.reverse, rest)
    else none
  | [] => none

/-- Read the digits of a decimal number without superfluous zeros. -/
def wholeNumber? : Text → Option (List Char × Text)
  | '0' :: rest => some (['0'], rest)
  | s => digits? Char.isDigit s

/-- Read a sign, if there is one: whether it is a minus sign. -/
def sign : Text → Bool × Text
  | '-' :: rest => (true, rest)
  | '+' :: rest => (false, rest)
  | s => (false, s)

/-- An integer, if it fits into 64 bits. -/
def inRange? (n : Int) : Option Toml :=
  if -0x8000000000000000 ≤ n ∧ n < 0x8000000000000000 then some (.integer n) else none

/-- Read the digits of an integer in another base, after its mark. -/
def basedInteger? (base : Nat) (s : Text) : Option (Toml × Text) := do
  let (digits, rest) ← digits? (fun c => (hexValue? c).any (· < base)) s
  let value := digits.foldl (fun n c => base * n + (hexValue? c).getD 0) 0
  return (← inRange? value, rest)

/-- Read an integer. -/
def integer? : Text → Option (Toml × Text)
  | '0' :: 'x' :: rest => basedInteger? 16 rest
  | '0' :: 'o' :: rest => basedInteger? 8 rest
  | '0' :: 'b' :: rest => basedInteger? 2 rest
  | s => do
    let (negative, s) := sign s
    let (digits, rest) ← wholeNumber? s
    let value : Int := decimalValue digits
    return (← inRange? (if negative then -value else value), rest)

/-- Read the fraction of a number: its digits after the point. -/
def fraction? : Text → Option (List Char × Text)
  | '.' :: rest => digits? Char.isDigit rest
  | _ => none

/-- Read the exponent of a number. -/
def exponent? : Text → Option (Int × Text)
  | c :: rest =>
    if c = 'e' ∨ c = 'E' then
      let (negative, s) := sign rest
      (digits? Char.isDigit s).map fun (digits, rest) =>
        (if negative then -(decimalValue digits : Int) else decimalValue digits, rest)
    else none
  | [] => none

/-- Read a floating-point number: infinity, not a number, or a decimal number with a fraction, an
exponent or both. -/
def float? (s : Text) : Option (Toml × Text) :=
  let (negative, s) := sign s
  match s with
  | 'i' :: 'n' :: 'f' :: rest => some (.float (.infinite negative), rest)
  | 'n' :: 'a' :: 'n' :: rest => some (.float .nan, rest)
  | _ => do
    let (whole, rest) ← wholeNumber? s
    let fraction := fraction? rest
    let (places, rest) := fraction.getD ([], rest)
    let exponent := exponent? rest
    let (power, rest) := exponent.getD (0, rest)
    if fraction.isNone && exponent.isNone then none
    else
      let d := Double.ofDecimal negative (decimalValue (whole ++ places)) (power - places.length)
      if d = .infinite false then none else return (.float d, rest)

/-! ## Dates and times -/

/-- Read a number of exactly `n` digits. -/
def fixedNumber? (n : Nat) (s : Text) : Option (Nat × Text) :=
  let digits := s.take n
  if digits.length = n ∧ digits.all Char.isDigit then some (decimalValue digits, s.drop n) else none

/-- Read a given character. -/
def expect? (c : Char) : Text → Option Text
  | d :: rest => if d = c then some rest else none
  | [] => none

/-- A number with at least `n` digits. -/
def padded (n : Nat) (value : Nat) : String :=
  let digits := Nat.toDigits 10 value
  String.ofList (List.replicate (n - digits.length) '0' ++ digits)

/-- The number of days in a month. -/
def daysIn (year month : Nat) : Nat :=
  if month = 2 then
    if year % 4 = 0 ∧ (year % 100 ≠ 0 ∨ year % 400 = 0) then 29 else 28
  else if month = 4 ∨ month = 6 ∨ month = 9 ∨ month = 11 then 30
  else 31

/-- Read a date; it is returned in its normal form. -/
def date? (s : Text) : Option (String × Text) := do
  let (year, s) ← fixedNumber? 4 s
  let s ← expect? '-' s
  let (month, s) ← fixedNumber? 2 s
  let s ← expect? '-' s
  let (day, s) ← fixedNumber? 2 s
  if 1 ≤ month ∧ month ≤ 12 ∧ 1 ≤ day ∧ day ≤ daysIn year month then
    return (padded 4 year ++ "-" ++ padded 2 month ++ "-" ++ padded 2 day, s)
  else none

/-- Some digits of a fraction without the trailing zeros, behind a point unless none is left. -/
def fractionText (digits : List Char) : String :=
  match (digits.take 9).reverse.dropWhile (· == '0') with
  | [] => ""
  | kept => "." ++ String.ofList kept.reverse

/-- Read a time; it is returned in its normal form, with nine places at most. -/
def time? (s : Text) : Option (String × Text) := do
  let (hour, s) ← fixedNumber? 2 s
  let s ← expect? ':' s
  let (minute, s) ← fixedNumber? 2 s
  let s ← expect? ':' s
  let (second, s) ← fixedNumber? 2 s
  if hour ≤ 23 ∧ minute ≤ 59 ∧ second ≤ 60 then
    let text := padded 2 hour ++ ":" ++ padded 2 minute ++ ":" ++ padded 2 second
    match s with
    | '.' :: rest =>
      let digits := rest.takeWhile Char.isDigit
      if digits.isEmpty then none
      else return (text ++ fractionText digits, rest.dropWhile Char.isDigit)
    | s => return (text, s)
  else none

/-- Read the offset of a time zone, if there is one. -/
def offset? : Text → Option (String × Text)
  | [] => some ("", [])
  | c :: rest =>
    if c = 'Z' ∨ c = 'z' then some ("Z", rest)
    else if c = '+' ∨ c = '-' then do
      let (hour, s) ← fixedNumber? 2 rest
      let s ← expect? ':' s
      let (minute, s) ← fixedNumber? 2 s
      let sign := if c = '-' ∧ hour + minute ≠ 0 then "-" else "+"
      if hour ≤ 23 ∧ minute ≤ 59 then
        return (sign ++ padded 2 hour ++ ":" ++ padded 2 minute, s)
      else none
    else some ("", c :: rest)

/-- Read a date, a time or both. -/
def datetime? (s : Text) : Option (Toml × Text) :=
  match date? s with
  | none => (time? s).map fun (time, rest) => (.datetime time, rest)
  | some (date, rest) =>
    match rest with
    | c :: more =>
      if c = 'T' ∨ c = 't' ∨ c = ' ' then
        match time? more with
        | none => some (.datetime date, rest)
        | some (time, rest) =>
          (offset? rest).map fun (offset, rest) => (.datetime (date ++ "T" ++ time ++ offset), rest)
      else some (.datetime date, rest)
    | [] => some (.datetime date, [])

/-! ## Values -/

/-- Read a value that begins with a digit or a sign. -/
def number? (s : Text) : Option (Toml × Text) :=
  match datetime? s with
  | some result => some result
  | none =>
    match float? s with
    | some result => some result
    | none => integer? s

/-- Read a value that is neither an array nor a table. -/
def scalar? (s : Text) : Option (Toml × Text) :=
  match s with
  | [] => none
  | 't' :: 'r' :: 'u' :: 'e' :: rest => some (.boolean true, rest)
  | 'f' :: 'a' :: 'l' :: 's' :: 'e' :: rest => some (.boolean false, rest)
  | c :: _ =>
    if c = '"' ∨ c = '\'' then (string? s).map fun (text, rest) => (.string text, rest)
    else if c = 'i' ∨ c = 'n' then float? s
    else if c.isDigit ∨ c = '+' ∨ c = '-' then number? s
    else none

mutual

/-- Read a value inside `depth` arrays and inline tables. The first argument bounds the number of
nested calls. -/
def value? : Nat → Nat → Text → Option (Toml × Text)
  | 0, _, _ => none
  | n + 1, depth, s =>
    match s with
    | '[' :: rest =>
      if depth + 1 < maxDepth then
        (elements? n (depth + 1) [] (skipSpace rest)).map fun (es, rest) => (.array es, rest)
      else none
    | '\x7b' :: rest =>
      if depth + 1 < maxDepth then
        match skipBlanks rest with
        | '\x7d' :: rest => some (.table [], rest)
        | rest =>
          (members? n (depth + 1) [] rest).map fun (es, rest) =>
            (.table (Node.entriesToTable es), rest)
      else none
    | s => scalar? s

/-- Read the elements of an array up to its closing bracket; `read` holds those before, the last one
first. A comma may stand behind the last element. -/
def elements? : Nat → Nat → List Toml → Text → Option (List Toml × Text)
  | 0, _, _, _ => none
  | n + 1, depth, read, s =>
    match s with
    | ']' :: rest => some (read.reverse, rest)
    | s =>
      match value? n depth s with
      | none => none
      | some (v, rest) =>
        match skipSpace rest with
        | ',' :: rest => elements? n depth (v :: read) (skipSpace rest)
        | ']' :: rest => some ((v :: read).reverse, rest)
        | _ => none

/-- Read the entries of an inline table up to its closing brace, after those in `es`. No comma may
stand behind the last entry. -/
def members? : Nat → Nat → Node.Entries → Text → Option (Node.Entries × Text)
  | 0, _, _, _ => none
  | n + 1, depth, es, s =>
    match key? s with
    | some ((path, key), '=' :: rest) =>
      match value? n depth (skipBlanks rest) with
      | none => none
      | some (v, rest) =>
        match Node.insertAt? path key v es with
        | none => none
        | some es =>
          match skipBlanks rest with
          | ',' :: rest => members? n depth es rest
          | '\x7d' :: rest => some (es, rest)
          | _ => none
    | _ => none

end

/-! ## Documents -/

/-- The header that the lines of a document stand under. -/
inductive Header
  /-- Before the first header. -/
  | root
  /-- A table. -/
  | table (path : List String) (key : String)
  /-- One of several tables. -/
  | element (path : List String) (key : String)
deriving Repr, Inhabited

/-- A document that is being read: the finished part, the last header and the entries below it. -/
structure Document where
  finished : Node.Entries := []
  header : Header := .root
  current : Node.Entries := []
deriving Inhabited

namespace Document

/-- Put the entries below the last header into their place. -/
def close? (d : Document) : Option Node.Entries :=
  match d.header with
  | .root => some d.current
  | .table path key => Node.closeTable? path key d.current d.finished
  | .element path key => Node.appendTable? path key d.current d.finished

/-- Begin a header. -/
def openHeader? (d : Document) (header : Header) : Option Document := do
  let finished ← d.close?
  match header with
  | .root => none
  | .table path key =>
    let (current, finished) ← Node.openTable? path key finished
    return ⟨finished, header, current⟩
  | .element path key =>
    let finished ← Node.openTables? path key finished
    return ⟨finished, header, []⟩

end Document

/-- Read a header, after its first bracket. -/
def header? : Text → Option (Header × Text)
  | '[' :: rest =>
    match key? rest with
    | some ((path, key), ']' :: ']' :: rest) => some (.element path key, rest)
    | _ => none
  | s =>
    match key? s with
    | some ((path, key), ']' :: rest) => some (.table path key, rest)
    | _ => none

/-- Read an entry into a document. -/
def entry? (d : Document) (s : Text) : Option (Document × Text) :=
  match key? s with
  | some ((path, key), '=' :: rest) => do
    let (v, rest) ← value? (2 * rest.length + 4) 0 (skipBlanks rest)
    let current ← Node.insertAt? path key v d.current
    return ({ d with current }, rest)
  | _ => none

/-- Read the lines of a document. The first argument bounds their number. -/
def document? : Nat → Document → Text → Option Document
  | 0, _, _ => none
  | n + 1, d, s =>
    match skipBlanks s with
    | [] => some d
    | '[' :: rest => do
      let (header, rest) ← header? rest
      let d ← d.openHeader? header
      let rest ← restOfLine? rest
      document? n d rest
    | c :: rest =>
      if c = '#' ∨ c = '\r' ∨ c = '\n' then (restOfLine? (c :: rest)).bind (document? n d)
      else do
        let (d, rest) ← entry? d (c :: rest)
        let rest ← restOfLine? rest
        document? n d rest

end Reader

/-- Read a document. A byte order mark in front of it is skipped. -/
def read? (text : Text) : Option Table := do
  let s := match text with
    | '\ufeff' :: rest => rest
    | s => s
  let d ← Reader.document? (s.length + 1) {} s
  return Node.entriesToTable (← d.close?)

end FaustLens.Toml
