import FaustLens.Pattern.Expr

/-!
# Reading written patterns

Stands for the reading of patterns by the library `regex`.

`Expr.read?` reads the text of a pattern; it fails on anything that is not in the dialect. The
reader goes through the text once, from left to right. Open groups wait on a stack of `Level`s, open
classes on a stack of `SetLevel`s, and each step takes at least one character, so the length of the
text bounds the number of steps.

In verbose mode white space and comments between the parts of a pattern are skipped (`skipBlank`).
-/

namespace FaustLens

namespace Reader

/-! ## Blanks and numbers -/

/-- Skip white space and comments; inside a comment everything up to a line feed is skipped. -/
def blank : Bool → Text → Text
  | _, [] => []
  | true, c :: rest => if c = '\n' then blank false rest else blank true rest
  | false, c :: rest =>
    if Unicode.isSpace c then blank false rest
    else if c = '#' then blank true rest
    else c :: rest

/-- Skip blanks if the pattern is verbose here. -/
def skipBlank (verbose : Bool) (s : Text) : Text := if verbose then blank false s else s

/-- The value of a hexadecimal digit. -/
def hexValue? (c : Char) : Option Nat :=
  if c.isDigit then some (c.toNat - '0'.toNat)
  else if 'a' ≤ c ∧ c ≤ 'f' then some (c.toNat - 'a'.toNat + 10)
  else if 'A' ≤ c ∧ c ≤ 'F' then some (c.toNat - 'A'.toNat + 10)
  else none

/-- The character with a code point, if it is a scalar value. -/
def scalar? (n : Nat) : Option Char := if n.isValidChar then some (Char.ofNat n) else none

/-- Read `n` hexadecimal digits; blanks may stand between and after them. -/
def hexDigits (verbose : Bool) : Nat → Nat → Text → Option (Nat × Text)
  | 0, value, s => some (value, s)
  | _ + 1, _, [] => none
  | n + 1, value, c :: rest => do
    let d ← hexValue? c
    hexDigits verbose n (16 * value + d) (skipBlank verbose rest)

/-- Read hexadecimal digits up to a closing brace. The first argument bounds their number; `value`
is the number read so far, absent before the first digit. -/
def hexBraced (verbose : Bool) : Nat → Option Nat → Text → Option (Nat × Text)
  | 0, _, _ => none
  | _ + 1, _, [] => none
  | n + 1, value, c :: rest =>
    if c = '\x7d' then value.map fun v => (v, skipBlank verbose rest)
    else do
      let d ← hexValue? c
      hexBraced verbose n (some (16 * value.getD 0 + d)) (skipBlank verbose rest)

/-- The greatest count that a repetition may have. -/
def maxCount : Nat := 0xFFFFFFFF

/-- Read the digits of a decimal number, with blanks between them. The first argument bounds their
number. -/
def decimalDigits (verbose : Bool) : Nat → Option Nat → Text → Option Nat × Text
  | 0, value, s => (value, s)
  | _ + 1, value, [] => (value, [])
  | n + 1, value, c :: rest =>
    if c.isDigit then
      decimalDigits verbose n (some (10 * value.getD 0 + (c.toNat - '0'.toNat)))
        (skipBlank verbose rest)
    else (value, c :: rest)

/-- Read a decimal number between white space; none if there is no digit or it is too great. -/
def decimal (verbose : Bool) (s : Text) : Option Nat × Text :=
  let s := s.dropWhile Unicode.isSpace
  let (value, rest) := decimalDigits verbose s.length none s
  (value.filter (· ≤ maxCount), skipBlank verbose (rest.dropWhile Unicode.isSpace))

/-! ## Escapes -/

/-- Characters with a meaning in patterns; a backslash takes it away. -/
def metaChars : List Char :=
  ['\\', '.', '+', '*', '?', '(', ')', '|', '[', ']', '\x7b', '\x7d', '^', '$', '#', '&', '-', '~']

/-- Whether a backslash before the character gives the character itself. -/
def isEscapable (c : Char) : Bool :=
  metaChars.contains c || (Unicode.isAscii c && !c.isAlphanum && c != '<' && c != '>')

/-- Read the number of a character escape, after the letter that gives the count of digits. -/
def hexEscape (verbose : Bool) (digits : Nat) (s : Text) : Option (Expr × Text) :=
  match skipBlank verbose s with
  | [] => none
  | '\x7b' :: rest => do
    let (n, rest) ← hexBraced verbose (rest.length + 1) none (skipBlank verbose rest)
    let c ← scalar? n
    return (.char c, rest)
  | s => do
    let (n, rest) ← hexDigits verbose digits 0 s
    let c ← scalar? n
    return (if digits = 2 then .byte c else .char c, rest)

/-- Read the name of a property up to a closing brace. -/
def propertyName (verbose : Bool) : Nat → List Char → Text → Option (List Char × Text)
  | 0, _, _ => none
  | _ + 1, _, [] => none
  | n + 1, name, c :: rest =>
    if c = '\x7d' then some (name.reverse, rest)
    else propertyName verbose n (c :: name) (skipBlank verbose rest)

/-- Split a text before the first place where `mark` follows. -/
def splitAt? (mark : List Char) : List Char → Option (List Char × List Char)
  | [] => none
  | c :: rest =>
    if mark.isPrefixOf (c :: rest) then some ([], (c :: rest).drop mark.length)
    else (splitAt? mark rest).map fun (a, b) => (c :: a, b)

/-- The class of a property in braces: a name, or a name and a value. -/
def propertyOf (negated : Bool) (name : List Char) : SetExpr :=
  match splitAt? ['!', '='] name with
  | some (n, v) => .property n (some v) (!negated)
  | none =>
    match splitAt? [':'] name with
    | some (n, v) => .property n (some v) negated
    | none =>
      match splitAt? ['='] name with
      | some (n, v) => .property n (some v) negated
      | none => .property name none negated

/-- Read a property class, after its letter. -/
def property (verbose negated : Bool) (s : Text) : Option (Expr × Text) :=
  match skipBlank verbose s with
  | [] => none
  | '\x7b' :: rest => do
    let (name, rest) ← propertyName verbose (rest.length + 1) [] (skipBlank verbose rest)
    return (.set (propertyOf negated name), rest)
  | '\\' :: _ => none
  | c :: rest => some (.set (.property [c] none negated), skipBlank verbose rest)

/-- Whether a character may stand in the name of a word edge. -/
def isEdgeChar (c : Char) : Bool := c.isAlpha || c == '-'

/-- Read the characters of an edge's name. -/
def edgeName (verbose : Bool) : Nat → List Char → Text → List Char × Text
  | 0, name, s => (name.reverse, s)
  | _ + 1, name, [] => (name.reverse, [])
  | n + 1, name, c :: rest =>
    if isEdgeChar c then edgeName verbose n (c :: name) (skipBlank verbose rest)
    else (name.reverse, c :: rest)

/-- Read what follows `\b`: a word edge by name in braces, else nothing. Braces that do not start
with a letter are left for a repetition. -/
def boundary (verbose : Bool) (s : Text) : Option (Expr × Text) :=
  match s with
  | '\x7b' :: rest =>
    match skipBlank verbose rest with
    | [] => none
    | c :: tail =>
      if isEdgeChar c then
        match edgeName verbose (tail.length + 1) [] (c :: tail) with
        | (name, '\x7d' :: rest) =>
          match String.ofList name with
          | "start" => some (.wordEdge .wordStart, rest)
          | "end" => some (.wordEdge .wordEnd, rest)
          | "start-half" => some (.wordEdge .notAfterWord, rest)
          | "end-half" => some (.wordEdge .notBeforeWord, rest)
          | _ => none
        | _ => none
      else some (.wordEdge .boundary, s)
  | _ => some (.wordEdge .boundary, s)

/-- Read an escape, after the backslash. -/
def escape (verbose : Bool) : Text → Option (Expr × Text)
  | [] => none
  | c :: rest =>
    if isEscapable c then some (.char c, rest)
    else
      match c with
      | 'x' => hexEscape verbose 2 rest
      | 'u' => hexEscape verbose 4 rest
      | 'U' => hexEscape verbose 8 rest
      | 'p' => property verbose false rest
      | 'P' => property verbose true rest
      | 'd' => some (.set (.letter .digit false), rest)
      | 'D' => some (.set (.letter .digit true), rest)
      | 's' => some (.set (.letter .space false), rest)
      | 'S' => some (.set (.letter .space true), rest)
      | 'w' => some (.set (.letter .word false), rest)
      | 'W' => some (.set (.letter .word true), rest)
      | 'a' => some (.char '\x07', rest)
      | 'f' => some (.char '\x0c', rest)
      | 't' => some (.char '\t', rest)
      | 'n' => some (.char '\n', rest)
      | 'r' => some (.char '\r', rest)
      | 'v' => some (.char '\x0b', rest)
      | 'A' => some (.textStart, rest)
      | 'z' => some (.textEnd, rest)
      | 'b' => boundary verbose rest
      | 'B' => some (.wordEdge .interior, rest)
      | '<' => some (.wordEdge .wordStart, rest)
      | '>' => some (.wordEdge .wordEnd, rest)
      | _ => none

/-! ## Classes -/

/-- An open class: its members so far, the newest first, and the operation that waits for them. -/
structure SetLevel where
  negated : Bool
  pending : Option (SetExpr × SetOp)
  members : List SetExpr
deriving Repr, Inhabited

namespace SetLevel

/-- Add a member. -/
def add (lv : SetLevel) (e : SetExpr) : SetLevel := { lv with members := e :: lv.members }

/-- The union of the members, given the newest first. -/
def unionOf : List SetExpr → SetExpr
  | [] => .empty
  | [e] => e
  | e :: es => .union (unionOf es) e

/-- What the class holds so far. -/
def body (lv : SetLevel) : SetExpr :=
  match lv.pending with
  | some (lhs, o) => .op o lhs (unionOf lv.members)
  | none => unionOf lv.members

/-- Begin the right-hand side of an operation. -/
def operate (lv : SetLevel) (o : SetOp) : SetLevel := ⟨lv.negated, some (lv.body, o), []⟩

end SetLevel

/-- The class with a name in brackets and colons. -/
def namedClass? (name : List Char) : Option NamedClass :=
  match String.ofList name with
  | "alnum" => some .alnum
  | "alpha" => some .alpha
  | "ascii" => some .ascii
  | "blank" => some .blank
  | "cntrl" => some .cntrl
  | "digit" => some .digit
  | "graph" => some .graph
  | "lower" => some .lower
  | "print" => some .print
  | "punct" => some .punct
  | "space" => some .space
  | "upper" => some .upper
  | "word" => some .word
  | "xdigit" => some .xdigit
  | _ => none

/-- Read a named class after its opening bracket, if there is one. -/
def namedSet? (s : Text) : Option (SetExpr × Text) :=
  match s with
  | ':' :: rest =>
    let (negated, rest) := match rest with
      | '^' :: rest => (true, rest)
      | rest => (false, rest)
    match rest.dropWhile (· != ':') with
    | ':' :: ']' :: tail => (namedClass? (rest.takeWhile (· != ':'))).map (.named · negated, tail)
    | _ => none
  | _ => none

/-- Take the leading hyphens of a class as members. -/
def leadingHyphens (verbose : Bool) : Nat → SetLevel → Text → SetLevel × Text
  | n + 1, lv, '-' :: rest => leadingHyphens verbose n (lv.add (.char '-')) (skipBlank verbose rest)
  | _, lv, s => (lv, s)

/-- Open a class, after its bracket: a caret negates it, leading hyphens and then a closing bracket
in first place are members. -/
def openSet (verbose : Bool) (s : Text) : SetLevel × Text :=
  let s := skipBlank verbose s
  let (negated, s) := match s with
    | '^' :: rest => (true, skipBlank verbose rest)
    | s => (false, s)
  let (lv, s) := leadingHyphens verbose s.length ⟨negated, none, []⟩ s
  match lv.members, s with
  | [], ']' :: rest => (lv.add (.char ']'), skipBlank verbose rest)
  | _, s => (lv, s)

/-- Read a single member: a character or an escape. -/
def setItem (verbose : Bool) : Text → Option (Expr × Text)
  | [] => none
  | '\\' :: rest => escape verbose rest
  | c :: rest => some (.char c, rest)

/-- The character that a member stands for, if it is one. -/
def charOf? : Expr → Option Char
  | .char c => some c
  | .byte c => some c
  | _ => none

/-- The set that a member stands for; an assertion stands for none. -/
def setOf? : Expr → Option SetExpr
  | .char c => some (.char c)
  | .byte c => some (.char c)
  | .set s => some s
  | _ => none

/-- Read a member or a range. A hyphen before a closing bracket or another hyphen makes no
range. -/
def setRange (verbose : Bool) (s : Text) : Option (SetExpr × Text) := do
  let (first, rest) ← setItem verbose s
  match skipBlank verbose rest with
  | [] => none
  | '-' :: rest =>
    match skipBlank verbose rest with
    | [] => none
    | ']' :: _ => return (← setOf? first, '-' :: rest)
    | '-' :: _ => return (← setOf? first, '-' :: rest)
    | rest => do
      let (last, rest) ← setItem verbose rest
      let lo ← charOf? first
      let hi ← charOf? last
      if lo ≤ hi then return (.range lo hi, rest) else none
  | rest => return (← setOf? first, rest)

/-- Read on in an open class inside the classes `outer`, up to the end of the outermost one. The
first argument bounds the number of steps. -/
def setFrom (verbose : Bool) : Nat → SetLevel → List SetLevel → Text → Option (SetExpr × Text)
  | 0, _, _, _ => none
  | n + 1, lv, outer, s =>
    match skipBlank verbose s with
    | [] => none
    | '[' :: rest =>
      match namedSet? rest with
      | some (e, rest) => setFrom verbose n (lv.add e) outer rest
      | none =>
        let (inner, rest) := openSet verbose rest
        setFrom verbose n inner (lv :: outer) rest
    | ']' :: rest =>
      let e := SetExpr.bracket lv.negated lv.body
      match outer with
      | [] => some (e, rest)
      | lv :: outer => setFrom verbose n (lv.add e) outer rest
    | '&' :: '&' :: rest => setFrom verbose n (lv.operate .inter) outer rest
    | '-' :: '-' :: rest => setFrom verbose n (lv.operate .diff) outer rest
    | '~' :: '~' :: rest => setFrom verbose n (lv.operate .symmDiff) outer rest
    | s =>
      match setRange verbose s with
      | some (e, rest) => setFrom verbose n (lv.add e) outer rest
      | none => none

/-- Read a class, after its opening bracket. -/
def readSet (verbose : Bool) (s : Text) : Option (SetExpr × Text) :=
  let (lv, rest) := openSet verbose s
  setFrom verbose (s.length + 1) lv [] rest

/-! ## Groups -/

/-- An open group: its header, whether the pattern around it is verbose, and what was read before
it in the enclosing group. -/
structure Level where
  kind : GroupKind
  verbose : Bool
  branches : List Expr
  items : List Expr
deriving Repr, Inhabited

/-- What was read so far: the finished alternatives of the innermost open group and the items of
the current one, the newest first, the open groups from the inside out, and the number of captures
that were opened. -/
structure State where
  verbose : Bool := false
  branches : List Expr := []
  items : List Expr := []
  levels : List Level := []
  captures : Nat := 0
deriving Repr, Inhabited

/-- The sequence of some items, given the newest first. -/
def sequence : List Expr → Expr
  | [] => .empty
  | [e] => e
  | e :: es => .cat (sequence es) e

/-- The choice between alternatives, given the newest first. -/
def choice : List Expr → Expr
  | [] => .empty
  | [e] => e
  | e :: es => .alt (choice es) e

namespace State

/-- Add an item. -/
def push (st : State) (e : Expr) : State := { st with items := e :: st.items }

/-- Begin the next alternative. -/
def branch (st : State) : State :=
  { st with branches := sequence st.items :: st.branches, items := [] }

/-- What the innermost open group holds. -/
def body (st : State) : Expr := choice (sequence st.items :: st.branches)

/-- Open a group that switches flags, if any. -/
def openGroup (st : State) (edits : List (Flag × Bool)) : State :=
  { st with
    verbose := (edits.lookup .verbose).getD st.verbose
    branches := []
    items := []
    levels := ⟨.plain edits, st.verbose, st.branches, st.items⟩ :: st.levels }

/-- Open a group that captures. -/
def openCapture (st : State) (name : Option (List Char)) : State :=
  { st with
    branches := []
    items := []
    levels := ⟨.capture (st.captures + 1) name, st.verbose, st.branches, st.items⟩ :: st.levels
    captures := st.captures + 1 }

/-- Close the innermost open group, if there is one. -/
def closeGroup (st : State) : Option State :=
  match st.levels with
  | [] => none
  | lv :: levels =>
    some { st with
      verbose := lv.verbose
      branches := lv.branches
      items := .group lv.kind st.body :: lv.items
      levels }

/-- A flag item. -/
def setFlags (st : State) (edits : List (Flag × Bool)) : State :=
  { st with
    verbose := (edits.lookup .verbose).getD st.verbose
    items := .flags edits :: st.items }

/-- Repeat the last item; there must be one, and not a flag item. -/
def repeatLast (st : State) (least : Nat) (most : Option Nat) (greedy : Bool) : Option State :=
  match st.items with
  | [] => none
  | .flags _ :: _ => none
  | e :: items => some { st with items := .repeated e least most greedy :: items }

end State

/-- Read the letters of a flag item up to a colon or a closing parenthesis, which is returned.
`value` is what the next letters switch to; `seen` are the flags and the hyphen read so far. -/
def flagLetters (value : Bool) (edits : List (Flag × Bool)) (dangling : Bool) :
    Text → Option (List (Flag × Bool) × Char × Text)
  | [] => none
  | c :: rest =>
    if c = ':' ∨ c = ')' then
      if dangling then none else some (edits.reverse, c, rest)
    else if c = '-' then
      if value then flagLetters false edits true rest else none
    else
      match Flag.ofChar? c with
      | some f =>
        if edits.any (·.1 = f) then none else flagLetters value ((f, value) :: edits) false rest
      | none => none

/-- Whether a character may stand in a group's name, in first place or later. -/
def isNameChar (first : Bool) (c : Char) : Bool :=
  if first then c == '_' || Unicode.isAlphabetic c
  else c == '_' || c == '.' || c == '[' || c == ']' || Unicode.isAlphanumeric c

/-- Read the name of a group up to its closing angle bracket. -/
def groupName (s : Text) : Option (List Char × Text) :=
  match s.takeWhile (· != '>'), s.dropWhile (· != '>') with
  | c :: cs, _ :: rest =>
    if isNameChar true c && cs.all (isNameChar false) then some (c :: cs, rest) else none
  | _, _ => none

/-- Read the header of a group or a flag item, after the opening parenthesis. -/
def groupHeader (st : State) (s : Text) : Option (State × Text) :=
  match skipBlank st.verbose s with
  | '?' :: '=' :: _ => none
  | '?' :: '!' :: _ => none
  | '?' :: '<' :: '=' :: _ => none
  | '?' :: '<' :: '!' :: _ => none
  | '?' :: 'P' :: '<' :: rest => (groupName rest).map fun (n, rest) => (st.openCapture (some n), rest)
  | '?' :: '<' :: rest => (groupName rest).map fun (n, rest) => (st.openCapture (some n), rest)
  | '?' :: rest =>
    match flagLetters true [] false rest with
    | some (edits, ':', rest) => some (st.openGroup edits, rest)
    | some ([], _, _) => none
    | some (edits, _, rest) => some (st.setFlags edits, rest)
    | none => none
  | s => some (st.openCapture none, s)

/-! ## Repetition -/

/-- A question mark after a repetition makes it lazy. -/
def greediness : Text → Bool × Text
  | '?' :: rest => (false, rest)
  | s => (true, s)

/-- Read a counted repetition, after its opening brace. -/
def counted (st : State) (s : Text) : Option (State × Text) :=
  let verbose := st.verbose
  let (least, s) := decimal verbose (skipBlank verbose s)
  let bounds : Option (Option Nat × Option Nat × Text) :=
    match s with
    | ',' :: rest =>
      match skipBlank verbose rest with
      | '\x7d' :: rest => some (least, none, rest)
      | rest =>
        match decimal verbose rest with
        | (some m, '\x7d' :: rest) => some (least, some m, rest)
        | _ => none
    | '\x7d' :: rest => some (least, least, rest)
    | _ => none
  match bounds with
  | some (some least, most, rest) =>
    let (greedy, rest) := greediness (skipBlank verbose rest)
    if most.all (least ≤ ·) then
      (st.repeatLast least most greedy).map fun st => (st, rest)
    else none
  | _ => none

/-- Read a repetition by a sign. -/
def uncounted (st : State) (least : Nat) (most : Option Nat) (s : Text) : Option (State × Text) :=
  let (greedy, rest) := greediness s
  (st.repeatLast least most greedy).map fun st => (st, rest)

/-! ## Patterns -/

/-- Read one part of a pattern that begins with the character `c`. -/
def step (st : State) (c : Char) (rest : Text) : Option (State × Text) :=
  match c with
  | '(' => groupHeader st rest
  | ')' => st.closeGroup.map fun st => (st, rest)
  | '|' => some (st.branch, rest)
  | '[' => (readSet st.verbose rest).map fun (e, rest) => (st.push (.set e), rest)
  | '?' => uncounted st 0 (some 1) rest
  | '*' => uncounted st 0 none rest
  | '+' => uncounted st 1 none rest
  | '\x7b' => counted st rest
  | '\\' => (escape st.verbose rest).map fun (e, rest) => (st.push e, rest)
  | '.' => some (st.push .dot, rest)
  | '^' => some (st.push .caret, rest)
  | '$' => some (st.push .dollar, rest)
  | c => some (st.push (.char c), rest)

/-- Read a pattern to its end. The first argument bounds the number of steps. -/
def readFrom : Nat → State → Text → Option Expr
  | 0, _, _ => none
  | n + 1, st, s =>
    match skipBlank st.verbose s with
    | [] => if st.levels.isEmpty then some st.body else none
    | c :: rest =>
      match step st c rest with
      | some (st, rest) => readFrom n st rest
      | none => none

end Reader

namespace Expr

/-- How deeply a pattern may be nested. -/
def maxHeight : Nat := 250

/-- The expression that a text says, if it is well formed: group names are distinct, and nesting
has a limit. -/
def read? (text : Text) : Option Expr := do
  let e ← Reader.readFrom (text.length + 1) {} text
  if e.groupNames.Nodup ∧ e.height ≤ maxHeight then some e else none

end Expr

end FaustLens
