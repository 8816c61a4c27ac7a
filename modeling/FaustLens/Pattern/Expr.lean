import FaustLens.Pattern.Basic
import FaustLens.Pattern.Property

/-!
# Written patterns

Stands for the syntax trees of the library `regex` and for what they are translated to.

An `Expr` is what the text of a pattern says, before flags are taken into account: `.` is still a
dot, `(?i)` an item of its own and a class a tree of set operations. `Expr.toPattern?` gives the
pattern it stands for, if it stands for one: a class property must be known, and with the Unicode
flag off a set must stay within ASCII.

A flag item holds from its place to the end of the enclosing group, through later alternatives too.
-/

namespace FaustLens

/-! ## Flags -/

/-- What an inline flag switches. -/
inductive Flag
  /-- `i`: letters match in either case. -/
  | ignoreCase
  /-- `m`: `^` and `$` match at line ends. -/
  | multiLine
  /-- `s`: a dot matches a line feed too. -/
  | dotAll
  /-- `U`: greedy and lazy repetition change places. -/
  | swapGreed
  /-- `u`: classes hold Unicode characters. -/
  | unicode
  /-- `R`: a carriage return ends a line too. -/
  | crlf
  /-- `x`: white space and comments in the pattern are ignored. -/
  | verbose
deriving DecidableEq, Repr, Inhabited

/-- The flag with a given letter. -/
def Flag.ofChar? : Char → Option Flag
  | 'i' => some .ignoreCase
  | 'm' => some .multiLine
  | 's' => some .dotAll
  | 'U' => some .swapGreed
  | 'u' => some .unicode
  | 'R' => some .crlf
  | 'x' => some .verbose
  | _ => none

/-- Which flags are on. -/
structure Flags where
  ignoreCase : Bool := false
  multiLine : Bool := false
  dotAll : Bool := false
  swapGreed : Bool := false
  unicode : Bool := true
  crlf : Bool := false
deriving DecidableEq, Repr, Inhabited

/-- Switch one flag. -/
def Flags.set (fl : Flags) : Flag × Bool → Flags
  | (.ignoreCase, b) => { fl with ignoreCase := b }
  | (.multiLine, b) => { fl with multiLine := b }
  | (.dotAll, b) => { fl with dotAll := b }
  | (.swapGreed, b) => { fl with swapGreed := b }
  | (.unicode, b) => { fl with unicode := b }
  | (.crlf, b) => { fl with crlf := b }
  | (.verbose, _) => fl

/-- Switch several flags in order. -/
def Flags.setAll (fl : Flags) (edits : List (Flag × Bool)) : Flags := edits.foldl Flags.set fl

/-! ## Expressions -/

/-- The classes with a letter of their own. -/
inductive LetterClass
  | digit | space | word
deriving DecidableEq, Repr, Inhabited

/-- The classes with a name in brackets and colons, as in `[:alpha:]`. -/
inductive NamedClass
  | alnum | alpha | ascii | blank | cntrl | digit | graph | lower | print | punct | space | upper
  | word | xdigit
deriving DecidableEq, Repr, Inhabited

/-- Binary operations on sets. -/
inductive SetOp
  | inter | diff | symmDiff
deriving DecidableEq, Repr, Inhabited

/-- A written character class or a part of one. -/
inductive SetExpr
  | empty
  | char (c : Char)
  | range (lo hi : Char)
  | letter (k : LetterClass) (negated : Bool)
  /-- A property, `name` or `name=value`. -/
  | property (name : List Char) (value : Option (List Char)) (negated : Bool)
  | named (k : NamedClass) (negated : Bool)
  | union (a b : SetExpr)
  | op (o : SetOp) (a b : SetExpr)
  | bracket (negated : Bool) (s : SetExpr)
deriving DecidableEq, Repr, Inhabited

/-- What the parentheses around a part of a pattern are for. -/
inductive GroupKind
  /-- They switch flags, if any, for the part. -/
  | plain (edits : List (Flag × Bool))
  /-- They capture what the part matches; captures are numbered and may have a name. -/
  | capture (number : Nat) (name : Option (List Char))
deriving DecidableEq, Repr, Inhabited

namespace GroupKind

/-- The flags that are switched inside the group. -/
def edits : GroupKind → List (Flag × Bool)
  | plain edits => edits
  | capture _ _ => []

/-- The name of the group, if it has one. -/
def name? : GroupKind → Option (List Char)
  | plain _ => none
  | capture _ name => name

/-- The pattern of a group with the given body. -/
def wrap : GroupKind → Pattern → Pattern
  | plain _, p => p
  | capture number _, p => .capture number p

end GroupKind

/-- A written pattern. -/
inductive Expr
  | empty
  /-- A flag item such as `(?i)`. -/
  | flags (edits : List (Flag × Bool))
  | char (c : Char)
  /-- A character given by two hexadecimal digits. -/
  | byte (c : Char)
  | dot
  | caret
  | dollar
  | textStart
  | textEnd
  | wordEdge (edge : WordEdge)
  | set (s : SetExpr)
  | group (kind : GroupKind) (body : Expr)
  | repeated (body : Expr) (least : Nat) (most : Option Nat) (greedy : Bool)
  | cat (a b : Expr)
  | alt (a b : Expr)
deriving DecidableEq, Repr, Inhabited

/-! ## Sets -/

namespace SetExpr

/-- The set of a class letter. -/
def ofLetter (unicode : Bool) : LetterClass → CharSet
  | .digit => if unicode then .digit else .asciiDigit
  | .space => if unicode then .space else .asciiSpace
  | .word => if unicode then .word else .asciiWord

/-- The set of a class name; all of them are ASCII. -/
def ofName : NamedClass → CharSet
  | .alnum => .union (.range '0' '9') (.union (.range 'A' 'Z') (.range 'a' 'z'))
  | .alpha => .union (.range 'A' 'Z') (.range 'a' 'z')
  | .ascii => .ascii
  | .blank => .union (.single '\t') (.single ' ')
  | .cntrl => .union (.range '\x00' '\x1f') (.single '\x7f')
  | .digit => .range '0' '9'
  | .graph => .range '!' '~'
  | .lower => .range 'a' 'z'
  | .print => .range ' ' '~'
  | .punct => .union (.range '!' '/') (.union (.range ':' '@')
      (.union (.range '[' '\x60') (.range '\x7b' '~')))
  | .space => .asciiSpace
  | .upper => .range 'A' 'Z'
  | .word => .asciiWord
  | .xdigit => .union (.range '0' '9') (.union (.range 'A' 'F') (.range 'a' 'f'))

/-- The set of a property, if the property is known. -/
def ofProperty? (name : List Char) : Option (List Char) → Option CharSet
  | none => CharSet.named? name
  | some value => CharSet.valued? name value

/-- Close a set under case if letters match in either case. -/
def fold (fl : Flags) (s : CharSet) : CharSet :=
  if fl.ignoreCase then (if fl.unicode then .folded s else .asciiFolded s) else s

/-- Close a set under case, then take the complement if it is negated. -/
def foldNegate (fl : Flags) (negated : Bool) (s : CharSet) : Option CharSet :=
  if negated then (if fl.unicode then some (.compl (fold fl s)) else none) else some (fold fl s)

/-- Whether a character may stand in a class. -/
def allows (fl : Flags) (c : Char) : Bool := fl.unicode || Unicode.isAscii c

/-- The set that a class stands for. -/
def toCharSet? (fl : Flags) : SetExpr → Option CharSet
  | empty => some .empty
  | char c => if allows fl c then some (.single c) else none
  | range lo hi => if allows fl lo && allows fl hi then some (.range lo hi) else none
  | letter k negated =>
    let s := ofLetter fl.unicode k
    if negated then (if fl.unicode then some (.compl s) else none) else some s
  | property name value negated =>
    if fl.unicode then (ofProperty? name value).bind (foldNegate fl negated) else none
  | named k negated => foldNegate fl negated (ofName k)
  | union a b => do
    let a ← toCharSet? fl a
    let b ← toCharSet? fl b
    return .union a b
  | op o a b => do
    let a ← toCharSet? fl a
    let b ← toCharSet? fl b
    return match o with
      | .inter => .inter (fold fl a) (fold fl b)
      | .diff => .diff (fold fl a) (fold fl b)
      | .symmDiff => .symmDiff (fold fl a) (fold fl b)
  | bracket negated s => (toCharSet? fl s).bind (foldNegate fl negated)

/-- How deeply the class is nested; a list of members counts once. -/
def height : SetExpr → Nat
  | union a b => max (match a with | union _ _ => height a - 1 | _ => height a) (height b) + 1
  | op _ a b => max (height a) (height b) + 1
  | bracket _ s => height s + 1
  | _ => 0

end SetExpr

/-! ## Patterns -/

namespace Expr

/-- The characters that a dot matches. -/
def dotSet (fl : Flags) : CharSet :=
  if fl.dotAll then .all
  else if fl.crlf then .compl (.union (.single '\r') (.single '\n'))
  else .compl (.single '\n')

/-- The pattern of a single character. -/
def charPattern (fl : Flags) (c : Char) : Pattern :=
  .one (SetExpr.fold fl (.single c))

/-- The alternatives that an expression stands for under the given flags, with the flags that hold
behind it. Anything but a choice is its only alternative. -/
def branches (fl : Flags) : Expr → Option (List Pattern × Flags)
  | empty => some ([.empty], fl)
  | flags edits => some ([.empty], fl.setAll edits)
  | char c => some ([charPattern fl c], fl)
  | byte c => if SetExpr.allows fl c then some ([charPattern fl c], fl) else none
  | dot => if fl.unicode then some ([.one (dotSet fl)], fl) else none
  | caret => some ([.assert (if fl.multiLine then .lineStart fl.crlf else .textStart)], fl)
  | dollar => some ([.assert (if fl.multiLine then .lineEnd fl.crlf else .textEnd)], fl)
  | textStart => some ([.assert .textStart], fl)
  | textEnd => some ([.assert .textEnd], fl)
  | wordEdge edge => some ([.assert (.wordEdge edge (!fl.unicode))], fl)
  | set s => (s.toCharSet? fl).map fun cs => ([.one cs], fl)
  | group kind body =>
    (branches (fl.setAll kind.edits) body).map fun (ps, _) => ([kind.wrap (.choice ps)], fl)
  | repeated body least most greedy =>
    (branches fl body).map fun (ps, fl') =>
      ([(Pattern.choice ps).iterated least most (greedy != fl'.swapGreed)], fl')
  | cat a b => do
    let (ps, fl) ← branches fl a
    let (qs, fl) ← branches fl b
    return ([.cat (.choice ps) (.choice qs)], fl)
  | alt a b => do
    let (ps, fl) ← branches fl a
    let (qs, fl) ← branches fl b
    return (ps ++ [.choice qs], fl)

/-- The pattern that an expression stands for. -/
def toPattern? (e : Expr) : Option Pattern := (branches {} e).map fun (ps, _) => .choice ps

/-- How deeply the expression is nested. A sequence counts once, however long, and so does a list
of alternatives. -/
def height : Expr → Nat
  | set s => s.height
  | group _ body => height body + 1
  | repeated body _ _ _ => height body + 1
  | cat a b => max (match a with | cat _ _ => height a - 1 | _ => height a) (height b) + 1
  | alt a b => max (match a with | alt _ _ => height a - 1 | _ => height a) (height b) + 1
  | _ => 0

/-- The names of the expression's groups, in order. -/
def groupNames : Expr → List (List Char)
  | group kind body => kind.name?.toList ++ groupNames body
  | repeated body _ _ _ => groupNames body
  | cat a b => groupNames a ++ groupNames b
  | alt a b => groupNames a ++ groupNames b
  | _ => []

end Expr

end FaustLens
