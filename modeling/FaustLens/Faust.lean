import FaustLens.Highlighter

/-!
# The Faust rule table

Model of `faust_rules` (`syntax::faust`) and of the tables behind it: `KEYWORDS`, `TYPES`,
`PUNCTUATION`, `MATH_OPERATORS`, `COMPOSITION_OPERATORS`, `EXTENSIONS`.

The order of the rules is significant. Comments and strings come first and are exclusive, so nothing
inside them is coloured again. The number rules are not exclusive: the integer rule repaints the
digit runs of a float and leaves its point and its exponent in the float category.
-/

namespace FaustLens.Faust

/-- Reserved words. -/
def keywords : List String :=
  ["with", "let", "import", "component", "where", "letrec", "library", "environment", "declare",
   "ffunction"]

/-- Names of types. -/
def types : List String := ["int", "float"]

/-- Structural punctuation. -/
def punctuation : List String := ["(", ")", "=", ",", "\x7b", "\x7d", ";", "."]

/-- Arithmetic and comparison operators, tried in this order. -/
def mathOperators : List String :=
  ["+", "-", "*", "/", "%", "^", ">", "<", ">=", "<=", "==", "!=", ","]

/-- Operators that compose block diagrams. -/
def compositionOperators : List String := ["<:", ":>", "~", ":"]

/-- A comment between `/*` and the next `*/`. -/
def blockComment : Option Rule :=
  (Rule.ofPattern? "block_comment" "/\\*[^*]*\\*+(?:[^/*][^*]*\\*+)*/" .comment).map Rule.claiming

/-- A comment from `//` to the end of the line. -/
def lineComment : Option Rule :=
  (Rule.ofPattern? "line_comment" "//[^\\r\\n]*" .comment).map Rule.claiming

/-- A string literal, in which a backslash takes the next character along. -/
def stringLiteral : Option Rule :=
  (Rule.ofPattern? "string" "\"(?:\\\\.|[^\"])*\"" .string).map Rule.claiming

/-- A float literal between word boundaries. -/
def floatLiteral : Option Rule :=
  Rule.ofPattern? "float" "\\b[0-9]+\\.[0-9]+(?:[eE][-+]?[0-9]+)?\\b" .float

/-- An integer literal between word boundaries. -/
def integerLiteral : Option Rule := Rule.ofPattern? "integer" "\\b[0-9]+\\b" .integer

/-- The rules in the order of their application; all of them are valid. -/
def ruleTable : List (Option Rule) :=
  [blockComment,
   lineComment,
   stringLiteral,
   Rule.ofLiterals? "process" ["process"] .processKeyword true,
   Rule.ofLiterals? "keyword" keywords .keyword true,
   Rule.ofLiterals? "type" types .type true,
   Rule.ofLiterals? "punctuation" punctuation .punctuation false,
   Rule.ofLiterals? "math" mathOperators .mathOperator false,
   Rule.ofLiterals? "negation" ["!"] .negation false,
   Rule.ofLiterals? "wildcard" ["_"] .wildcard false,
   floatLiteral,
   integerLiteral,
   Rule.ofLiterals? "composition" compositionOperators .compositionOperator false]

/-- The Faust rules in the order of their application. -/
def rules : List Rule := ruleTable.filterMap id

/-- The highlighter for Faust. -/
def highlighter : Highlighter := ⟨rules⟩

/-! ## Source files -/

/-- The extensions of Faust sources and libraries. -/
def extensions : List String := ["dsp", "lib"]

end FaustLens.Faust
