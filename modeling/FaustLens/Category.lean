/-!
# Lexical categories

Model of `Category` (`syntax::category`): `ALL`, `name`, `from_name`.

Every byte of a highlighted text has one of thirteen categories. Each has a canonical name;
`Category.ofName?` reads exactly those names.

Results:
* `ofName?_name`: a category is read back from its name.
* `name_of_ofName?`: only a category's own name is read as that category.
* `ofName?_eq_some_iff`: so a name is read as the category that it is the name of.
* `mem_all`: `all` lists every category.
-/

namespace FaustLens

/-- The lexical category of a piece of Faust source. -/
inductive Category
  /-- Block and line comments. -/
  | comment
  /-- String literals. -/
  | string
  /-- The entry point `process`. -/
  | processKeyword
  /-- Reserved words. -/
  | keyword
  /-- Names of types. -/
  | type
  /-- Brackets and separators. -/
  | punctuation
  /-- Arithmetic and comparison. -/
  | mathOperator
  /-- Composition of block diagrams. -/
  | compositionOperator
  /-- Logical negation. -/
  | negation
  /-- The wire `_`. -/
  | wildcard
  /-- Floating-point literals. -/
  | float
  /-- Integer literals. -/
  | integer
  /-- Everything else. -/
  | plain
deriving DecidableEq, Repr, Inhabited

namespace Category

/-- All categories, in their fixed order. -/
def all : List Category :=
  [comment, string, processKeyword, keyword, type, punctuation, mathOperator, compositionOperator,
   negation, wildcard, float, integer, plain]

/-- The canonical name. -/
def name : Category → String
  | comment => "Comment"
  | string => "String"
  | processKeyword => "ProcessKeyword"
  | keyword => "Keyword"
  | type => "Type"
  | punctuation => "Punctuation"
  | mathOperator => "MathOperator"
  | compositionOperator => "CompositionOperator"
  | negation => "Negation"
  | wildcard => "Wildcard"
  | float => "Float"
  | integer => "Integer"
  | plain => "Default"

/-- The category with a canonical name. -/
def ofName? (s : String) : Option Category := all.find? (·.name == s)

theorem mem_all (c : Category) : c ∈ all := by
  cases c <;> simp [all]

theorem ofName?_name (c : Category) : ofName? c.name = some c := by
  cases c <;> rfl

theorem name_of_ofName? {s : String} {c : Category} (h : ofName? s = some c) : c.name = s := by
  simpa using List.find?_some h

theorem ofName?_eq_some_iff {s : String} {c : Category} : ofName? s = some c ↔ c.name = s :=
  ⟨name_of_ofName?, fun h => h ▸ ofName?_name c⟩

end Category

end FaustLens
