import FaustLens.Category
import FaustLens.Pattern.Compile

/-!
# Rules

Model of `Rule` (`syntax::rules`): `new`, `literals`, `exclusive`, `find_all`. `escapeLiteral`
stands for `escape` of the library `regex`.

A rule gives the matches of a pattern a category. An exclusive rule claims what it matches, so that
later rules leave it alone. A rule is made from the text of a pattern (`Rule.ofPattern?`) or from a
list of literal alternatives (`Rule.ofLiterals?`), which are tried in list order and may be required
to be whole words.

Results:
* `source_ofPattern?`, `category_ofPattern?`: a rule keeps the text of its pattern and its category.
-/

namespace FaustLens

/-- A classification rule. -/
structure Rule where
  name : String
  /-- The text of the pattern. -/
  source : String
  pattern : Pattern
  category : Category
  /-- Whether accepted matches are claimed. -/
  exclusive : Bool
deriving Repr, Inhabited

namespace Rule

/-- The rule with a given pattern, if the pattern is valid. It is not exclusive. -/
def ofPattern? (name source : String) (category : Category) : Option Rule :=
  (Pattern.ofText? source).map fun p => ⟨name, source, p, category, false⟩

/-- A literal with a backslash before each character that has a meaning in patterns. -/
def escapeLiteral (literal : List Char) : List Char :=
  literal.flatMap fun c => if Reader.metaChars.contains c then ['\\', c] else [c]

/-- The text of the pattern that matches any of the alternatives, as whole words if `bounded`. -/
def literalSource (alternatives : List String) (bounded : Bool) : String :=
  let choice := "(?:" ++ "|".intercalate
    (alternatives.map fun alt => String.ofList (escapeLiteral alt.toList)) ++ ")"
  if bounded then "\\b" ++ choice ++ "\\b" else choice

/-- The rule that matches any of the alternatives. -/
def ofLiterals? (name : String) (alternatives : List String) (category : Category)
    (bounded : Bool) : Option Rule :=
  ofPattern? name (literalSource alternatives bounded) category

/-- The rule with its matches claimed. -/
def claiming (r : Rule) : Rule := { r with exclusive := true }

/-- The matches of the rule in a text, from left to right. -/
def findAll (r : Rule) (text : Text) : List ByteRange := r.pattern.findAll text

theorem source_ofPattern? {name source : String} {c : Category} {r : Rule}
    (h : ofPattern? name source c = some r) : r.source = source := by
  obtain ⟨p, -, rfl⟩ := Option.map_eq_some_iff.mp h
  rfl

theorem category_ofPattern? {name source : String} {c : Category} {r : Rule}
    (h : ofPattern? name source c = some r) : r.category = c := by
  obtain ⟨p, -, rfl⟩ := Option.map_eq_some_iff.mp h
  rfl

end Rule

end FaustLens
