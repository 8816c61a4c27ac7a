import FaustLens.Faust
import FaustLens.Proofs.Pattern.Contents

/-!
# The Faust rules, compiled

The texts of the Faust rules (`faust_rules`, `syntax::faust`) compile to patterns once and for all.
The three exclusive rules come first and their patterns are written out here; of the rules for code
behind them only some facts are needed, which are decided from their patterns.

Results:
* `rules_eq`: the table is the comment rules, the string rule and the rules for code.
* `regular_of_mem_rules`, `codeRule_of_mem`: what all rules and the rules for code have in common.
-/

namespace FaustLens.Faust

open Pattern

/-- The pattern of block comments. -/
def blockPattern : Pattern :=
  let star := one (.single '*')
  let slash := one (.single '/')
  let others := repeated (one (.compl (.single '*'))) 0 none true
  let stars := repeated star 1 none true
  let again := repeated
    (cat (cat (one (.compl (.union (.single '/') (.single '*')))) others) stars) 0 none true
  cat (cat (cat (cat (cat slash star) others) stars) again) slash

/-- The pattern of line comments. -/
def linePattern : Pattern :=
  cat (cat (one (.single '/')) (one (.single '/')))
    (repeated (one (.compl (.union (.single '\r') (.single '\n')))) 0 none true)

/-- The pattern of string literals. -/
def stringPattern : Pattern :=
  let quote := one (.single '"')
  let escaped := cat (one (.single '\\')) (one (.compl (.single '\n')))
  cat (cat quote (repeated (alt escaped (one (.compl (.single '"')))) 0 none true)) quote

def blockRule : Rule :=
  ⟨"block_comment", "/\\*[^*]*\\*+(?:[^/*][^*]*\\*+)*/", blockPattern, .comment, true⟩

def lineRule : Rule := ⟨"line_comment", "//[^\\r\\n]*", linePattern, .comment, true⟩

def stringRule : Rule := ⟨"string", "\"(?:\\\\.|[^\"])*\"", stringPattern, .string, true⟩

theorem blockComment_eq : blockComment = some blockRule := by
  unfold blockComment Rule.ofPattern?
  rw [show Pattern.ofText? "/\\*[^*]*\\*+(?:[^/*][^*]*\\*+)*/" = some blockPattern by decide +kernel]
  rfl

theorem lineComment_eq : lineComment = some lineRule := by
  unfold lineComment Rule.ofPattern?
  rw [show Pattern.ofText? "//[^\\r\\n]*" = some linePattern by decide +kernel]
  rfl

theorem stringLiteral_eq : stringLiteral = some stringRule := by
  unfold stringLiteral Rule.ofPattern?
  rw [show Pattern.ofText? "\"(?:\\\\.|[^\"])*\"" = some stringPattern by decide +kernel]
  rfl

/-- The matches of a rule in a text; a rule that is not valid has none. -/
def matchesOf (rule : Option Rule) (text : Text) : List ByteRange :=
  rule.elim [] fun r => r.findAll text

theorem matchesOf_blockComment (text : Text) :
    matchesOf blockComment text = blockPattern.findAll text := by
  unfold matchesOf
  rw [blockComment_eq]
  rfl

/-- The rules behind the exclusive ones. -/
def codeRules : List Rule := (ruleTable.drop 3).filterMap id

theorem rules_eq : rules = [blockRule, lineRule] ++ stringRule :: codeRules := by
  unfold rules codeRules ruleTable
  rw [blockComment_eq, lineComment_eq, stringLiteral_eq]
  rfl

/-- What all rules of the table have in common. -/
structure Regular (r : Rule) : Prop where
  steady : r.pattern.steady = true
  moves : r.pattern.nullable = false
  beginsApart_cr : r.pattern.beginsApart '\r' = true
  beginsApart_lf : r.pattern.beginsApart '\n' = true

/-- The characters that begin, end or follow what the exclusive rules match. -/
def fence : List Char := ['/', '"', '\r', '\n']

/-- What the rules for code have in common. -/
structure CodeRule (r : Rule) : Prop where
  not_exclusive : r.exclusive = false
  name_ne : r.name ≠ lineRule.name
  category_ne_comment : r.category ≠ .comment
  category_ne_string : r.category ≠ .string
  lone : ∀ x ∈ fence, r.pattern.lone x = true

instance (r : Rule) : Decidable (Regular r) :=
  decidable_of_iff ((r.pattern.steady = true ∧ r.pattern.nullable = false) ∧
      r.pattern.beginsApart '\r' = true ∧ r.pattern.beginsApart '\n' = true)
    ⟨fun h => ⟨h.1.1, h.1.2, h.2.1, h.2.2⟩,
      fun h => ⟨⟨h.steady, h.moves⟩, h.beginsApart_cr, h.beginsApart_lf⟩⟩

instance (r : Rule) : Decidable (CodeRule r) :=
  decidable_of_iff ((r.exclusive = false ∧ r.name ≠ lineRule.name) ∧
      (r.category ≠ .comment ∧ r.category ≠ .string) ∧ fence.all (r.pattern.lone ·) = true)
    ⟨fun h => ⟨h.1.1, h.1.2, h.2.1.1, h.2.1.2, List.all_eq_true.mp h.2.2⟩,
      fun h => ⟨⟨h.not_exclusive, h.name_ne⟩, ⟨h.category_ne_comment, h.category_ne_string⟩,
        List.all_eq_true.mpr h.lone⟩⟩

/-- What is needed of the rules for code, decided in one go. -/
theorem forall_codeRules : ∀ r ∈ codeRules, Regular r ∧ CodeRule r := by
  decide +kernel

theorem codeRule_of_mem (r : Rule) (hr : r ∈ codeRules) : CodeRule r := (forall_codeRules r hr).2

theorem regular_of_mem_rules : ∀ r ∈ rules, Regular r := by
  have hexclusive : ∀ r ∈ [blockRule, lineRule, stringRule], Regular r := by
    decide +kernel
  intro r hr
  have hmem : r ∈ [blockRule, lineRule, stringRule] ++ codeRules := rules_eq ▸ hr
  rcases List.mem_append.mp hmem with hr | hr
  · exact hexclusive r hr
  · exact (forall_codeRules r hr).1

end FaustLens.Faust
