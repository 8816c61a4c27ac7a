import FaustLens.Proofs.Faust.Words
import FaustLens.Proofs.Pattern.Literals

/-!
# The layers of code

The rules for code paint in a fixed order, and each of them has a category of its own. So the
category of a byte of code is the last of these categories, in the order of their rules, of which a
match holds the byte (`Covered`). Which of them can hold a character is read off their patterns
(`layersOf`), and for the characters of operators it is listed in `operatorLayers`.

Results:
* `codeCategory_eq_iff`: the category of a byte, from the layers that cover it.
* `codeCategory_eq_plain_iff`: the bytes that no layer covers.
* `mem_layersOf`: which layers can cover a character.
* `exists_pattern_of_symbols`: a layer of operators covers what the matches of its list of symbols
  hold.
-/

namespace FaustLens.Faust

open Hit Pattern

variable {text : Text} {b : Nat} {c d : Category} {r : Rule} {a z : Text} {x : Char}

/-- The categories of the rules for code, in the order of their application. -/
def codeLayers : List Category :=
  [.processKeyword, .keyword, .type, .punctuation, .mathOperator, .negation, .wildcard, .float,
   .integer, .compositionOperator]

theorem map_category_codeRules : codeRules.map (·.category) = codeLayers := by
  decide +kernel

theorem nodup_codeLayers : codeLayers.Nodup := by
  decide

theorem mem_codeLayers (hr : r ∈ codeRules) : r.category ∈ codeLayers := by
  rw [← map_category_codeRules]
  exact List.mem_map_of_mem hr

theorem exists_rule (hc : c ∈ codeLayers) : ∃ r ∈ codeRules, r.category = c := by
  rw [← map_category_codeRules] at hc
  exact List.mem_map.mp hc

/-- A match of the category's rule holds the byte. -/
def Covered (c : Category) (text : Text) (b : Nat) : Prop :=
  ∃ r ∈ codeRules, r.category = c ∧ ∃ m ∈ r.findAll text, b ∈ m

theorem Covered.mem_codeLayers (h : Covered c text b) : c ∈ codeLayers := by
  obtain ⟨r, hr, rfl, -⟩ := h
  exact Faust.mem_codeLayers hr

/-- No other rule has the same category. -/
theorem covered_iff_of_mem (hr : r ∈ codeRules) :
    Covered r.category text b ↔ ∃ m ∈ r.findAll text, b ∈ m := by
  constructor
  · rintro ⟨r', hr', hcategory, h⟩
    have hnodup : (codeRules.map (·.category)).Nodup := map_category_codeRules ▸ nodup_codeLayers
    rwa [List.inj_on_of_nodup_map hnodup hr' hr hcategory] at h
  · exact fun h => ⟨r, hr, rfl, h⟩

theorem Covered.lt (h : Covered c text b) : b < text.byteLength := by
  obtain ⟨r, -, -, m, hm, hb⟩ := h
  exact Nat.lt_of_lt_of_le hb.2 (bounds_of_mem_findAll hm).2

/-! ## The topmost layer -/

/-- The categories that are painted over this one. -/
def layersAbove (c : Category) : List Category := (codeLayers.dropWhile (· != c)).tail

theorem codeLayers_eq : ∀ c ∈ codeLayers,
    codeLayers = codeLayers.takeWhile (· != c) ++ c :: layersAbove c := by
  decide

/-- No layer lies over one that lies over it. -/
theorem layersAbove_asymm : ∀ c ∈ codeLayers, ∀ d ∈ layersAbove c, d ≠ c ∧ c ∉ layersAbove d := by
  decide

theorem ne_plain_of_mem_codeLayers : ∀ c ∈ codeLayers, c ≠ .plain := by
  decide

/-- A byte that a match for code holds has the category of such a match. -/
theorem covered_codeCategory (h : codeCategory text b ≠ .plain) :
    Covered (codeCategory text b) text b := by
  unfold codeCategory categoryOf at h ⊢
  cases hl : lastAt? b (Highlighter.hits ⟨codeRules⟩ text) with
  | none =>
    rw [hl] at h
    exact absurd rfl h
  | some g =>
    obtain ⟨hg, hb⟩ := mem_of_lastAt? hl
    obtain ⟨hr, hm⟩ := Highlighter.mem_hits_iff.mp hg
    exact ⟨g.rule, hr, rfl, g.range, hm, hb⟩

/-- A layer that covers the byte is the topmost one or lies under it. -/
theorem codeCategory_of_covered (h : Covered c text b) :
    codeCategory text b = c ∨ codeCategory text b ∈ layersAbove c := by
  have hlayers := codeLayers_eq c h.mem_codeLayers
  obtain ⟨rs, rs', hrules, hunder, hover⟩ :=
    List.map_eq_append_iff.mp (map_category_codeRules.trans hlayers)
  obtain ⟨r, hr, rfl, m, hm, hb⟩ := h
  have hmem : r ∈ rs' := by
    rcases List.mem_append.mp (hrules ▸ hr) with hr | hr
    · have hbefore : r.category ∈ codeLayers.takeWhile (· != r.category) :=
        hunder ▸ List.mem_map_of_mem hr
      have hne := List.all_eq_true.mp List.all_takeWhile _ hbefore
      exact absurd hne (by simp)
    · exact hr
  unfold codeCategory categoryOf
  rw [hrules, Highlighter.hits_append, lastAt?_append]
  cases hl : lastAt? b (Highlighter.hits ⟨rs'⟩ text) with
  | none =>
    have hno := lastAt?_eq_none_iff.mp hl ⟨r, m⟩ (Highlighter.mem_hits_iff.mpr ⟨hmem, hm⟩)
    exact absurd hb hno
  | some g =>
    have hg := (Highlighter.mem_hits_iff.mp (mem_of_lastAt? hl).1).1
    rw [Option.some_or, ← List.mem_cons, ← hover]
    exact List.mem_map_of_mem hg

/-- **The topmost layer decides.** -/
theorem codeCategory_eq_iff (hc : c ∈ codeLayers) : codeCategory text b = c ↔
    Covered c text b ∧ ∀ d ∈ layersAbove c, ¬ Covered d text b := by
  constructor
  · rintro rfl
    refine ⟨covered_codeCategory (ne_plain_of_mem_codeLayers _ hc), fun d hd hcov => ?_⟩
    obtain ⟨hne, hasymm⟩ := layersAbove_asymm _ hc d hd
    rcases codeCategory_of_covered hcov with heq | habove
    · exact hne heq.symm
    · exact hasymm habove
  · rintro ⟨hcov, hno⟩
    refine (codeCategory_of_covered hcov).resolve_right fun habove => hno _ habove ?_
    have hlayer : codeCategory text b ∈ codeLayers := by
      rw [codeLayers_eq c hc]
      exact List.mem_append_right _ (List.mem_cons_of_mem _ habove)
    exact covered_codeCategory (ne_plain_of_mem_codeLayers _ hlayer)

/-- The same under all rules, outside of comments and strings. -/
theorem categoryAt_eq_iff_of_layers (hc : c ∈ codeLayers)
    (hcomment : highlighter.categoryAt text b ≠ some .comment)
    (hstring : highlighter.categoryAt text b ≠ some .string) :
    highlighter.categoryAt text b = some c ↔
      Covered c text b ∧ ∀ d ∈ layersAbove c, ¬ Covered d text b := by
  by_cases hb : b < text.byteLength
  · rw [categoryAt_eq_codeCategory hcomment hstring hb, Option.some_inj, codeCategory_eq_iff hc]
  · rw [Highlighter.categoryAt_eq_none _ (Nat.le_of_not_lt hb)]
    exact ⟨fun h => absurd h (by simp), fun h => absurd h.1.lt hb⟩

/-- A byte without a layer has no category of its own. -/
theorem codeCategory_eq_plain_iff : codeCategory text b = .plain ↔ ∀ c, ¬ Covered c text b := by
  constructor
  · intro h c hcov
    rcases codeCategory_of_covered hcov with heq | habove
    · exact ne_plain_of_mem_codeLayers c hcov.mem_codeLayers (heq.symm.trans h)
    · rw [h] at habove
      have hlayer : Category.plain ∈ codeLayers := by
        rw [codeLayers_eq c hcov.mem_codeLayers]
        exact List.mem_append_right _ (List.mem_cons_of_mem _ habove)
      exact ne_plain_of_mem_codeLayers _ hlayer rfl
  · intro h
    by_contra hne
    exact h _ (covered_codeCategory hne)

/-! ## The layers of a character -/

/-- The categories whose rules can match the character. -/
def layersOf (x : Char) : List Category :=
  (codeRules.filter fun r => !r.pattern.avoids x).map (·.category)

/-- **Which layers can cover a character.** -/
theorem Covered.mem_layersOf (h : Covered c text b) (hat : text.CharAt b a x z) :
    c ∈ layersOf x := by
  obtain ⟨r, hr, rfl, m, hm, hb⟩ := h
  have hreg := regular_of_mem (Or.inr hr)
  refine List.mem_map_of_mem (List.mem_filter.mpr ⟨hr, ?_⟩)
  rw [Bool.not_eq_true', ← Bool.not_eq_true]
  intro havoids
  obtain ⟨a', w, z', hparts, he⟩ := ((mem_findAll_iff hreg.moves).mp hm).1.exists_parts
  obtain ⟨u, v, rfl, -, -⟩ := hat.exists_split hparts hb
  exact (not_mem_of_avoids hreg.steady havoids hparts.length_le he).of_between (by simp)

/-- The characters of operators with their layers. -/
def operatorLayers : List (List Char × List Category) :=
  [(['(', ')', '\x7b', '\x7d', ';'], [.punctuation]),
   ([','], [.punctuation, .mathOperator]),
   (['='], [.punctuation, .mathOperator]),
   (['*', '/', '%', '^'], [.mathOperator]),
   (['!'], [.mathOperator, .negation]),
   (['_'], [.wildcard]),
   (['+', '-'], [.mathOperator, .float]),
   (['.'], [.punctuation, .float]),
   (['<', '>'], [.mathOperator, .compositionOperator]),
   ([':', '~'], [.compositionOperator])]

theorem layersOf_operators : ∀ e ∈ operatorLayers, ∀ x ∈ e.1, layersOf x = e.2 := by
  have hall : ∀ e ∈ operatorLayers, e.1.map layersOf = e.1.map fun _ => e.2 := by
    decide +kernel
  intro e he x hx
  exact List.map_inj_left.mp (hall e he) x hx

/-! ## The layers of operators -/

/-- The symbols that have the category. -/
def symbolsOf : Category → List String
  | .punctuation => punctuation
  | .mathOperator => mathOperators
  | .negation => ["!"]
  | .wildcard => ["_"]
  | .compositionOperator => compositionOperators
  | _ => []

/-- The texts of the symbols. -/
def symbolTexts (c : Category) : List Text := (symbolsOf c).map String.toList

theorem spellings_of_symbols : ∀ r ∈ codeRules, symbolsOf r.category ≠ [] →
    r.pattern.spellings = some (symbolTexts r.category) := by
  decide +kernel

/-- **A layer of operators** covers what the matches of a choice between its symbols hold. -/
theorem exists_pattern_of_symbols (hc : c ∈ codeLayers) (hne : symbolsOf c ≠ []) :
    ∃ p : Pattern, p.nullable = false ∧ p.spellings = some (symbolTexts c) ∧
      ∀ {text : Text} {b : Nat}, Covered c text b ↔ ∃ m ∈ p.findAll text, b ∈ m := by
  obtain ⟨r, hr, rfl⟩ := exists_rule hc
  exact ⟨r.pattern, (regular_of_mem (Or.inr hr)).moves, spellings_of_symbols r hr hne,
    covered_iff_of_mem hr⟩

/-- A character that a layer of operators covers is one of its symbols or stands in one. -/
theorem Covered.exists_symbol (h : Covered c text b) (hne : symbolsOf c ≠ [])
    (hat : text.CharAt b a x z) : ∃ v ∈ symbolsOf c, x ∈ v.toList := by
  obtain ⟨p, hn, hp, hiff⟩ := exists_pattern_of_symbols h.mem_codeLayers hne
  obtain ⟨m, hm, hb⟩ := hiff.mp h
  obtain ⟨a', u, v, z', -, -, hfirst, -⟩ := exists_spelling_of_mem hn hp hm hb hat
  obtain ⟨s, hs, htext⟩ := List.mem_map.mp (mem_of_firstOf? hfirst)
  exact ⟨s, hs, by rw [htext]; simp⟩

end FaustLens.Faust
