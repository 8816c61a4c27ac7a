import FaustLens.Proofs.Faust.Numeric

/-!
# Operators in code

Most operators (`punctuation`, `math`, `negation`, `wildcard` and `composition` in `faust_rules`,
`syntax::faust`) have one category wherever they stand. A few rules share characters, and then the
later rule decides where it matches, which depends on what stands around: `<` and `>` belong to the
operators `<:` and `:>` next to a colon that is not used up, the characters `+`, `-` and `.` may be
in a float, and equals signs are arithmetic in pairs `==`, where the first may go with a `!` before
it.

Where a match of two characters starts is found from the left, place by place: no match goes across
a place at which the two characters on both sides are no such pair (`freeAt_of_pairs`), and behind a
match the place is free again. So a run of equals signs is paired from its first free place on.

Results:
* `covered_composition_less_iff`, `covered_composition_greater_iff`: the angles of `<:` and `:>`.
* `freeAt_pairs`, `covered_math_equals_iff`: how the equals signs of a run are paired.
* `operator_category`: operators outside of comments and strings.
-/

namespace FaustLens.Faust

open Pattern

variable {text : Text} {b : Nat} {a u v w z : Text} {x y : Char} {c d : Category}

/-! ## Which layer decides -/

/-- Only the layers of a character can lie over it. -/
theorem codeCategory_of_layersOf (hat : text.CharAt b a x z) (hc : Covered c text b)
    (hno : ∀ d ∈ layersOf x, d ∈ layersAbove c → ¬ Covered d text b) : codeCategory text b = c :=
  (codeCategory_eq_iff hc.mem_codeLayers).mpr
    ⟨hc, fun d hd hcov => hno d (hcov.mem_layersOf hat) hd hcov⟩

/-- The pattern of a layer of operators: it chooses between symbols of one or two characters. -/
theorem exists_pattern_of_pairs (hc : c ∈ codeLayers) (hne : symbolsOf c ≠ []) :
    ∃ p : Pattern, p.nullable = false ∧ p.spellings = some (symbolTexts c) ∧
      (∀ w ∈ symbolTexts c, w.length ≤ 2) ∧
      ∀ {text : Text} {b : Nat}, Covered c text b ↔ ∃ m ∈ p.findAll text, b ∈ m := by
  have hshort : ∀ c ∈ codeLayers, ∀ w ∈ symbolTexts c, w.length ≤ 2 := by
    decide
  obtain ⟨p, hn, hp, hiff⟩ := exists_pattern_of_symbols hc hne
  exact ⟨p, hn, hp, hshort c hc, hiff⟩

theorem eq_byteLength_of_charAt (hat : text.CharAt b a x z) (hx : x.utf8Size = 1) :
    b = a.byteLength := by
  have hle := hat.le
  have hlt := hat.lt
  simp only [Text.byteLength_append, Text.byteLength_cons, Text.byteLength_nil] at hlt
  omega

/-- A symbol of one character is covered by its layer wherever it stands. -/
theorem covered_of_symbol (hw : [x] ∈ symbolTexts c) (hc : c ∈ codeLayers) (hx : x.utf8Size = 1)
    (hat : text.CharAt b a x z) : Covered c text b := by
  have hne : symbolsOf c ≠ [] := by
    intro hnil
    simp [symbolTexts, hnil] at hw
  obtain ⟨p, hn, hp, hiff⟩ := exists_pattern_of_symbols hc hne
  rw [hiff, eq_byteLength_of_charAt hat hx]
  exact exists_mem_findAll_of_spelling (z := z) hn hp hw (by rw [hat.text_eq]; simp)

/-! ## Angles -/

theorem symbolTexts_composition :
    symbolTexts .compositionOperator = [['<', ':'], [':', '>'], ['~'], [':']] := by
  decide

/-- No symbol for a composition goes across the place before `<`. -/
theorem freeAt_less {p : Pattern} (hn : p.nullable = false)
    (hp : p.spellings = some (symbolTexts .compositionOperator)) (htext : text = a ++ '<' :: z) :
    p.FreeAt text a.byteLength := by
  refine freeAt_of_pairs hn hp (by decide) htext ?_
  intro c _ d hd hfirst
  have hmem := mem_of_firstOf? hfirst
  rw [← Option.some.inj hd, symbolTexts_composition] at hmem
  simp at hmem

/-- **The angle of `<:`** is the one before a colon. -/
theorem covered_composition_less_iff (hat : text.CharAt b a '<' z) :
    Covered .compositionOperator text b ↔ z.head? = some ':' := by
  obtain ⟨p, hn, hp, hshort, hiff⟩ :=
    exists_pattern_of_pairs (c := .compositionOperator) (by decide) (by decide)
  rw [hiff, exists_mem_findAll_iff_of_pairs hn hp hshort hat]
  constructor
  · rintro (⟨hfirst, -⟩ | ⟨y, z', rfl, hfirst, -⟩ | ⟨a', y, -, hfirst, -⟩)
    all_goals
      have hmem := mem_of_firstOf? hfirst
      rw [symbolTexts_composition] at hmem
      simp at hmem
    rw [hmem]
    rfl
  · intro hz
    obtain ⟨z', rfl⟩ := List.head?_eq_some_iff.mp hz
    exact Or.inr (Or.inl ⟨':', z', rfl, rfl, freeAt_less hn hp hat.text_eq⟩)

/-- **The angle of `:>`** is the one behind a colon that does not belong to `<:`. -/
theorem covered_composition_greater_iff (hat : text.CharAt b a '>' z) :
    Covered .compositionOperator text b ↔
      a.getLast? = some ':' ∧ a.dropLast.getLast? ≠ some '<' := by
  obtain ⟨p, hn, hp, hshort, hiff⟩ :=
    exists_pattern_of_pairs (c := .compositionOperator) (by decide) (by decide)
  rw [hiff, exists_mem_findAll_iff_of_pairs hn hp hshort hat]
  constructor
  · rintro (⟨hfirst, -⟩ | ⟨y, z', rfl, hfirst, -⟩ | ⟨a', y, rfl, hfirst, hfree⟩)
    all_goals
      have hmem := mem_of_firstOf? hfirst
      rw [symbolTexts_composition] at hmem
      simp at hmem
    subst hmem
    rw [List.getLast?_concat, List.dropLast_concat]
    refine ⟨rfl, fun hless => ?_⟩
    obtain ⟨u, rfl⟩ := List.getLast?_eq_some_iff.mp hless
    have htext : text = u ++ '<' :: ':' :: '>' :: z := by rw [hat.text_eq]; simp
    exact not_freeAt_inside hn hp (freeAt_less hn hp htext) htext rfl hfree
  · rintro ⟨hcolon, hless⟩
    obtain ⟨u, rfl⟩ := List.getLast?_eq_some_iff.mp hcolon
    rw [List.dropLast_concat] at hless
    refine Or.inr (Or.inr ⟨u, ':', rfl, rfl, ?_⟩)
    have htext : text = u ++ ':' :: '>' :: z := by rw [hat.text_eq]; simp
    refine freeAt_of_pairs hn hp hshort htext ?_
    intro c hc d hd hfirst
    have hmem := mem_of_firstOf? hfirst
    rw [← Option.some.inj hd, symbolTexts_composition] at hmem
    simp at hmem
    exact hless (hmem ▸ hc)

/-! ## Equals signs -/

theorem symbolTexts_math : symbolTexts .mathOperator =
    [['+'], ['-'], ['*'], ['/'], ['%'], ['^'], ['>'], ['<'], ['>', '='], ['<', '='], ['=', '='],
     ['!', '='], [',']] := by
  decide

/-- How many equals signs behind the text belong to its last character: one to a `!`. -/
def taken (u : Text) : Nat := if u.getLast? = some '!' then 1 else 0

/-- Among `n` characters that are paired from the left, the one with index `k` is in a pair. -/
def Paired (k n : Nat) : Prop := ∃ q, (k = 2 * q ∨ k = 2 * q + 1) ∧ 2 * q + 1 < n

theorem paired_iff {k n : Nat} : Paired k n ↔ 2 * (k / 2) + 1 < n := by
  constructor
  · rintro ⟨q, hk, hlt⟩
    omega
  · exact fun h => ⟨k / 2, by omega, h⟩

instance (k n : Nat) : Decidable (Paired k n) := decidable_of_iff _ paired_iff.symm

/-- A preferred symbol of two characters that ends with an equals sign is `==` or `!=`, as `<` and
`>` are preferred to `<=` and `>=`. -/
theorem eq_or_eq_of_firstOf?_math (h : firstOf? (symbolTexts .mathOperator) (y :: '=' :: z) =
    some [y, '=']) : y = '=' ∨ y = '!' := by
  have hmem := mem_of_firstOf? h
  rw [symbolTexts_math] at hmem
  have hy : y = '>' ∨ y = '<' ∨ y = '=' ∨ y = '!' := by simpa using hmem
  rcases hy with rfl | rfl | rfl | rfl
  · have hless : firstOf? (symbolTexts .mathOperator) ('>' :: '=' :: z) = some ['>'] := rfl
    rw [hless] at h
    exact absurd h (by simp)
  · have hless : firstOf? (symbolTexts .mathOperator) ('<' :: '=' :: z) = some ['<'] := rfl
    rw [hless] at h
    exact absurd h (by simp)
  · exact Or.inl rfl
  · exact Or.inr rfl

/-- An equals sign is taken if it is the first one behind a `!`. -/
theorem lt_taken_iff {i : Nat} : i < taken u ↔ u.getLast? = some '!' ∧ i = 0 := by
  unfold taken
  by_cases hlast : u.getLast? = some '!'
  · rw [if_pos hlast, Nat.lt_one_iff]
    exact (and_iff_right hlast).symm
  · rw [if_neg hlast]
    exact iff_of_false (Nat.not_lt_zero i) fun h => hlast h.1

theorem equals_eq {n i : Nat} (htext : text = u ++ (List.replicate n '=' ++ v)) (hle : i + 2 ≤ n) :
    text = (u ++ List.replicate i '=') ++ '=' :: '=' :: (List.replicate (n - i - 2) '=' ++ v) := by
  obtain ⟨j, rfl⟩ := Nat.exists_eq_add_of_le hle
  have hj : i + 2 + j - i - 2 = j := by omega
  rw [htext, hj, Nat.add_assoc, Nat.add_comm 2, List.replicate_add, List.replicate_succ,
    List.replicate_succ]
  simp

theorem replicate_concat {i : Nat} :
    u ++ List.replicate (i + 1) '=' = (u ++ List.replicate i '=') ++ ['='] := by
  rw [List.replicate_succ', List.append_assoc]

section Run

variable {p : Pattern} (hn : p.nullable = false)
  (hp : p.spellings = some (symbolTexts .mathOperator)) {n i : Nat}

include hn hp

/-- No symbol goes across the place before `!`. -/
theorem freeAt_negation (htext : text = a ++ '!' :: z) : p.FreeAt text a.byteLength := by
  refine freeAt_of_pairs hn hp (by decide) htext ?_
  intro c _ d hd hfirst
  have hmem := mem_of_firstOf? hfirst
  rw [← Option.some.inj hd, symbolTexts_math] at hmem
  simp at hmem

/-- The place behind the equals signs that are taken is free. -/
theorem freeAt_taken (htext : text = u ++ (List.replicate n '=' ++ v)) (hu : u.getLast? ≠ some '=')
    (hle : taken u < n) : p.FreeAt text (u ++ List.replicate (taken u) '=').byteLength := by
  unfold taken at hle ⊢
  split
  · rename_i hlast
    rw [if_pos hlast] at hle
    obtain ⟨u, rfl⟩ := List.getLast?_eq_some_iff.mp hlast
    obtain ⟨n, rfl⟩ := Nat.exists_eq_succ_of_ne_zero (show n ≠ 0 by omega)
    have htext' : text = u ++ (['!', '='] ++ (List.replicate n '=' ++ v)) := by
      rw [htext, List.replicate_succ]
      simp
    have hbefore : p.FreeAt text (Text.byteLength u) :=
      freeAt_negation hn hp (z := '=' :: (List.replicate n '=' ++ v)) htext'
    have hfree := freeAt_behind hn hp hbefore htext' rfl
    rwa [List.append_assoc]
  · rename_i hlast
    rw [if_neg hlast] at hle
    obtain ⟨n, rfl⟩ := Nat.exists_eq_succ_of_ne_zero (show n ≠ 0 by omega)
    rw [List.replicate_zero, List.append_nil]
    refine freeAt_of_pairs hn hp (by decide) htext ?_
    intro c hc d hd hfirst
    obtain rfl : '=' = d := Option.some.inj hd
    rcases eq_or_eq_of_firstOf?_math hfirst with rfl | rfl
    · exact hu hc
    · exact hlast hc

/-- **Equals signs are paired from the left**: the places behind the pairs are free. The induction
is on the number of pairs. -/
theorem freeAt_pairs (htext : text = u ++ (List.replicate n '=' ++ v))
    (hu : u.getLast? ≠ some '=') : ∀ q, taken u + 2 * q < n →
      p.FreeAt text (u ++ List.replicate (taken u + 2 * q) '=').byteLength
  | 0, hlt => freeAt_taken hn hp htext hu hlt
  | q + 1, hlt => by
    have hfree := freeAt_pairs htext hu q (by omega)
    have hnext := freeAt_behind (w := ['=', '=']) hn hp hfree
      (equals_eq htext (by omega)) rfl
    have hmul : taken u + 2 * (q + 1) = taken u + 2 * q + 1 + 1 := by omega
    rw [hmul, replicate_concat, replicate_concat, List.append_assoc]
    exact hnext

/-- The free places before an equals sign are those behind the taken ones and behind the pairs. -/
theorem freeAt_equals_iff (htext : text = u ++ (List.replicate n '=' ++ v))
    (hu : u.getLast? ≠ some '=') (hlt : i < n) :
    p.FreeAt text (u ++ List.replicate i '=').byteLength ↔
      taken u ≤ i ∧ (i - taken u) % 2 = 0 := by
  constructor
  · intro hfree
    by_contra hno
    by_cases hle : taken u ≤ i
    · -- the place is inside a pair
      obtain ⟨q, rfl⟩ : ∃ q, i = taken u + 2 * q + 1 := ⟨(i - taken u) / 2, by omega⟩
      rw [replicate_concat] at hfree
      exact not_freeAt_inside hn hp (freeAt_pairs hn hp htext hu q (by omega))
        (equals_eq htext (by omega)) rfl hfree
    · -- the place is before the first equals sign, which belongs to a `!`
      obtain ⟨hlast, rfl⟩ := lt_taken_iff.mp (Nat.lt_of_not_le hle)
      obtain ⟨u, rfl⟩ := List.getLast?_eq_some_iff.mp hlast
      obtain ⟨n, rfl⟩ := Nat.exists_eq_succ_of_ne_zero (show n ≠ 0 by omega)
      have htext' : text = u ++ '!' :: '=' :: (List.replicate n '=' ++ v) := by
        rw [htext, List.replicate_succ]
        simp
      rw [List.replicate_zero, List.append_nil] at hfree
      exact not_freeAt_inside hn hp (freeAt_negation hn hp htext') htext' rfl hfree
  · rintro ⟨hle, heven⟩
    obtain ⟨q, rfl⟩ : ∃ q, i = taken u + 2 * q := ⟨(i - taken u) / 2, by omega⟩
    exact freeAt_pairs hn hp htext hu q hlt

/-- **The first of two** is an equals sign at a free place with another one behind it. -/
theorem exists_first_iff {j : Nat} (htext : text = u ++ (List.replicate (i + 1 + j) '=' ++ v))
    (hu : u.getLast? ≠ some '=') (hv : v.head? ≠ some '=') :
    (∃ y z, List.replicate j '=' ++ v = y :: z ∧
      firstOf? (symbolTexts .mathOperator) ('=' :: (List.replicate j '=' ++ v)) = some ['=', y] ∧
      p.FreeAt text (u ++ List.replicate i '=').byteLength) ↔
      j ≠ 0 ∧ taken u ≤ i ∧ (i - taken u) % 2 = 0 := by
  rw [← freeAt_equals_iff hn hp htext hu (by omega)]
  constructor
  · rintro ⟨y, z, hz, hfirst, hfree⟩
    refine ⟨?_, hfree⟩
    rintro rfl
    have hmem := mem_of_firstOf? hfirst
    rw [symbolTexts_math] at hmem
    obtain rfl : y = '=' := by simpa using hmem
    rw [List.replicate_zero, List.nil_append] at hz
    exact hv (by rw [hz]; rfl)
  · rintro ⟨hj, hfree⟩
    obtain ⟨j, rfl⟩ := Nat.exists_eq_succ_of_ne_zero hj
    have hz : List.replicate (j + 1) '=' ++ v = '=' :: (List.replicate j '=' ++ v) := by
      rw [List.replicate_succ, List.cons_append]
    refine ⟨'=', List.replicate j '=' ++ v, hz, ?_, hfree⟩
    rw [hz]
    rfl

/-- **The second of two** is an equals sign that a `!` takes, or one behind another at a free place.
-/
theorem exists_second_iff {j : Nat} (htext : text = u ++ (List.replicate (i + 1 + j) '=' ++ v))
    (hu : u.getLast? ≠ some '=') :
    (∃ (a : Text) (y : Char), u ++ List.replicate i '=' = a ++ [y] ∧
      firstOf? (symbolTexts .mathOperator) (y :: '=' :: (List.replicate j '=' ++ v)) =
        some [y, '='] ∧ p.FreeAt text a.byteLength) ↔
      i < taken u ∨ i ≠ 0 ∧ taken u ≤ i - 1 ∧ (i - 1 - taken u) % 2 = 0 := by
  cases i with
  | zero =>
    rw [List.replicate_zero, List.append_nil, lt_taken_iff]
    constructor
    · rintro ⟨a, y, rfl, hfirst, -⟩
      rw [List.getLast?_concat] at hu ⊢
      rcases eq_or_eq_of_firstOf?_math hfirst with rfl | rfl
      · exact absurd rfl hu
      · exact Or.inl ⟨rfl, rfl⟩
    · intro h
      obtain ⟨hlast, -⟩ := h.resolve_right fun h => h.1 rfl
      obtain ⟨u, rfl⟩ := List.getLast?_eq_some_iff.mp hlast
      have htext' : text = u ++ '!' :: '=' :: (List.replicate j '=' ++ v) := by
        rw [htext, Nat.zero_add, Nat.add_comm, List.replicate_succ]
        simp
      exact ⟨u, '!', rfl, rfl, freeAt_negation hn hp htext'⟩
  | succ i =>
    have hfree := freeAt_equals_iff hn hp htext hu (i := i) (by omega)
    have htaken : ¬ i + 1 < taken u := fun h => absurd (lt_taken_iff.mp h).2 (Nat.succ_ne_zero i)
    rw [or_iff_right htaken, Nat.add_sub_cancel, and_iff_right (Nat.succ_ne_zero i), ← hfree,
      replicate_concat]
    constructor
    · rintro ⟨a, y, ha, -, hplace⟩
      obtain ⟨rfl, -⟩ := List.append_inj' ha rfl
      exact hplace
    · exact fun hplace => ⟨_, '=', rfl, rfl, hplace⟩

end Run

/-- **Which equals signs are arithmetic**: those that are taken by a `!` before the run, and those
of the others that have a partner. -/
theorem covered_math_equals_iff {i j : Nat}
    (hat : text.CharAt b (u ++ List.replicate i '=') '=' (List.replicate j '=' ++ v))
    (hu : u.getLast? ≠ some '=') (hv : v.head? ≠ some '=') :
    Covered .mathOperator text b ↔
      i < taken u ∨ Paired (i - taken u) (i + 1 + j - taken u) := by
  obtain ⟨p, hn, hp, hshort, hiff⟩ :=
    exists_pattern_of_pairs (c := .mathOperator) (by decide) (by decide)
  have htext : text = u ++ (List.replicate (i + 1 + j) '=' ++ v) := by
    rw [hat.text_eq, List.replicate_add, List.replicate_succ']
    simp
  have halone : ¬ (firstOf? (symbolTexts .mathOperator) ('=' :: (List.replicate j '=' ++ v)) =
      some ['='] ∧ p.FreeAt text (u ++ List.replicate i '=').byteLength) := by
    rintro ⟨hfirst, -⟩
    have hmem := mem_of_firstOf? hfirst
    rw [symbolTexts_math] at hmem
    simp at hmem
  rw [hiff, exists_mem_findAll_iff_of_pairs hn hp hshort hat, or_iff_right halone,
    exists_first_iff hn hp htext hu hv, exists_second_iff hn hp htext hu, paired_iff]
  omega

/-! ## All operators -/

/-- The characters of operators. -/
def operators : List Char := operatorLayers.flatMap (·.1)

/-- The characters that are covered by the first of their layers wherever they stand. -/
theorem covered_of_operator : ∀ {e : List Char × List Category}, e ∈ operatorLayers → x ∈ e.1 →
    x ≠ '!' → text.CharAt b a x z → ∀ c ∈ e.2.head?, Covered c text b := by
  have hall : ∀ e ∈ operatorLayers, ∀ c ∈ e.2.head?, c ∈ codeLayers ∧
      e.1.all (fun x => x == '!' || (symbolTexts c).contains [x] && x.utf8Size == 1) = true := by
    decide
  intro e he hx hne hat c hc
  obtain ⟨hlayer, hsymbols⟩ := hall e he c hc
  have hsymbol : [x] ∈ symbolTexts c ∧ x.utf8Size = 1 := by
    simpa [hne] using List.all_eq_true.mp hsymbols x hx
  exact covered_of_symbol hsymbol.1 hlayer hsymbol.2 hat

/-- An operator with one layer has its category wherever it stands. -/
theorem codeCategory_of_one {l : List Char} (he : (l, [c]) ∈ operatorLayers) (hx : x ∈ l)
    (hne : x ≠ '!') (hat : text.CharAt b a x z) : codeCategory text b = c := by
  have hc : Covered c text b := covered_of_operator he hx hne hat c rfl
  refine codeCategory_of_layersOf hat hc fun d hd habove => ?_
  rw [layersOf_operators _ he x hx] at hd
  obtain rfl := List.mem_singleton.mp hd
  exact absurd rfl (layersAbove_asymm d hc.mem_codeLayers d habove).1

/-- Of two layers, the upper one decides where it covers the operator. -/
theorem codeCategory_of_upper {l : List Char} (he : (l, [c, d]) ∈ operatorLayers)
    (hcd : d ∈ layersAbove c) (hx : x ∈ l) (hat : text.CharAt b a x z) (hd : Covered d text b) :
    codeCategory text b = d := by
  refine codeCategory_of_layersOf hat hd fun e he' habove => ?_
  have hasymm := layersAbove_asymm d hd.mem_codeLayers e habove
  rw [layersOf_operators _ he x hx] at he'
  rcases List.mem_cons.mp he' with rfl | he'
  · exact absurd hcd hasymm.2
  · exact absurd (List.mem_singleton.mp he') hasymm.1

/-- Of two layers, the lower one decides where the upper one does not cover the operator. -/
theorem codeCategory_of_two {l : List Char} (he : (l, [c, d]) ∈ operatorLayers)
    (hcd : d ∈ layersAbove c) (hx : x ∈ l) (hne : x ≠ '!') (hat : text.CharAt b a x z) {P : Prop}
    [Decidable P] (hd : Covered d text b ↔ P) : codeCategory text b = if P then d else c := by
  split
  · rename_i hP
    exact codeCategory_of_upper he hcd hx hat (hd.mpr hP)
  · rename_i hP
    have hc : Covered c text b := covered_of_operator he hx hne hat c rfl
    refine codeCategory_of_layersOf hat hc fun e he' habove => ?_
    rw [layersOf_operators _ he x hx] at he'
    rcases List.mem_cons.mp he' with rfl | he'
    · exact absurd rfl (layersAbove_asymm e hc.mem_codeLayers e habove).1
    · rw [List.mem_singleton.mp he']
      exact mt hd.mp hP

/-- The categories of words and numbers. -/
def wordLayers : List Category := [.processKeyword, .keyword, .type, .float, .integer]

/-- A character that is no operator is plain outside of words and numbers. -/
theorem codeCategory_of_not_mem_operators (hat : text.CharAt b a x z) (hx : x ∉ operators)
    (hno : ∀ c ∈ wordLayers, ¬ Covered c text b) : codeCategory text b = .plain := by
  have hsymbols : ∀ c ∈ codeLayers, ∀ v ∈ symbolsOf c,
      v.toList.all (operators.contains ·) = true := by
    decide
  have hwords : ∀ c ∈ codeLayers, symbolsOf c = [] → c ∈ wordLayers := by
    decide
  refine codeCategory_eq_plain_iff.mpr fun c hc => ?_
  by_cases hne : symbolsOf c = []
  · exact hno c (hwords c hc.mem_codeLayers hne) hc
  · obtain ⟨v, hv, hxv⟩ := hc.exists_symbol hne hat
    have hall := List.all_eq_true.mp (hsymbols c hc.mem_codeLayers v hv) x hxv
    exact hx (List.contains_iff_mem.mp hall)

/-- **Operators**: outside of comments and strings, the category of a character that is no letter or
digit of a word or number, from what stands before and behind it. Equals signs are told by their
run: the first one belongs to a `!` before the run, and the remaining ones are paired from the left.
-/
theorem operator_category {text : Text} {b : Nat} {a z : Text} {x : Char}
    (hat : text.CharAt b a x z) (hcomment : highlighter.categoryAt text b ≠ some .comment)
    (hstring : highlighter.categoryAt text b ≠ some .string) :
    (x ∈ ['(', ')', '\x7b', '\x7d', ';'] → highlighter.categoryAt text b = some .punctuation) ∧
    (x ∈ [',', '*', '/', '%', '^'] → highlighter.categoryAt text b = some .mathOperator) ∧
    (x = '!' → highlighter.categoryAt text b = some .negation) ∧
    (x = '_' → highlighter.categoryAt text b = some .wildcard) ∧
    (x ∈ [':', '~'] → highlighter.categoryAt text b = some .compositionOperator) ∧
    (x = '<' → highlighter.categoryAt text b =
      some (if z.head? = some ':' then .compositionOperator else .mathOperator)) ∧
    (x = '>' → highlighter.categoryAt text b =
      some (if a.getLast? = some ':' ∧ a.dropLast.getLast? ≠ some '<' then .compositionOperator
        else .mathOperator)) ∧
    (x ∈ ['+', '-'] → highlighter.categoryAt text b =
      some (if ∃ m ∈ matchesOf floatLiteral text, b ∈ m then .float else .mathOperator)) ∧
    (x = '.' → highlighter.categoryAt text b =
      some (if ∃ m ∈ matchesOf floatLiteral text, b ∈ m then .float else .punctuation)) ∧
    (x = '=' → ∀ u i j v, a = u ++ List.replicate i '=' → u.getLast? ≠ some '=' →
      z = List.replicate j '=' ++ v → v.head? ≠ some '=' → highlighter.categoryAt text b =
        some (if u.getLast? = some '!' then
            if i = 0 ∨ Paired (i - 1) (i + j) then .mathOperator else .punctuation
          else if Paired i (i + 1 + j) then .mathOperator else .punctuation)) ∧
    (x ∉ operators → (∀ r ∈ rules, r.category ∈ wordLayers → ∀ m ∈ r.findAll text, b ∉ m) →
      highlighter.categoryAt text b = some .plain) := by
  rw [categoryAt_eq_codeCategory hcomment hstring hat.lt_byteLength]
  simp only [Option.some_inj]
  refine ⟨?brackets, ?math, ?negation, ?wildcard, ?composition, ?less, ?greater, ?sign, ?point,
    ?equals, ?others⟩
  case brackets =>
    intro hx
    exact codeCategory_of_one (by decide) hx (by rintro rfl; simp at hx) hat
  case math =>
    intro hx
    rcases List.mem_cons.mp hx with rfl | hx
    · exact codeCategory_of_upper (c := .punctuation) (l := [',']) (by decide) (by decide) (by simp)
        hat (covered_of_symbol (by decide) (by decide) rfl hat)
    · exact codeCategory_of_one (by decide) hx (by rintro rfl; simp at hx) hat
  case negation =>
    rintro rfl
    exact codeCategory_of_upper (c := .mathOperator) (l := ['!']) (by decide) (by decide) (by simp)
      hat (covered_of_symbol (by decide) (by decide) rfl hat)
  case wildcard =>
    rintro rfl
    exact codeCategory_of_one (l := ['_']) (by decide) (by simp) (by decide) hat
  case composition =>
    intro hx
    exact codeCategory_of_one (by decide) hx (by rintro rfl; simp at hx) hat
  case less =>
    rintro rfl
    exact codeCategory_of_two (l := ['<', '>']) (by decide) (by decide) (by simp) (by decide) hat
      (covered_composition_less_iff hat)
  case greater =>
    rintro rfl
    exact codeCategory_of_two (l := ['<', '>']) (by decide) (by decide) (by simp) (by decide) hat
      (covered_composition_greater_iff hat)
  case sign =>
    intro hx
    exact codeCategory_of_two (l := ['+', '-']) (by decide) (by decide) hx
      (by rintro rfl; simp at hx) hat covered_float_iff
  case point =>
    rintro rfl
    exact codeCategory_of_two (l := ['.']) (by decide) (by decide) (by simp) (by decide) hat
      covered_float_iff
  case equals =>
    rintro rfl u i j v rfl hu rfl hv
    rw [codeCategory_of_two (l := ['=']) (c := .punctuation) (by decide) (by decide) (by simp)
      (by decide) hat (covered_math_equals_iff hat hu hv)]
    unfold taken
    by_cases hlast : u.getLast? = some '!'
    · have hcount : i + 1 + j - 1 = i + j := by omega
      simp only [if_pos hlast, Nat.lt_one_iff, hcount]
    · simp only [if_neg hlast, Nat.not_lt_zero, false_or, Nat.sub_zero]
  case others =>
    intro hx hno
    refine codeCategory_of_not_mem_operators hat hx fun c hc hcov => ?_
    obtain ⟨r, hr, rfl, m, hm, hb⟩ := hcov
    have hmem : r ∈ rules := by
      rw [rules_eq]
      simp [hr]
    exact hno r hmem hc m hm hb

/-- The theorem for the last of four equals signs behind a `!`: the first one belongs to the `!`,
the next two are a pair. -/
theorem operator_category_unpaired :
    let text : Text := "a!====b".toList
    (text.CharAt 5 "a!===".toList '=' "b".toList ∧ highlighter.categoryAt text 5 ≠ some .comment ∧
      highlighter.categoryAt text 5 ≠ some .string) ∧
    highlighter.categoryAt text 5 = some .punctuation := by
  intro text
  have hat : text.CharAt 5 "a!===".toList '=' "b".toList := ⟨by decide, by decide, by decide⟩
  have hcomment : highlighter.categoryAt text 5 ≠ some .comment := fun h =>
    absurd (categoryAt_comments_iff.mpr h) (by decide +kernel)
  have hstring : highlighter.categoryAt text 5 ≠ some .string := fun h =>
    absurd (categoryAt_strings_iff.mpr h) (by decide +kernel)
  obtain ⟨-, -, -, -, -, -, -, -, -, hequals, -⟩ := operator_category hat hcomment hstring
  refine ⟨⟨hat, hcomment, hstring⟩, ?_⟩
  rw [hequals rfl "a!".toList 3 0 "b".toList (by decide) (by decide) (by decide) (by decide)]
  decide

end FaustLens.Faust
