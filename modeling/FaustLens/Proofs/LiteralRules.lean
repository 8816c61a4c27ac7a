import FaustLens.Proofs.Pattern.LiteralText
import FaustLens.Proofs.Pattern.Literals
import FaustLens.Proofs.Pattern.Scan

/-!
# Rules for literals

A rule that is made from a list of literals (`Rule::literals`, `syntax::rules`) finds what a plain
scan of the text finds: where some of them follow, the first one in list order is taken, and the
scan goes on behind it. If the literals must be bounded, one that does not end at a word boundary
gives way to the next one in the list. Between word boundaries words cannot give way to each other,
since at most one of them fits at a place. So a rule for words finds the maximal runs of word
characters that are in the list, whatever the order of the list.

Results:
* `ofLiterals?_eq`: the rule for a list of literals; nothing but its size can make it fail.
* `findAll_ofLiterals?`: the rule finds what the scan takes.
* `findAll_ofLiterals?_of_words`: the rule for words, in any order.
-/

namespace FaustLens

open Cursor (between)

/-! ## Literals that qualify at a place -/

/-- The text `w` follows at the place between `a` and `b`, with a word boundary at both of its ends
if `bounded`. -/
def Qualifies (bounded : Bool) (a b w : Text) : Prop :=
  w <+: b ∧ (bounded = true →
    (between a b).AtEdge ∧ (between (a ++ w) (b.drop w.length)).AtEdge)

instance (bounded : Bool) (a b w : Text) : Decidable (Qualifies bounded a b w) :=
  inferInstanceAs (Decidable (_ ∧ _))

/-- The first of the texts that qualifies at the place between `a` and `b`. -/
def firstQualified? (bounded : Bool) (ws : List Text) (a b : Text) : Option Text :=
  ws.find? fun w => decide (Qualifies bounded a b w)

variable {bounded : Bool} {ws : List Text} {size : Nat} {text a b w z : Text} {r : ByteRange}

theorem mem_of_firstQualified? (h : firstQualified? bounded ws a b = some w) :
    w ∈ ws ∧ Qualifies bounded a b w :=
  ⟨List.mem_of_find?_eq_some h, by simpa using List.find?_some h⟩

theorem takes_firstQualified? (hfilled : [] ∉ ws) : Takes (firstQualified? bounded ws) := by
  intro a b w h
  obtain ⟨hw, hqualifies⟩ := mem_of_firstQualified? h
  exact ⟨fun hnil => hfilled (hnil ▸ hw), hqualifies.1⟩

namespace Pattern

theorem spellings_choice_literal (hne : ws ≠ []) :
    (choice (ws.map literal)).spellings = some ws :=
  spellings_choice hne fun w _ => parts_literal w

/-- **The preferred end of a choice between literals** is behind the first one that qualifies. -/
theorem preferred_ofLiterals (hne : ws ≠ []) (bounded : Bool) (size : Nat) (a b : Text) :
    preferred size (ofLiterals ws bounded) (between a b) =
      (firstQualified? bounded ws a b).map fun w => between (a ++ w) (b.drop w.length) := by
  have hws := spellings_choice_literal hne
  rw [firstQualified?, ← findSome?_ite, preferred_eq_findSome?]
  cases bounded with
  | false =>
    rw [ofLiterals, if_neg Bool.false_ne_true, findSome?_ends_of_spellings hws]
    simp [Cursor.after?_between, Qualifies]
  | true =>
    rw [ofLiterals, if_pos rfl, findSome?_ends_cat, findSome?_ends_cat, findSome?_ends_boundary,
      findSome?_ends_of_spellings hws]
    simp only [findSome?_ends_boundary, Cursor.after?_between]
    by_cases hedge : (between a b).AtEdge
    · rw [if_pos hedge]
      congr 1
      funext w
      by_cases hw : w <+: b <;> simp [Qualifies, hw, hedge]
    · rw [if_neg hedge]
      refine (List.findSome?_eq_none_iff.mpr fun w _ => ?_).symm
      rw [if_neg fun hw => hedge (hw.2 rfl).1]

/-- **Where a choice between literals matches**: at the first one that qualifies. -/
theorem matchesAt_ofLiterals_iff (hne : ws ≠ []) : MatchesAt (ofLiterals ws bounded) text r ↔
    ∃ a w z, text.Parts r a w z ∧ firstQualified? bounded ws a (w ++ z) = some w :=
  matchesAt_iff_of_preferred (firstQualified? bounded ws)
    (fun _ _ _ hw => (mem_of_firstQualified? hw).2.1) (preferred_ofLiterals hne bounded)

theorem nullable_ofLiterals (hne : ws ≠ []) (hfilled : [] ∉ ws) (bounded : Bool) :
    (ofLiterals ws bounded).nullable = false := by
  have hchoice : (choice (ws.map literal)).nullable = false := by
    rw [← Bool.not_eq_true, nullable_iff_of_spellings (spellings_choice_literal hne)]
    exact hfilled
  cases bounded with
  | false => exact hchoice
  | true =>
    rw [ofLiterals, if_pos rfl, nullable, nullable, hchoice, Bool.and_false, Bool.false_and]

/-- **The matches of a choice between literals** are what a scan takes that tries them in list
order. -/
theorem findAll_ofLiterals (hne : ws ≠ []) (hfilled : [] ∉ ws) (bounded : Bool) (text : Text) :
    (ofLiterals ws bounded).findAll text = scan (firstQualified? bounded ws) text :=
  findAll_eq_scan (nullable_ofLiterals hne hfilled bounded) (takes_firstQualified? hfilled)
    fun _ => matchesAt_ofLiterals_iff hne

theorem wholeWords_ofLiterals (hne : ws ≠ []) : (ofLiterals ws true).wholeWords = some ws := by
  rw [ofLiterals, if_pos rfl, wholeWords, if_pos ⟨rfl, rfl⟩, spellings_choice_literal hne]

theorem ne_nil_of_mem_iff {α : Type} {l l' : List α} (hne : l ≠ []) (h : ∀ x, x ∈ l' ↔ x ∈ l) :
    l' ≠ [] := by
  obtain ⟨x, hx⟩ := List.exists_mem_of_ne_nil l hne
  exact List.ne_nil_of_mem ((h x).mpr hx)

theorem not_mem_nil_of_worded (hws : Worded ws) : [] ∉ ws := fun hnil => (hws [] hnil).1 rfl

/-- **Where a choice between whole words matches**: at the runs of word characters in the list. -/
theorem matchesAt_ofLiterals_iff_of_worded (hne : ws ≠ []) (hws : Worded ws) :
    MatchesAt (ofLiterals ws true) text r ↔ ∃ a w z, WordRun text r a w z ∧ w ∈ ws :=
  matchesAt_iff_of_words (bounded_of_wholeWords (wholeWords_ofLiterals hne))
    (fun w hw => (hws w hw).1) fun w hw => (hws w hw).2

/-- The order of the words does not matter, nor how often one of them is in the list. -/
theorem findAll_ofLiterals_congr {vs : List Text} (hne : ws ≠ []) (hws : Worded ws)
    (hsame : ∀ w, w ∈ vs ↔ w ∈ ws) (text : Text) :
    (ofLiterals vs true).findAll text = (ofLiterals ws true).findAll text := by
  have hvs : Worded vs := fun w hw => hws w ((hsame w).mp hw)
  have hne' : vs ≠ [] := ne_nil_of_mem_iff hne hsame
  refine findAll_congr (nullable_ofLiterals hne' (not_mem_nil_of_worded hvs) true)
    (nullable_ofLiterals hne (not_mem_nil_of_worded hws) true) fun r => ?_
  simp only [matchesAt_ofLiterals_iff_of_worded hne' hvs,
    matchesAt_ofLiterals_iff_of_worded hne hws, hsame]

end Pattern

/-! ## Rules -/

namespace Rule

variable {name : String} {alternatives : List String} {category : Category} {r : Rule}

/-- **The rule for a list of literals.** Nothing but the size of its pattern can make it fail. -/
theorem ofLiterals?_eq (hne : alternatives ≠ []) (name : String) (category : Category)
    (bounded : Bool) : ofLiterals? name alternatives category bounded =
      let p := Pattern.ofLiterals (alternatives.map String.toList) bounded
      if p.weight ≤ Pattern.maxWeight then
        some ⟨name, literalSource alternatives bounded, p, category, false⟩
      else none := by
  have hws : alternatives.map String.toList ≠ [] := by simpa using hne
  rw [ofLiterals?, ofPattern?, Pattern.ofText?, Reader.toList_literalSource,
    Expr.read?_literalText hws, Option.bind_eq_bind, Option.bind_some,
    Expr.toPattern?_literalsExpr hws]
  simp only [Option.bind_eq_bind, Option.bind_some]
  split <;> rfl

theorem pattern_ofLiterals? (hne : alternatives ≠ [])
    (h : ofLiterals? name alternatives category bounded = some r) :
    r.pattern = Pattern.ofLiterals (alternatives.map String.toList) bounded := by
  rw [ofLiterals?_eq hne] at h
  simp only at h
  split at h
  · obtain rfl := Option.some.inj h
    rfl
  · exact absurd h (by simp)

/-- **A rule for literals finds what a scan takes** that tries them in list order. -/
theorem findAll_ofLiterals? (h : ofLiterals? name alternatives category bounded = some r)
    (hne : alternatives ≠ []) (hfilled : "" ∉ alternatives) (text : Text) :
    r.findAll text = scan (firstQualified? bounded (alternatives.map String.toList)) text := by
  have hws : alternatives.map String.toList ≠ [] := by simpa using hne
  have hnil : [] ∉ alternatives.map String.toList := by
    intro hmem
    obtain ⟨alt, halt, hnil⟩ := List.mem_map.mp hmem
    exact hfilled (String.toList_eq_nil_iff.mp hnil ▸ halt)
  rw [findAll, pattern_ofLiterals? hne h]
  exact Pattern.findAll_ofLiterals hws hnil bounded text

/-- An earlier literal that is cut short by a word boundary gives way to a later one. -/
theorem findAll_ofLiterals?_letrec : ∃ r,
    ofLiterals? "words" ["let", "letrec", "+", "a+"] .keyword true = some r ∧
      ["let", "letrec", "+", "a+"] ≠ [] ∧ "" ∉ ["let", "letrec", "+", "a+"] ∧
      r.findAll "letrec a+b".toList = [⟨0, 6⟩, ⟨7, 9⟩] := by
  obtain ⟨r, hr⟩ := Option.isSome_iff_exists.mp (show (ofLiterals? "words"
    ["let", "letrec", "+", "a+"] .keyword true).isSome = true by decide +kernel)
  refine ⟨r, hr, by decide, by decide, ?_⟩
  rw [findAll_ofLiterals? hr (by decide) (by decide)]
  decide +kernel

/-- **A rule for words** finds the maximal runs of word characters that are in its list, from left
to right. The order of the list does not matter, nor how often a word is in it. -/
theorem findAll_ofLiterals?_of_words (h : ofLiterals? name alternatives category true = some r)
    (hne : alternatives ≠ [])
    (hwords : ∀ alt ∈ alternatives, alt ≠ "" ∧ ∀ c ∈ alt.toList, Unicode.isWord c = true)
    (text : Text) :
    (∀ m, m ∈ r.findAll text ↔
      ∃ a w z, WordRun text m a w z ∧ String.ofList w ∈ alternatives) ∧
    (r.findAll text).Pairwise (fun m n => m.stop ≤ n.start) ∧
    ∀ (name' : String) (alternatives' : List String) (category' : Category) (r' : Rule),
      (∀ alt, alt ∈ alternatives' ↔ alt ∈ alternatives) →
      ofLiterals? name' alternatives' category' true = some r' →
      r'.findAll text = r.findAll text := by
  have hws : alternatives.map String.toList ≠ [] := by simpa using hne
  have hworded : Pattern.Worded (alternatives.map String.toList) := by
    intro w hw
    obtain ⟨alt, halt, rfl⟩ := List.mem_map.mp hw
    exact ⟨fun hnil => (hwords alt halt).1 (String.toList_eq_nil_iff.mp hnil), (hwords alt halt).2⟩
  have hpattern := pattern_ofLiterals? hne h
  refine ⟨fun m => ?_, Pattern.pairwise_findAll r.pattern text, ?_⟩
  · rw [findAll, hpattern, Pattern.mem_findAll_iff_of_wholeWords
      (Pattern.nullable_ofLiterals hws (Pattern.not_mem_nil_of_worded hworded) true)
      (Pattern.wholeWords_ofLiterals hws) hworded]
    simp only [mem_map_toList_iff]
  · intro name' alternatives' category' r' hsame h'
    rw [findAll, findAll, hpattern, pattern_ofLiterals? (Pattern.ne_nil_of_mem_iff hne hsame) h']
    refine Pattern.findAll_ofLiterals_congr hws hworded (fun w => ?_) text
    rw [mem_map_toList_iff, mem_map_toList_iff, hsame]

/-- A word is not hidden by a shorter one before it. -/
theorem findAll_ofLiterals?_of_words_letrec : ∃ r r',
    (ofLiterals? "words" ["let", "letrec"] .keyword true = some r ∧ ["let", "letrec"] ≠ [] ∧
      ∀ alt ∈ ["let", "letrec"], alt ≠ "" ∧ ∀ c ∈ alt.toList, Unicode.isWord c = true) ∧
    ((∀ alt, alt ∈ ["letrec", "let", "letrec"] ↔ alt ∈ ["let", "letrec"]) ∧
      ofLiterals? "words" ["letrec", "let", "letrec"] .keyword true = some r') ∧
    ⟨0, 6⟩ ∈ r.findAll "letrec le".toList ∧
    r'.findAll "letrec le".toList = r.findAll "letrec le".toList := by
  have hall : ["let", "letrec"].all (fun alt => alt != "" && alt.toList.all Unicode.isWord) = true := by
    decide +kernel
  have hwords : ∀ alt ∈ ["let", "letrec"], alt ≠ "" ∧
      ∀ c ∈ alt.toList, Unicode.isWord c = true := by
    simpa only [List.all_eq_true, Bool.and_eq_true, bne_iff_ne] using hall
  have hsame : ∀ alt, alt ∈ ["letrec", "let", "letrec"] ↔ alt ∈ ["let", "letrec"] := by
    intro alt
    simp only [List.mem_cons, List.not_mem_nil, or_false]
    rw [or_left_comm, or_self]
  obtain ⟨r, hr⟩ := Option.isSome_iff_exists.mp (show (ofLiterals? "words"
    ["let", "letrec"] .keyword true).isSome = true by decide +kernel)
  obtain ⟨r', hr'⟩ := Option.isSome_iff_exists.mp (show (ofLiterals? "words"
    ["letrec", "let", "letrec"] .keyword true).isSome = true by decide +kernel)
  obtain ⟨hmem, -, hany⟩ := findAll_ofLiterals?_of_words hr (by decide) hwords "letrec le".toList
  refine ⟨r, r', ⟨hr, by decide, hwords⟩, ⟨hsame, hr'⟩, (hmem ⟨0, 6⟩).mpr ?_,
    hany "words" ["letrec", "let", "letrec"] .keyword r' hsame hr'⟩
  exact ⟨[], "letrec".toList, " le".toList, by decide +kernel, by decide +kernel⟩

end Rule

end FaustLens
