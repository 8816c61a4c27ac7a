import FaustLens.Proofs.Faust.CommentContents
import FaustLens.Proofs.Faust.Number

/-!
# Words with a category

The entry point, the reserved words and the type names (`process`, `keyword` and `type` in
`faust_rules`, `syntax::faust`) are recognised as whole words, whatever stands around them. The
rules behind them paint over each other, but not over such a word: all of them match symbols and
digits only, except that a float may hold the letter of its exponent, and this letter stands
directly behind a digit and so does not begin a word.

Results:
* `mem_findAll_iff_of_wordRule`: what the rules for words match.
* `not_meets_of_ledByDigit`: no other rule for code matches any part of such a word.
* `codeCategory_eq_iff_of_words`: the bytes of the three categories under the rules for code.
* `word_category_iff`: outside of comments and strings, whole words decide about these categories.
-/

namespace FaustLens.Faust

open Hit Pattern

variable {text : Text} {b : Nat} {r : Rule} {m s : ByteRange} {a w z : Text} {c : Category}

/-! ## The rules for words -/

/-- The words that have the category. -/
def wordsOf : Category → List String
  | .processKeyword => ["process"]
  | .keyword => keywords
  | .type => types
  | _ => []

/-- The rule matches the words of its category. -/
def WordRule (r : Rule) : Prop :=
  r.pattern.wholeWords = some ((wordsOf r.category).map String.toList)

/-- The rule has a category without words, and is that for floats or matches no letter. -/
def SymbolRule (r : Rule) : Prop :=
  wordsOf r.category = [] ∧ (r.pattern = floatPattern ∨ ∀ x ∈ letters, r.pattern.avoids x = true)

instance (r : Rule) : Decidable (WordRule r) := inferInstanceAs (Decidable (_ = _))

instance (r : Rule) : Decidable (SymbolRule r) :=
  decidable_of_iff (wordsOf r.category = [] ∧
      (r.pattern = floatPattern ∨ letters.all (r.pattern.avoids ·) = true))
    (by rw [List.all_eq_true]; exact Iff.rfl)

/-- Every rule for code is one for words or one for symbols and numbers, and each category with words
has a rule. -/
theorem wordRule_or_symbolRule : (∀ r ∈ codeRules, WordRule r ∨ SymbolRule r) ∧
    ∀ c ∈ Category.all, wordsOf c ≠ [] → ∃ r ∈ codeRules, r.category = c := by
  decide +kernel

theorem words_of_letters : ∀ c ∈ Category.all, ∀ v ∈ wordsOf c, v.toList ≠ [] ∧
    ∀ x ∈ v.toList, x ∈ letters ∧ Unicode.isWord x = true := by
  have hall : ∀ c ∈ Category.all, ∀ v ∈ wordsOf c, v.toList ≠ [] ∧
      v.toList.all (fun x => letters.contains x && Unicode.isWord x) = true := by
    decide
  intro c hc v hv
  obtain ⟨hne, hletters⟩ := hall c hc v hv
  refine ⟨hne, fun x hx => ?_⟩
  simpa using List.all_eq_true.mp hletters x hx

/-- No word has two categories. -/
theorem eq_of_mem_wordsOf : ∀ c ∈ Category.all, ∀ c' ∈ Category.all, ∀ v ∈ wordsOf c,
    v ∈ wordsOf c' → c = c' := by
  decide

theorem worded_wordsOf (c : Category) : Worded ((wordsOf c).map String.toList) := by
  intro w hw
  obtain ⟨v, hv, rfl⟩ := List.mem_map.mp hw
  obtain ⟨hne, hall⟩ := words_of_letters c (Category.mem_all c) v hv
  exact ⟨hne, fun x hx => (hall x hx).2⟩

/-- **A rule for words** matches the maximal runs of word characters that are one of its words. -/
theorem mem_findAll_iff_of_wordRule (hr : r ∈ codeRules) (hword : WordRule r) :
    m ∈ r.findAll text ↔ ∃ a w z, WordRun text m a w z ∧ String.ofList w ∈ wordsOf r.category := by
  have hmoves := (regular_of_mem (Or.inr hr)).moves
  have hiff : m ∈ r.findAll text ↔
      ∃ a w z, WordRun text m a w z ∧ w ∈ (wordsOf r.category).map String.toList :=
    mem_findAll_iff_of_wholeWords hmoves hword (worded_wordsOf r.category)
  simp only [mem_map_toList_iff] at hiff
  exact hiff

/-! ## The other rules -/

/-- What a rule for symbols or numbers matches holds letters behind digits only. -/
theorem exists_parts_of_symbolRule (hr : r ∈ codeRules) (hsymbol : SymbolRule r)
    (hm : m ∈ r.findAll text) : ∃ a v z, text.Parts m a v z ∧ LedByDigit v := by
  have hreg := regular_of_mem (Or.inr hr)
  obtain ⟨a, v, z, hparts, he⟩ := ((mem_findAll_iff hreg.moves).mp hm).1.exists_parts
  have hsize : (Cursor.between a (v ++ z)).rest.length ≤ text.length := hparts.length_le
  refine ⟨a, v, z, hparts, ?_⟩
  rcases hsymbol.2 with hfloat | havoids
  · have he : Cursor.between (a ++ v) z ∈ ends text.length floatPattern (Cursor.between a (v ++ z)) :=
      hfloat ▸ he
    exact ledByDigit_of_floatText ((bounded_floatPattern _ _ _ hsize).mp he).2.1.of_between
  · intro v₁ x v₂ hv hx
    have hno := (not_mem_of_avoids hreg.steady (havoids x hx) hsize he).of_between
    exact absurd (by rw [hv]; simp) hno

/-- **A run of letters is left alone**: a text in which letters stand behind digits only shares no
byte with it. -/
theorem not_meets_of_ledByDigit {a' v z' : Text} (hv : text.Parts m a' v z') (hled : LedByDigit v)
    (hrun : WordRun text s a w z) (hletters : ∀ x ∈ w, x ∈ letters) : ¬ m.Meets s := by
  intro hmeets
  have hmeets := ByteRange.meets_iff.mp hmeets
  have htext : a' ++ (v ++ z') = a ++ (w ++ z) := by
    rw [← List.append_assoc, ← List.append_assoc, ← hv.text_eq, ← hrun.text_eq]
  rw [hv.range_eq, hrun.range_eq] at hmeets
  simp only [Text.byteLength_append] at hmeets
  by_cases hle : a.byteLength ≤ a'.byteLength
  · -- the text would begin with a letter
    obtain ⟨n, rfl, hrest⟩ := Text.exists_middle htext.symm hle
    rw [Text.byteLength_append] at hmeets
    obtain ⟨n', rfl, hrest'⟩ := Text.exists_middle hrest.symm (by omega)
    cases v with
    | nil => simp at hmeets
    | cons x v =>
      cases n' with
      | nil => simp at hmeets
      | cons y n' =>
        obtain ⟨rfl, -⟩ := List.cons.inj hrest'
        have hx := hletters x (List.mem_append_right _ List.mem_cons_self)
        obtain ⟨d, hd, -⟩ := hled [] x v rfl hx
        exact absurd hd (by simp)
  · -- the run would begin behind a digit
    obtain ⟨n, rfl, hrest⟩ := Text.exists_middle htext (Nat.le_of_not_le hle)
    rw [Text.byteLength_append] at hmeets
    obtain ⟨v', rfl, hrest'⟩ := Text.exists_middle hrest.symm (by omega)
    cases v' with
    | nil => simp at hmeets
    | cons y v' =>
      obtain ⟨x, w, rfl⟩ := List.exists_cons_of_ne_nil hrun.filled
      obtain ⟨rfl, -⟩ := List.cons.inj hrest'
      obtain ⟨d, hd, hdigit⟩ := hled n x v' rfl (hletters x List.mem_cons_self)
      have hno := hrun.start d (by rw [List.getLast?_append, Option.mem_def.mp hd]; rfl)
      rw [isWord_of_isDigit hdigit] at hno
      exact absurd hno (by simp)

/-! ## The categories -/

/-- A match of a rule for code that holds a byte of a word is that of the word's rule. -/
theorem category_eq_of_mem_word (hr : r ∈ codeRules) (hm : m ∈ r.findAll text) (hb : b ∈ m)
    (hrun : WordRun text s a w z) (hbs : b ∈ s) (hw : String.ofList w ∈ wordsOf c) :
    r.category = c := by
  rcases wordRule_or_symbolRule.1 r hr with hword | hsymbol
  · obtain ⟨a', w', z', hrun', hw'⟩ := (mem_findAll_iff_of_wordRule hr hword).mp hm
    obtain ⟨-, rfl⟩ := hrun.eq_of_mem hrun' hbs hb
    exact eq_of_mem_wordsOf _ (Category.mem_all _) _ (Category.mem_all _) _ hw' hw
  · obtain ⟨a', v, z', hparts, hled⟩ := exists_parts_of_symbolRule hr hsymbol hm
    have hletters : ∀ x ∈ w, x ∈ letters := fun x hx =>
      ((words_of_letters c (Category.mem_all c) _ hw).2 x (by rwa [String.toList_ofList])).1
    exact absurd ⟨b, hb, hbs⟩ (not_meets_of_ledByDigit hparts hled hrun hletters)

/-- A rule for a category with words is one for words. -/
theorem wordRule_of_mem (hr : r ∈ codeRules) (hne : wordsOf r.category ≠ []) : WordRule r :=
  (wordRule_or_symbolRule.1 r hr).resolve_right fun hsymbol => hne hsymbol.1

/-- **The bytes of a category with words**, under the rules for code alone, are those of its words. -/
theorem codeCategory_eq_iff_of_words (hc : wordsOf c ≠ []) : codeCategory text b = c ↔
    ∃ s a w z, WordRun text s a w z ∧ b ∈ s ∧ String.ofList w ∈ wordsOf c := by
  unfold codeCategory categoryOf
  constructor
  · intro hcategory
    cases hl : lastAt? b (Highlighter.hits ⟨codeRules⟩ text) with
    | none =>
      rw [hl] at hcategory
      subst hcategory
      exact absurd rfl hc
    | some g =>
      rw [hl] at hcategory
      subst hcategory
      obtain ⟨hg, hb⟩ := mem_of_lastAt? hl
      obtain ⟨hr, hm⟩ := Highlighter.mem_hits_iff.mp hg
      obtain ⟨a, w, z, hrun, hw⟩ := (mem_findAll_iff_of_wordRule hr (wordRule_of_mem hr hc)).mp hm
      exact ⟨g.range, a, w, z, hrun, hb, hw⟩
  · rintro ⟨s, a, w, z, hrun, hb, hw⟩
    obtain ⟨r, hr, rfl⟩ := wordRule_or_symbolRule.2 c (Category.mem_all c) hc
    have hm : s ∈ r.findAll text :=
      (mem_findAll_iff_of_wordRule hr (wordRule_of_mem hr hc)).mpr ⟨a, w, z, hrun, hw⟩
    cases hl : lastAt? b (Highlighter.hits ⟨codeRules⟩ text) with
    | none =>
      have hno := lastAt?_eq_none_iff.mp hl ⟨r, s⟩ (Highlighter.mem_hits_iff.mpr ⟨hr, hm⟩)
      exact absurd hb hno
    | some g =>
      -- whatever rule paints the byte last, it is the one for words
      obtain ⟨hg, hb'⟩ := mem_of_lastAt? hl
      obtain ⟨hr', hm'⟩ := Highlighter.mem_hits_iff.mp hg
      exact category_eq_of_mem_word hr' hm' hb' hrun hb hw

/-- The same under all rules, outside of comments and strings. -/
theorem categoryAt_eq_iff_of_words (hc : wordsOf c ≠ [])
    (hcomment : highlighter.categoryAt text b ≠ some .comment)
    (hstring : highlighter.categoryAt text b ≠ some .string) :
    highlighter.categoryAt text b = some c ↔
      ∃ s a w z, WordRun text s a w z ∧ b ∈ s ∧ String.ofList w ∈ wordsOf c := by
  by_cases hb : b < text.byteLength
  · rw [categoryAt_eq_codeCategory hcomment hstring hb, Option.some_inj,
      codeCategory_eq_iff_of_words hc]
  · rw [Highlighter.categoryAt_eq_none _ (Nat.le_of_not_lt hb)]
    refine ⟨fun h => absurd h (by simp), ?_⟩
    rintro ⟨s, a, w, z, hrun, hbs, -⟩
    rw [hrun.range_eq] at hbs
    have hlen : (a ++ w).byteLength ≤ text.byteLength := by
      rw [hrun.text_eq, Text.byteLength_append (a ++ w)]
      exact Nat.le_add_right _ _
    exact absurd (Nat.lt_of_lt_of_le hbs.2 hlen) hb

/-- **Whole words decide**: outside of comments and strings, a byte in a maximal run of word characters
has one of the three categories iff the run is one of the words of this category, and a byte in no
such run has none of them. -/
theorem word_category_iff {text : Text} {b : Nat}
    (hcomment : highlighter.categoryAt text b ≠ some .comment)
    (hstring : highlighter.categoryAt text b ≠ some .string) :
    (∀ s a w z, WordRun text s a w z → b ∈ s →
      (highlighter.categoryAt text b = some .processKeyword ↔ String.ofList w = "process") ∧
      (highlighter.categoryAt text b = some .keyword ↔ String.ofList w ∈ keywords) ∧
      (highlighter.categoryAt text b = some .type ↔ String.ofList w ∈ types)) ∧
    ((∀ s a w z, WordRun text s a w z → b ∉ s) →
      highlighter.categoryAt text b ≠ some .processKeyword ∧
      highlighter.categoryAt text b ≠ some .keyword ∧
      highlighter.categoryAt text b ≠ some .type) := by
  have hwords : ∀ c, wordsOf c ≠ [] → (highlighter.categoryAt text b = some c ↔
      ∃ s a w z, WordRun text s a w z ∧ b ∈ s ∧ String.ofList w ∈ wordsOf c) :=
    fun c hc => categoryAt_eq_iff_of_words hc hcomment hstring
  refine ⟨fun s a w z hrun hb => ?_, fun hno => ?_⟩
  · have hrun_iff : ∀ c, wordsOf c ≠ [] → (highlighter.categoryAt text b = some c ↔
        String.ofList w ∈ wordsOf c) := by
      intro c hc
      rw [hwords c hc]
      constructor
      · rintro ⟨s', a', w', z', hrun', hb', hw'⟩
        obtain ⟨-, rfl⟩ := hrun.eq_of_mem hrun' hb hb'
        exact hw'
      · exact fun hw => ⟨s, a, w, z, hrun, hb, hw⟩
    refine ⟨?_, hrun_iff .keyword (by simp [wordsOf, keywords]),
      hrun_iff .type (by simp [wordsOf, types])⟩
    rw [hrun_iff .processKeyword (by simp [wordsOf]), wordsOf, List.mem_singleton]
  · have hnone : ∀ c, wordsOf c ≠ [] → highlighter.categoryAt text b ≠ some c := by
      intro c hc h
      obtain ⟨s, a, w, z, hrun, hb, -⟩ := (hwords c hc).mp h
      exact hno s a w z hrun hb
    exact ⟨hnone .processKeyword (by simp [wordsOf]), hnone .keyword (by simp [wordsOf, keywords]),
      hnone .type (by simp [wordsOf, types])⟩

/-- The theorem for `letrec`, of which another reserved word is the beginning, next to a float with an
exponent. -/
theorem word_category_iff_letrec :
    let text := "1.5e3 letrec".toList
    (highlighter.categoryAt text 7 ≠ some .comment ∧ highlighter.categoryAt text 7 ≠ some .string ∧
      WordRun text ⟨6, 12⟩ "1.5e3 ".toList "letrec".toList []) ∧
    (highlighter.categoryAt text 7 = some .keyword ↔ "letrec" ∈ keywords) := by
  intro text
  have hcomment : highlighter.categoryAt text 7 ≠ some .comment := fun h =>
    absurd (categoryAt_comments_iff.mpr h) (by decide +kernel)
  have hstring : highlighter.categoryAt text 7 ≠ some .string := fun h =>
    absurd (categoryAt_strings_iff.mpr h) (by decide +kernel)
  have hrun : WordRun text ⟨6, 12⟩ "1.5e3 ".toList "letrec".toList [] := by decide
  exact ⟨⟨hcomment, hstring, hrun⟩,
    ((word_category_iff hcomment hstring).1 _ _ _ _ hrun (by decide)).2.1⟩

end FaustLens.Faust
