import FaustLens.Proofs.Faust.CommentContents
import FaustLens.Proofs.Permanence

/-!
# Comments and strings as a mask

What a classification claims are the comments and the strings, and a match of a rule for code either
lies inside one of them or shares no byte with any. So it makes no difference that matches are
dropped whole: painting all matches for code and then masking the bytes of comments and strings one
by one gives the same categories.

Results:
* `mem_claims_iff`: the claims are the comments and the strings.
* `categoryAt_eq_string_iff`: the string bytes, which no rule behind the string rule changes.
* `code_match_inside_or_apart`: where matches for code lie, and the mask.
-/

namespace FaustLens

/-- The table with the rules only that are not exclusive, in their order. -/
def Highlighter.openPart (h : Highlighter) : Highlighter := ⟨h.rules.filter (!·.exclusive)⟩

namespace Faust

open Hit Pattern

variable {text : Text} {b : Nat}

/-! ## The two parts of the table -/

theorem exclusivePart_highlighter : highlighter.exclusivePart = ⟨exclusiveRules⟩ := by
  have hcode : codeRules.filter (·.exclusive) = [] := by
    rw [List.filter_eq_nil_iff]
    intro r hr
    simp [(codeRule_of_mem r hr).not_exclusive]
  unfold Highlighter.exclusivePart
  rw [highlighter_eq, List.filter_append, hcode, List.append_nil,
    List.filter_eq_self.mpr exclusive_of_mem_exclusiveRules]

theorem openPart_highlighter : highlighter.openPart = ⟨codeRules⟩ := by
  have hexclusive : exclusiveRules.filter (!·.exclusive) = [] := by
    rw [List.filter_eq_nil_iff]
    intro r hr
    simp [exclusive_of_mem_exclusiveRules r hr]
  have hcode : codeRules.filter (!·.exclusive) = codeRules := by
    rw [List.filter_eq_self]
    intro r hr
    simp [(codeRule_of_mem r hr).not_exclusive]
  unfold Highlighter.openPart
  rw [highlighter_eq, List.filter_append, hexclusive, List.nil_append, hcode]

theorem mem_codeRules_iff {r : Rule} : r ∈ codeRules ↔ r ∈ rules ∧ r.exclusive = false := by
  have hrules : codeRules = rules.filter (!·.exclusive) := by
    have hopen := openPart_highlighter
    unfold Highlighter.openPart highlighter at hopen
    exact (congrArg Highlighter.rules hopen).symm
  rw [hrules, List.mem_filter, Bool.not_eq_true']

/-- Nothing is claimed under the rules for code alone, so all their matches paint. -/
theorem categoryAt_openPart (hb : b < text.byteLength) :
    highlighter.openPart.categoryAt text b = some (codeCategory text b) := by
  have hfree : accepted .empty (Highlighter.hits ⟨codeRules⟩ text) =
      Highlighter.hits ⟨codeRules⟩ text := by
    rw [accepted_of_not_exclusive, List.filter_eq_self]
    · intro g _
      rw [ClaimedRanges.empty_intersects, Bool.not_false]
    · intro g hg
      exact (codeRule_of_mem g.rule (Highlighter.mem_hits_iff.mp hg).1).not_exclusive
  rw [openPart_highlighter, Highlighter.categoryAt_eq hb, hfree]
  rfl

/-! ## The claims -/

theorem start_lt_stop_of_mem_accepted {g : Hit}
    (hg : g ∈ accepted .empty (Highlighter.hits ⟨exclusiveRules⟩ text)) :
    g.range.start < g.range.stop := by
  obtain ⟨hr, hm⟩ := Highlighter.mem_hits_iff.mp (mem_of_mem_accepted hg)
  exact start_lt_stop_of_mem_findAll (regular_of_mem (Or.inl hr)).moves hm

theorem exists_accepted_iff_claimed {c : ByteRange} :
    (∃ g ∈ accepted .empty (Highlighter.hits ⟨exclusiveRules⟩ text), g.range = c) ↔
      CommentRange text c ∨ StringRange text c := by
  simp only [mem_accepted_exclusive_iff]
  constructor
  · rintro ⟨g, hg | ⟨-, hg⟩, rfl⟩
    · exact Or.inl (exists_accepted_iff_commentRange.mp ⟨g, hg, rfl⟩)
    · exact Or.inr hg
  · rintro (hc | hc)
    · obtain ⟨g, hg, rfl⟩ := exists_accepted_iff_commentRange.mpr hc
      exact ⟨g, Or.inl hg, rfl⟩
    · exact ⟨⟨stringRule, c⟩, Or.inr ⟨rfl, hc⟩, rfl⟩

/-- **The claims are the comments and the strings.** -/
theorem mem_claims_iff {c : ByteRange} : c ∈ (highlighter.scan text).claims.ranges ↔
    CommentRange text c ∨ StringRange text c := by
  rw [Highlighter.claims_scan, ← afterHits_filter_exclusive, ← Highlighter.hits_exclusivePart,
    exclusivePart_highlighter, mem_afterHits_iff, ← exists_accepted_iff_claimed]
  constructor
  · rintro (hc | ⟨g, hg, -, hc, -⟩)
    · exact absurd hc List.not_mem_nil
    · exact ⟨g, hg, hc⟩
  · rintro ⟨g, hg, rfl⟩
    have hex := exclusive_of_mem_exclusiveRules _ (Highlighter.mem_hits_iff.mp (mem_of_mem_accepted hg)).1
    exact Or.inr ⟨g, hg, hex, rfl,
      ByteRange.isEmpty_eq_false_iff.mpr (start_lt_stop_of_mem_accepted hg)⟩

theorem fenced_of_mem_claims {c : ByteRange} (hc : c ∈ (highlighter.scan text).claims.ranges) :
    Fenced fence text c := by
  obtain ⟨g, hg, rfl⟩ := exists_accepted_iff_claimed.mpr (mem_claims_iff.mp hc)
  exact fenced_of_mem_accepted hg

/-- A byte is claimed iff it is a comment or a string. -/
theorem exists_claim_iff : (∃ c ∈ (highlighter.scan text).claims.ranges, b ∈ c) ↔
    highlighter.categoryAt text b = some .comment ∨ highlighter.categoryAt text b = some .string := by
  rw [categoryAt_highlighter_comment_iff, categoryAt_highlighter_string_iff]
  simp only [mem_claims_iff, or_and_right, exists_or]
  rfl

/-! ## Strings -/

/-- A match of the string rule is a string iff none of its bytes is a comment. -/
theorem stringRange_iff {m : ByteRange} : StringRange text m ↔ m ∈ matchesOf stringLiteral text ∧
    ∀ b ∈ m, highlighter.categoryAt text b ≠ some .comment := by
  unfold StringRange
  refine and_congr_right fun _ => ?_
  simp only [ne_eq, categoryAt_highlighter_comment_iff]
  constructor
  · rintro h b hb ⟨c, hc, hbc⟩
    exact h c hc ⟨b, hbc, hb⟩
  · rintro h c hc ⟨b, hbc, hb⟩
    exact h b hb ⟨c, hc, hbc⟩

/-- A byte of a match of the string rule is a string iff this match is. -/
theorem categoryAt_string_iff_of_mem {m : ByteRange} (hm : m ∈ matchesOf stringLiteral text)
    (hb : b ∈ m) : highlighter.categoryAt text b = some .string ↔ StringRange text m := by
  rw [categoryAt_highlighter_string_iff]
  constructor
  · rintro ⟨m', hm', hb'⟩
    have hmem := hm'.1
    rw [matchesOf_stringLiteral] at hm hmem
    rcases eq_or_apart_of_mem_findAll hm hmem with rfl | hap | hap
    · exact hm'
    · exact absurd ⟨b, hb, hb'⟩ (ByteRange.not_meets_of_stop_le hap)
    · exact absurd ⟨b, hb', hb⟩ (ByteRange.not_meets_of_stop_le hap)
  · exact fun hs => ⟨m, hs, hb⟩

/-- **The string bytes** are those of the matches of the string rule that hold no comment byte. A
match that touches a comment gives no string byte at all, and no rule behind the string rule adds a
string byte or takes one away. -/
theorem categoryAt_eq_string_iff (text : Text) (b : Nat) :
    (highlighter.categoryAt text b = some .string ↔ ∃ m ∈ matchesOf stringLiteral text, b ∈ m ∧
      ∀ b' ∈ m, highlighter.categoryAt text b' ≠ some .comment) ∧
    (∀ m ∈ matchesOf stringLiteral text,
      (∃ b' ∈ m, highlighter.categoryAt text b' = some .comment) →
        ∀ b' ∈ m, highlighter.categoryAt text b' ≠ some .string) ∧
    ∀ n, (Highlighter.categoryAt ⟨rules.take (n + 3)⟩ text b = some .string ↔
      highlighter.categoryAt text b = some .string) := by
  refine ⟨?_, fun m hm ⟨b', hb', hcomment⟩ b'' hb'' hstring => ?_, fun n => ?_⟩
  · rw [categoryAt_highlighter_string_iff]
    simp only [stringRange_iff, and_assoc]
    exact exists_congr fun m => and_congr_right fun _ => and_comm
  · have hs := (categoryAt_string_iff_of_mem hm hb'').mp hstring
    exact (stringRange_iff.mp hs).2 b' hb' hcomment
  · rw [categoryAt_highlighter_string_iff, rules_eq]
    exact categoryAt_string_iff fun r hr =>
      (codeRule_of_mem r (List.mem_of_mem_take hr)).category_ne_string

/-- The theorem for a string match that begins in a string and one that begins in a comment. -/
theorem categoryAt_eq_string_iff_words :
    let text := "\"a\" // \"b\"".toList
    (⟨0, 3⟩ ∈ matchesOf stringLiteral text ∧ ⟨7, 10⟩ ∈ matchesOf stringLiteral text ∧
      ∃ b ∈ (⟨7, 10⟩ : ByteRange), highlighter.categoryAt text b = some .comment) ∧
    ∀ b ∈ (⟨7, 10⟩ : ByteRange), highlighter.categoryAt text b ≠ some .string := by
  intro text
  have hfirst : ⟨0, 3⟩ ∈ matchesOf stringLiteral text := by decide +kernel
  have hsecond : ⟨7, 10⟩ ∈ matchesOf stringLiteral text := by decide +kernel
  have hcomment : highlighter.categoryAt text 8 = some .comment :=
    categoryAt_comments_iff.mp (by decide +kernel)
  have htouch : ∃ b ∈ (⟨7, 10⟩ : ByteRange), highlighter.categoryAt text b = some .comment :=
    ⟨8, by decide, hcomment⟩
  exact ⟨⟨hfirst, hsecond, htouch⟩, (categoryAt_eq_string_iff text 8).2.1 _ hsecond htouch⟩

/-! ## Code -/

/-- A match for code that holds a byte outside of comments and strings meets no claim. -/
theorem not_meets_of_mem {r : Rule} (hr : r ∈ codeRules) {m : ByteRange} (hm : m ∈ r.findAll text)
    (hb : b ∈ m) (hc : highlighter.categoryAt text b ≠ some .comment)
    (hs : highlighter.categoryAt text b ≠ some .string) :
    ∀ c ∈ (highlighter.scan text).claims.ranges, ¬ m.Meets c := by
  intro c hclaim hmeets
  have hin := inside_of_mem_codeRules hr hm (fenced_of_mem_claims hclaim) hmeets
  have hbc : b ∈ c := ⟨Nat.le_trans hin.1 hb.1, Nat.lt_of_lt_of_le hb.2 hin.2⟩
  rcases exists_claim_iff.mp ⟨c, hclaim, hbc⟩ with h | h
  · exact hc h
  · exact hs h

/-- A match for code that meets no claim is accepted. -/
theorem mem_accepted_of_not_meets {r : Rule} (hr : r ∈ codeRules) {m : ByteRange}
    (hm : m ∈ r.findAll text) (hfree : ∀ c ∈ (highlighter.scan text).claims.ranges, ¬ m.Meets c) :
    ⟨r, m⟩ ∈ accepted .empty (highlighter.hits text) := by
  have hcode : ∀ g ∈ Highlighter.hits ⟨codeRules⟩ text, g.rule.exclusive = false := fun g hg =>
    (codeRule_of_mem g.rule (Highlighter.mem_hits_iff.mp hg).1).not_exclusive
  rw [highlighter_eq, Highlighter.hits_append, accepted_append, accepted_of_not_exclusive hcode]
  refine List.mem_append_right _ (List.mem_filter.mpr ⟨Highlighter.mem_hits_iff.mpr ⟨hr, hm⟩, ?_⟩)
  rw [Bool.not_eq_true', ← Bool.not_eq_true, intersects_afterHits_iff
    (Highlighter.exclusive_of_mem_hits exclusive_of_mem_exclusiveRules)]
  rintro ⟨g, hg, hmeets⟩
  have hclaim := mem_claims_iff.mpr (exists_accepted_iff_claimed.mp ⟨g, hg, rfl⟩)
  exact hfree g.range hclaim hmeets.symm

/-- Under the exclusive rules alone, a byte of the text is plain iff it is no comment and no
string. -/
theorem categoryAt_exclusivePart_eq_plain_iff (hb : b < text.byteLength) :
    highlighter.exclusivePart.categoryAt text b = some .plain ↔
      highlighter.categoryAt text b ≠ some .comment ∧
        highlighter.categoryAt text b ≠ some .string := by
  rw [← not_or, ← exists_claim_iff, exclusivePart_highlighter]
  constructor
  · rintro hplain ⟨c, hc, hbc⟩
    obtain ⟨g, hg, rfl⟩ := exists_accepted_iff_claimed.mpr (mem_claims_iff.mp hc)
    have hr := (Highlighter.mem_hits_iff.mp (mem_of_mem_accepted hg)).1
    rw [Highlighter.categoryAt_of_mem_accepted hg (exclusive_of_mem_exclusiveRules _ hr) hbc] at hplain
    have hcolour : ∀ r ∈ exclusiveRules, r.category ≠ .plain := by
      simp [exclusiveRules, commentRules, blockRule, lineRule, stringRule]
    exact hcolour _ hr (Option.some.inj hplain)
  · intro hno
    have hlast : lastAt? b (accepted .empty (Highlighter.hits ⟨exclusiveRules⟩ text)) = none := by
      rw [lastAt?_eq_none_iff]
      intro g hg hbg
      exact hno ⟨g.range, mem_claims_iff.mpr (exists_accepted_iff_claimed.mp ⟨g, hg, rfl⟩), hbg⟩
    rw [Highlighter.categoryAt_eq hb, categoryOf, hlast]

/-- A comment byte or string byte has its category under the exclusive rules alone. -/
theorem categoryAt_exclusivePart_of_claimed
    (h : highlighter.categoryAt text b = some .comment ∨
      highlighter.categoryAt text b = some .string) :
    highlighter.exclusivePart.categoryAt text b = highlighter.categoryAt text b := by
  have hback : ∀ r ∈ ([stringRule] : List Rule), r.category ≠ .comment := by simp [stringRule]
  rw [exclusivePart_highlighter]
  rcases h with h | h
  · rw [h]
    exact (categoryAt_comment_iff hback).mpr (categoryAt_highlighter_comment_iff.mp h)
  · rw [h]
    exact categoryAt_strings_iff.mpr h

/-- **The mask**: the exclusive rules alone decide the bytes that they claim, and the rules for code
alone decide the others. -/
theorem categoryAt_eq_masked (text : Text) (b : Nat) : highlighter.categoryAt text b =
    if highlighter.exclusivePart.categoryAt text b = some .plain
    then highlighter.openPart.categoryAt text b
    else highlighter.exclusivePart.categoryAt text b := by
  by_cases hb : b < text.byteLength
  · by_cases h : highlighter.categoryAt text b = some .comment ∨
        highlighter.categoryAt text b = some .string
    · rw [if_neg, categoryAt_exclusivePart_of_claimed h]
      rw [categoryAt_exclusivePart_eq_plain_iff hb, ← not_or]
      exact not_not.mpr h
    · have hno := not_or.mp h
      rw [if_pos ((categoryAt_exclusivePart_eq_plain_iff hb).mpr hno), categoryAt_openPart hb,
        categoryAt_eq_codeCategory hno.1 hno.2 hb]
  · simp only [Highlighter.categoryAt_eq_none _ (Nat.le_of_not_lt hb), ite_self]

/-- **No match for code goes across the edge of a claim**: it lies inside one comment or string, or
shares no byte with any. So none is lost that holds a byte outside of comments and strings, and
dropping matches whole comes to the same as masking comments and strings byte by byte. -/
theorem code_match_inside_or_apart (text : Text) :
    (∀ r ∈ rules, r.exclusive = false → ∀ m ∈ r.findAll text,
      ((∃ c ∈ (highlighter.scan text).claims.ranges,
          (CommentRange text c ∨ StringRange text c) ∧ m.Inside c) ∨
        ∀ c ∈ (highlighter.scan text).claims.ranges, ¬ m.Meets c) ∧
      ∀ b ∈ m, highlighter.categoryAt text b ≠ some .comment →
        highlighter.categoryAt text b ≠ some .string →
        ⟨r, m⟩ ∈ accepted .empty (highlighter.hits text)) ∧
    ∀ b, highlighter.categoryAt text b =
      if highlighter.exclusivePart.categoryAt text b = some .plain
      then highlighter.openPart.categoryAt text b
      else highlighter.exclusivePart.categoryAt text b := by
  refine ⟨fun r hr hex m hm => ⟨?_, fun b hb hc hs => ?_⟩, categoryAt_eq_masked text⟩
  · have hcode := mem_codeRules_iff.mpr ⟨hr, hex⟩
    by_cases h : ∃ c ∈ (highlighter.scan text).claims.ranges, m.Meets c
    · obtain ⟨c, hc, hmeets⟩ := h
      exact Or.inl ⟨c, hc, mem_claims_iff.mp hc,
        inside_of_mem_codeRules hcode hm (fenced_of_mem_claims hc) hmeets⟩
    · exact Or.inr fun c hc hmeets => h ⟨c, hc, hmeets⟩
  · have hcode := mem_codeRules_iff.mpr ⟨hr, hex⟩
    exact mem_accepted_of_not_meets hcode hm (not_meets_of_mem hcode hm hb hc hs)

/-- The theorem for a float in front of a comment and another one inside of it. -/
theorem code_match_inside_or_apart_floats :
    let text := "1.5/*2.5*/".toList
    ∃ r ∈ rules, r.exclusive = false ∧ ∀ m ∈ ([⟨0, 3⟩, ⟨5, 8⟩] : List ByteRange),
      m ∈ r.findAll text ∧
      ((∃ c ∈ (highlighter.scan text).claims.ranges,
          (CommentRange text c ∨ StringRange text c) ∧ m.Inside c) ∨
        ∀ c ∈ (highlighter.scan text).claims.ranges, ¬ m.Meets c) := by
  intro text
  have hany : rules.any (fun r => !r.exclusive &&
      ([⟨0, 3⟩, ⟨5, 8⟩] : List ByteRange).all (r.findAll text).contains) = true := by decide +kernel
  obtain ⟨r, hr, hgood⟩ := List.any_eq_true.mp hany
  obtain ⟨hex, hall⟩ := Bool.and_eq_true_iff.mp hgood
  have hex : r.exclusive = false := by simpa using hex
  refine ⟨r, hr, hex, fun m hm => ?_⟩
  have hmem : m ∈ r.findAll text := List.contains_iff_mem.mp (List.all_eq_true.mp hall m hm)
  exact ⟨hmem, ((code_match_inside_or_apart text).1 r hr hex m hmem).1⟩

end Faust

end FaustLens
