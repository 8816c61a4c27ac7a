import FaustLens.Proofs.Faust.BlockComment
import FaustLens.Proofs.Faust.CommentContents
import FaustLens.Proofs.Splitting

/-!
# Splitting a source at a line break

A source may be classified in two parts if it is cut behind a line feed and nothing that begins in
the first part can go on in the second (`CleanBreak`): no opening mark of a comment and no quote is
left over, and each string literal ends with a quote that is not escaped. The last condition is
needed because a literal that finds no other quote closes at an escaped one; a quote in the second
part would take its place. Line comments and code never go past a line feed.

Results:
* `splitsAt_of_mem_rules`: every rule has the matches of both parts.
* `expand_classify_append`: the categories of the whole source are those of its parts.
-/

namespace FaustLens

/-- A condition on all ways to cut a text in two. -/
theorem Text.forall_cut_iff {text : Text} {P : Text → Text → Prop} :
    (∀ u v, text = u ++ v → P u v) ↔
      ∀ n ∈ List.range (text.length + 1), P (text.take n) (text.drop n) := by
  constructor
  · exact fun h n _ => h _ _ (List.take_append_drop n text).symm
  · rintro h u v rfl
    have hn : u.length ∈ List.range ((u ++ v).length + 1) := by
      rw [List.mem_range, List.length_append]
      omega
    simpa using h u.length hn

instance (text mark : Text) (rs : List ByteRange) : Decidable (text.NoMarkBehind mark rs) :=
  decidable_of_iff _ Text.forall_cut_iff.symm

namespace Faust

open Pattern

/-- The text is empty or ends with a line feed, and nothing that begins in it is left open. -/
structure CleanBreak (a : Text) : Prop where
  lineFeed : a = [] ∨ a.getLast? = some '\n'
  comments : a.NoMarkBehind ['/', '*'] (matchesOf blockComment a)
  quotes : a.NoMarkBehind ['"'] (matchesOf stringLiteral a)
  terminated : ∀ r ∈ matchesOf stringLiteral a, Terminated a r

instance (text : Text) (r : ByteRange) : Decidable (Terminated text r) :=
  decidable_of_iff (((text.slice? r.start r.stop).any fun w => (units w).getLast? = some ['"']) = true)
    (by simp [Terminated, Option.any_eq_true])

instance (a : Text) : Decidable (CleanBreak a) :=
  decidable_of_iff ((a = [] ∨ a.getLast? = some '\n') ∧
      (a.NoMarkBehind ['/', '*'] (matchesOf blockComment a) ∧
        a.NoMarkBehind ['"'] (matchesOf stringLiteral a)) ∧
      ∀ r ∈ matchesOf stringLiteral a, Terminated a r)
    ⟨fun h => ⟨h.1, h.2.1.1, h.2.1.2, h.2.2⟩,
      fun h => ⟨h.lineFeed, ⟨h.comments, h.quotes⟩, h.terminated⟩⟩

/-- The rules for line comments and for code match inside of lines, wherever a line begins. -/
theorem inLine_of_mem : ∀ r ∈ lineRule :: codeRules,
    r.pattern.avoids '\n' = true ∧ r.pattern.startless = true := by
  decide +kernel

/-- **Every rule** has the matches of both parts. -/
theorem splitsAt_of_mem_rules {a : Text} (h : CleanBreak a) (ha : a.getLast? = some '\n') (b : Text) :
    ∀ r ∈ rules, r.pattern.SplitsAt a b := by
  intro r hr
  have hregular := regular_of_mem_rules r hr
  have hcase : r = blockRule ∨ r = stringRule ∨ r ∈ lineRule :: codeRules := by
    rw [rules_eq] at hr
    simp only [List.mem_append, List.mem_cons, List.not_mem_nil, or_false] at hr ⊢
    tauto
  rcases hcase with rfl | rfl | hline
  · have hmarks := h.comments
    rw [matchesOf_blockComment] at hmarks
    exact splitsAt_blockPattern ha hmarks b
  · have hmarks := h.quotes
    have hterm := h.terminated
    rw [matchesOf_stringLiteral] at hmarks hterm
    exact splitsAt_stringPattern ha hmarks hterm b
  · obtain ⟨havoids, hstart⟩ := inLine_of_mem r hline
    exact splitsAt_of_avoids hregular.steady hregular.moves hstart havoids ha b

/-- **Splitting at a clean line break is exact**: the categories of the whole source, byte by byte,
are those of the first part followed by those of the second. -/
theorem expand_classify_append {a : Text} (h : CleanBreak a) (b : Text) :
    expand (highlighter.classify (a ++ b)) =
      expand (highlighter.classify a) ++ expand (highlighter.classify b) := by
  rcases h.lineFeed with rfl | ha
  · have hnil : expand (highlighter.classify []) = [] := by
      rw [← List.length_eq_zero_iff, Highlighter.length_expand_classify]
      rfl
    rw [hnil]
    rfl
  · exact Highlighter.expand_classify_append_of_splitsAt (splitsAt_of_mem_rules h ha b)

/-- The theorem for a first part with an escaped quote and a comment, and a second part that closes
one and opens the other. -/
theorem expand_classify_append_quotes :
    let a := "x = \"a\\\"b\"; /* \"c\" */\n".toList
    let b := "*/ 1.5 \" // y".toList
    CleanBreak a ∧ expand (highlighter.classify (a ++ b)) =
      expand (highlighter.classify a) ++ expand (highlighter.classify b) := by
  intro a b
  have h : CleanBreak a := by decide +kernel
  exact ⟨h, expand_classify_append h b⟩

end Faust

end FaustLens
