import FaustLens.Proofs.Faust.Line
import FaustLens.Proofs.Tables

/-!
# Which bytes are comments

A byte is a comment iff it is in a block comment, or in the tail of a line that shares no byte with
any block comment (`InComment`). A tail that shares a byte with a block comment is dropped whole,
also as far as no block comment goes: the rules do not cut matches. So the line from `//` on is a
comment only under this condition, and not from every `//` outside of a block comment on.

Results:
* `categoryAt_eq_comment_iff`: the comment bytes, which no rule behind the comment rules changes.
* `line_comment_iff`: when the line from `//` on is a comment.
* `not_every_line_comment`: a line where it is not.
-/

namespace FaustLens.Faust

open Hit Pattern

/-- The range is a block comment, or the tail of a line that no block comment meets. -/
def CommentRange (text : Text) (r : ByteRange) : Prop :=
  r ∈ matchesOf blockComment text ∨
    (LineTail text r ∧ ∀ s ∈ matchesOf blockComment text, ¬ s.Meets r)

/-- The byte is in a comment. -/
def InComment (text : Text) (b : Nat) : Prop := ∃ r, CommentRange text r ∧ b ∈ r

/-- The rules for comments. -/
def commentRules : List Rule := [blockRule, lineRule]

variable {text : Text} {m : ByteRange} {b : Nat}

theorem exclusive_of_mem_commentRules : ∀ r ∈ commentRules, r.exclusive = true := by
  simp [commentRules, blockRule, lineRule]

theorem accepted_blocks : accepted .empty (blockRule.hits text) =
    (matchesOf blockComment text).map (Hit.mk blockRule) := by
  rw [accepted_hits ClaimedRanges.ordered_empty, matchesOf_blockComment]
  refine congrArg _ (List.filter_eq_self.mpr fun m _ => ?_)
  rw [ClaimedRanges.empty_intersects, Bool.not_false]

/-- A match of the line comment rule is accepted iff no block comment meets it. -/
theorem intersects_afterBlocks_eq_false_iff :
    (ClaimedRanges.empty.afterHits (blockRule.hits text)).intersects m = false ↔
      ∀ s ∈ matchesOf blockComment text, ¬ s.Meets m := by
  have hex : ∀ g ∈ blockRule.hits text, g.rule.exclusive = true := by
    intro g hg
    obtain ⟨r, -, rfl⟩ := List.mem_map.mp hg
    rfl
  rw [← Bool.not_eq_true, intersects_afterHits_iff hex, accepted_blocks]
  simp only [List.mem_map, exists_exists_and_eq_and, not_exists, not_and]

/-- The accepted matches of the comment rules: all block comments, and the line tails that none of
them meets. -/
theorem mem_accepted_comments_iff {g : Hit} :
    g ∈ accepted .empty (Highlighter.hits ⟨commentRules⟩ text) ↔
      (g.rule = blockRule ∧ g.range ∈ matchesOf blockComment text) ∨
        (g.rule = lineRule ∧ LineTail text g.range ∧
          ∀ s ∈ matchesOf blockComment text, ¬ s.Meets g.range) := by
  have hhits : Highlighter.hits ⟨commentRules⟩ text =
      blockRule.hits text ++ lineRule.hits text := by
    simp [Highlighter.hits, Rule.hits, commentRules]
  have hline : lineRule.findAll text = linePattern.findAll text := rfl
  rw [hhits, accepted_append, accepted_blocks,
    accepted_hits (ClaimedRanges.ordered_afterHits ClaimedRanges.ordered_empty _), hline]
  simp only [List.mem_append, List.mem_map, List.mem_filter, mem_findAll_linePattern_iff,
    Bool.not_eq_true', intersects_afterBlocks_eq_false_iff]
  constructor
  · rintro (⟨m, hm, rfl⟩ | ⟨m, hm, rfl⟩)
    · exact Or.inl ⟨rfl, hm⟩
    · exact Or.inr ⟨rfl, hm⟩
  · rintro (⟨hr, hm⟩ | ⟨hr, hm⟩)
    · exact Or.inl ⟨g.range, hm, hr ▸ rfl⟩
    · exact Or.inr ⟨g.range, hm, hr ▸ rfl⟩

/-- **The accepted matches of the comment rules** are the comments. -/
theorem exists_accepted_iff_commentRange :
    (∃ g ∈ accepted .empty (Highlighter.hits ⟨commentRules⟩ text), g.range = m) ↔
      CommentRange text m := by
  simp only [mem_accepted_comments_iff]
  constructor
  · rintro ⟨g, ⟨-, hm⟩ | ⟨-, hm⟩, rfl⟩
    · exact Or.inl hm
    · exact Or.inr hm
  · rintro (hm | hm)
    · exact ⟨⟨blockRule, m⟩, Or.inl ⟨rfl, hm⟩, rfl⟩
    · exact ⟨⟨lineRule, m⟩, Or.inr ⟨rfl, hm⟩, rfl⟩

theorem category_of_mem_accepted {g : Hit}
    (hg : g ∈ accepted .empty (Highlighter.hits ⟨commentRules⟩ text)) :
    g.rule.category = .comment := by
  rcases mem_accepted_comments_iff.mp hg with ⟨hr, -⟩ | ⟨hr, -⟩ <;>
  · rw [hr]
    rfl

/-- The comment bytes under the comment rules and any rules of other categories behind them. -/
theorem categoryAt_comment_iff {back : List Rule} (hback : ∀ r ∈ back, r.category ≠ .comment) :
    Highlighter.categoryAt ⟨commentRules ++ back⟩ text b = some .comment ↔ InComment text b := by
  rw [Highlighter.categoryAt_eq_some_iff (by simp) exclusive_of_mem_commentRules hback]
  constructor
  · rintro ⟨g, hg, -, hb⟩
    exact ⟨g.range, exists_accepted_iff_commentRange.mp ⟨g, hg, rfl⟩, hb⟩
  · rintro ⟨r, hr, hb⟩
    obtain ⟨g, hg, rfl⟩ := exists_accepted_iff_commentRange.mpr hr
    exact ⟨g, hg, category_of_mem_accepted hg, hb⟩

theorem category_ne_comment : ∀ r ∈ stringRule :: codeRules, r.category ≠ .comment := by
  intro r hr
  rcases List.mem_cons.mp hr with rfl | hr
  · simp [stringRule]
  · exact (codeRule_of_mem r hr).category_ne_comment

theorem categoryAt_highlighter_comment_iff :
    highlighter.categoryAt text b = some .comment ↔ InComment text b := by
  unfold highlighter
  rw [rules_eq]
  exact categoryAt_comment_iff category_ne_comment

/-- The comment rules alone already give the comment bytes. -/
theorem categoryAt_comments_iff : Highlighter.categoryAt ⟨commentRules⟩ text b = some .comment ↔
    highlighter.categoryAt text b = some .comment := by
  have hback : ∀ r ∈ ([] : List Rule), r.category ≠ .comment := by simp
  rw [categoryAt_highlighter_comment_iff, ← categoryAt_comment_iff hback, List.append_nil]

/-- **The comment bytes** are those of the block comments and of the line tails that meet none. No
rule behind the two comment rules adds one or takes one away. -/
theorem categoryAt_eq_comment_iff (text : Text) (b : Nat) :
    (highlighter.categoryAt text b = some .comment ↔ InComment text b) ∧
      ∀ n, (Highlighter.categoryAt ⟨rules.take (n + 2)⟩ text b = some .comment ↔
        InComment text b) := by
  refine ⟨categoryAt_highlighter_comment_iff, fun n => ?_⟩
  rw [rules_eq]
  exact categoryAt_comment_iff fun r hr => category_ne_comment r (List.mem_of_mem_take hr)

/-! ## The line from a marker on -/

/-- The tail of the line in which a `//` stands. -/
theorem exists_lineTail {a w z : Text} (hw : BreakFree w) (hz : AtBreak z) :
    ∃ r, LineTail (marked a w z) r ∧ r.start ≤ a.byteLength ∧ r.stop = (markedRange a w).stop := by
  have hm : MatchesAt linePattern (marked a w z) (markedRange a w) :=
    matchesAt_linePattern_iff.mpr ⟨a, w, z, rfl, hw, hz, rfl⟩
  rcases mem_or_exists_of_matchesAt rfl hm with hr | ⟨r, hr, hlt, hgt⟩
  · exact ⟨_, mem_findAll_linePattern_iff.mp hr, Nat.le_refl _, rfl⟩
  · refine ⟨r, mem_findAll_linePattern_iff.mp hr, Nat.le_of_lt hlt, ?_⟩
    exact stop_eq_of_matchesAt ((mem_findAll_iff rfl).mp hr).1 hm (Nat.le_of_lt hlt) hgt

/-- **The line from `//` on is a comment**, given that the `//` is not in a block comment, iff no
block comment meets the tail of the line: the range from its first `//` on. -/
theorem line_comment_iff {a w z : Text} (hw : BreakFree w) (hz : AtBreak z)
    (hout : ∀ s ∈ matchesOf blockComment (marked a w z), a.byteLength ∉ s) :
    ∃ r, LineTail (marked a w z) r ∧ r.start ≤ a.byteLength ∧ r.stop = (markedRange a w).stop ∧
      ((∀ b ∈ markedRange a w, highlighter.categoryAt (marked a w z) b = some .comment) ↔
        ∀ s ∈ matchesOf blockComment (marked a w z), ¬ s.Meets r) := by
  obtain ⟨r, hr, hstart, hstop⟩ := exists_lineTail (a := a) hw hz
  refine ⟨r, hr, hstart, hstop, fun hall => ?_, fun hno b hb => ?_⟩
  · have hlt : a.byteLength < (a ++ '/' :: '/' :: w).byteLength := by
      have := Text.byteLength_pos (w := '/' :: '/' :: w) (by simp)
      rw [Text.byteLength_append]
      omega
    have hmem : a.byteLength ∈ r := ⟨hstart, hstop ▸ hlt⟩
    obtain ⟨r', hs | ⟨hr', hno⟩, hb⟩ :=
      categoryAt_highlighter_comment_iff.mp (hall a.byteLength ⟨Nat.le_refl _, hlt⟩)
    · exact absurd hb (hout r' hs)
    · -- the byte is in one tail only
      rcases eq_or_apart_of_mem_findAll (mem_findAll_linePattern_iff.mpr hr)
        (mem_findAll_linePattern_iff.mpr hr') with rfl | hap | hap
      · exact hno
      · exact absurd ⟨_, hmem, hb⟩ (ByteRange.not_meets_of_stop_le hap)
      · exact absurd ⟨_, hb, hmem⟩ (ByteRange.not_meets_of_stop_le hap)
  · exact categoryAt_highlighter_comment_iff.mpr
      ⟨r, Or.inr ⟨hr, hno⟩, Nat.le_trans hstart hb.1, hstop ▸ hb.2⟩

/-- The theorem for `x // y // z` in the first of two lines, from the second `//` on. -/
theorem line_comment_iff_words :
    BreakFree " z".toList ∧ AtBreak "\n".toList ∧
      (∀ s ∈ matchesOf blockComment (marked "x // y ".toList " z".toList "\n".toList),
        Text.byteLength "x // y ".toList ∉ s) ∧
      ∃ r, LineTail (marked "x // y ".toList " z".toList "\n".toList) r ∧
        r.start ≤ Text.byteLength "x // y ".toList ∧
        r.stop = (markedRange "x // y ".toList " z".toList).stop ∧
        ((∀ b ∈ markedRange "x // y ".toList " z".toList,
            highlighter.categoryAt (marked "x // y ".toList " z".toList "\n".toList) b =
              some .comment) ↔
          ∀ s ∈ matchesOf blockComment (marked "x // y ".toList " z".toList "\n".toList),
            ¬ s.Meets r) := by
  have hw : BreakFree " z".toList := by decide
  have hz : AtBreak "\n".toList := by decide
  have hout : ∀ s ∈ matchesOf blockComment (marked "x // y ".toList " z".toList "\n".toList),
      Text.byteLength "x // y ".toList ∉ s := by decide +kernel
  exact ⟨hw, hz, hout, line_comment_iff hw hz hout⟩

/-- **Not every line is a comment** from a `//` outside of block comments on: in `// /**/` the tail
of the line meets a block comment, and is dropped. -/
theorem not_every_line_comment : ¬ ∀ a w z : Text, BreakFree w → AtBreak z →
    (∀ s ∈ matchesOf blockComment (marked a w z), a.byteLength ∉ s) →
    ∀ b ∈ markedRange a w, highlighter.categoryAt (marked a w z) b = some .comment := by
  intro h
  have hfirst := h [] " /**/".toList [] (by decide) (by decide) (by decide +kernel) 0 (by decide)
  exact absurd (categoryAt_comments_iff.mpr hfirst) (by decide +kernel)

end FaustLens.Faust
