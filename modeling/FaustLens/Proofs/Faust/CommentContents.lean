import FaustLens.Proofs.Faust.Comment
import FaustLens.Proofs.Faust.StringLiteral
import FaustLens.Proofs.Pattern.Splice

/-!
# What is inside a line comment

What an accepted line comment contains hardly matters for the text around it. Comments and strings
begin and end with characters that the rules for code match alone or not at all, so no match of these
rules goes across the edge of a claim, and none comes out of the comment. The string rule is
different: a quote in the comment may open or close a match of it, and then other quotes pair up in
the code. So only strings can change (`Recommented`), and they do not if no string match across an
edge of the comment changes, in particular if there is no quote in the comment.

Results:
* `categoryAt_eq_outside`: what the contents of a line comment can change around it, and when.
* `not_inert_comment`: a quote in the comment takes a string in the code away.
-/

namespace FaustLens.Faust

open Hit Pattern

/-! ## The claims -/

/-- The rules that claim what they match. -/
def exclusiveRules : List Rule := commentRules ++ [stringRule]

/-- The range is a match of the string rule that no comment meets. -/
def StringRange (text : Text) (r : ByteRange) : Prop :=
  r ∈ matchesOf stringLiteral text ∧ ∀ c, CommentRange text c → ¬ c.Meets r

variable {text : Text} {b : Nat}

theorem highlighter_eq : highlighter = ⟨exclusiveRules ++ codeRules⟩ := by
  unfold highlighter
  rw [rules_eq]
  rfl

theorem exclusive_of_mem_exclusiveRules : ∀ r ∈ exclusiveRules, r.exclusive = true := by
  simp [exclusiveRules, commentRules, blockRule, lineRule, stringRule]

theorem matchesOf_stringLiteral (text : Text) :
    matchesOf stringLiteral text = stringPattern.findAll text := by
  unfold matchesOf
  rw [stringLiteral_eq]
  rfl

theorem intersects_afterComments_eq_false_iff {m : ByteRange} :
    (ClaimedRanges.empty.afterHits (Highlighter.hits ⟨commentRules⟩ text)).intersects m = false ↔
      ∀ c, CommentRange text c → ¬ c.Meets m := by
  rw [← Bool.not_eq_true, intersects_afterHits_iff
    (Highlighter.exclusive_of_mem_hits exclusive_of_mem_commentRules)]
  constructor
  · intro h c hc hm
    obtain ⟨g, hg, rfl⟩ := exists_accepted_iff_commentRange.mpr hc
    exact h ⟨g, hg, hm⟩
  · rintro h ⟨g, hg, hm⟩
    exact h g.range (exists_accepted_iff_commentRange.mp ⟨g, hg, rfl⟩) hm

/-- The accepted matches of the exclusive rules are the comments and the strings. -/
theorem mem_accepted_exclusive_iff {g : Hit} :
    g ∈ accepted .empty (Highlighter.hits ⟨exclusiveRules⟩ text) ↔
      g ∈ accepted .empty (Highlighter.hits ⟨commentRules⟩ text) ∨
        (g.rule = stringRule ∧ StringRange text g.range) := by
  have hhits : Highlighter.hits ⟨[stringRule]⟩ text = stringRule.hits text := by
    simp [Highlighter.hits, Rule.hits]
  unfold exclusiveRules
  rw [Highlighter.hits_append, accepted_append, List.mem_append, hhits,
    accepted_hits (ClaimedRanges.ordered_afterHits ClaimedRanges.ordered_empty _)]
  refine or_congr_right ?_
  unfold StringRange
  rw [matchesOf_stringLiteral, ← intersects_afterComments_eq_false_iff]
  simp only [List.mem_map, List.mem_filter, Bool.not_eq_true']
  constructor
  · rintro ⟨m, hm, rfl⟩
    exact ⟨rfl, hm⟩
  · rintro ⟨hr, hm⟩
    exact ⟨g.range, hm, hr ▸ rfl⟩

/-- The string bytes under the exclusive rules and any rules of other categories behind them. -/
theorem categoryAt_string_iff {back : List Rule} (hback : ∀ r ∈ back, r.category ≠ .string) :
    Highlighter.categoryAt ⟨exclusiveRules ++ back⟩ text b = some .string ↔
      ∃ r, StringRange text r ∧ b ∈ r := by
  rw [Highlighter.categoryAt_eq_some_iff (by simp) exclusive_of_mem_exclusiveRules hback]
  constructor
  · rintro ⟨g, hg, hcat, hb⟩
    rcases mem_accepted_exclusive_iff.mp hg with hg | ⟨-, hr⟩
    · rw [category_of_mem_accepted hg] at hcat
      exact absurd hcat (by simp)
    · exact ⟨g.range, hr, hb⟩
  · rintro ⟨r, hr, hb⟩
    exact ⟨⟨stringRule, r⟩, mem_accepted_exclusive_iff.mpr (Or.inr ⟨rfl, hr⟩), rfl, hb⟩

theorem categoryAt_highlighter_string_iff :
    highlighter.categoryAt text b = some .string ↔ ∃ r, StringRange text r ∧ b ∈ r := by
  rw [highlighter_eq]
  exact categoryAt_string_iff fun r hr => (codeRule_of_mem r hr).category_ne_string

/-- The exclusive rules alone already give the string bytes. -/
theorem categoryAt_strings_iff : Highlighter.categoryAt ⟨exclusiveRules⟩ text b = some .string ↔
    highlighter.categoryAt text b = some .string := by
  have hback : ∀ r ∈ ([] : List Rule), r.category ≠ .string := by simp
  rw [categoryAt_highlighter_string_iff, ← categoryAt_string_iff hback, List.append_nil]

/-! ## No match for code goes across the edge of a claim -/

theorem fenced_of_lineTail {r : ByteRange} (h : LineTail text r) : Fenced fence text r := by
  obtain ⟨before, lead, tail, after, ⟨rfl, -, -, hafter⟩, -, rfl⟩ := h
  refine ⟨before ++ lead, '/' :: '/' :: tail, after, ⟨by simp, rfl⟩, ⟨'/', rfl, by decide⟩,
    Or.inr fun x hx => ?_⟩
  rcases hafter x hx with rfl | rfl <;> decide

theorem fenced_of_mem_findAll {p : Pattern} {x y : Char} (hp : p.nullable = false)
    (hbegins : p.beginsWith x = true) (hends : p.endsWith y = true) (hx : x ∈ fence)
    (hy : y ∈ fence) {r : ByteRange} (h : r ∈ p.findAll text) : Fenced fence text r :=
  fenced_of_matchesAt hbegins hends hx hy ((mem_findAll_iff hp).mp h).1

theorem fenced_of_mem_accepted {g : Hit}
    (hg : g ∈ accepted .empty (Highlighter.hits ⟨exclusiveRules⟩ text)) :
    Fenced fence text g.range := by
  rcases mem_accepted_exclusive_iff.mp hg with hg | ⟨-, hs, -⟩
  · rcases exists_accepted_iff_commentRange.mp ⟨g, hg, rfl⟩ with hr | ⟨hr, -⟩
    · rw [matchesOf_blockComment] at hr
      exact fenced_of_mem_findAll (x := '/') (y := '/') (by decide) (by decide) (by decide)
        (by decide) (by decide) hr
    · exact fenced_of_lineTail hr
  · rw [matchesOf_stringLiteral] at hs
    exact fenced_of_mem_findAll (x := '"') (y := '"') (by decide) (by decide) (by decide)
      (by decide) (by decide) hs

theorem regular_of_mem {r : Rule} (hr : r ∈ exclusiveRules ∨ r ∈ codeRules) : Regular r := by
  have hrules : rules = exclusiveRules ++ codeRules := rules_eq
  exact regular_of_mem_rules r (hrules ▸ List.mem_append.mpr hr)

/-- A match of a rule for code that meets a fenced range lies inside of it. -/
theorem inside_of_mem_codeRules {r : Rule} (hr : r ∈ codeRules) {m c : ByteRange}
    (hm : m ∈ r.findAll text) (hc : Fenced fence text c) (hmeets : m.Meets c) : m.Inside c := by
  have hreg := regular_of_mem (Or.inr hr)
  exact inside_of_fenced hreg.steady (codeRule_of_mem r hr).lone
    ((mem_findAll_iff hreg.moves).mp hm).1 hc hmeets

/-- The category that the rules for code alone give a byte. -/
def codeCategory (text : Text) (b : Nat) : Category :=
  categoryOf b (Highlighter.hits ⟨codeRules⟩ text)

/-- **Outside of comments and strings** the rules for code decide alone. -/
theorem categoryAt_eq_codeCategory (hc : highlighter.categoryAt text b ≠ some .comment)
    (hs : highlighter.categoryAt text b ≠ some .string) (hb : b < text.byteLength) :
    highlighter.categoryAt text b = some (codeCategory text b) := by
  have hno : ∀ g ∈ accepted .empty (Highlighter.hits ⟨exclusiveRules⟩ text), b ∉ g.range := by
    intro g hg hbg
    rcases mem_accepted_exclusive_iff.mp hg with hg | ⟨-, hr⟩
    · exact hc (categoryAt_highlighter_comment_iff.mpr
        ⟨g.range, exists_accepted_iff_commentRange.mp ⟨g, hg, rfl⟩, hbg⟩)
    · exact hs (categoryAt_highlighter_string_iff.mpr ⟨g.range, hr, hbg⟩)
  rw [highlighter_eq]
  refine Highlighter.categoryAt_of_not_claimed exclusive_of_mem_exclusiveRules
    (fun r hr => (codeRule_of_mem r hr).not_exclusive) (fun h hh g hg hmeets => ?_) hno hb
  obtain ⟨hr, hm⟩ := Highlighter.mem_hits_iff.mp hh
  exact inside_of_mem_codeRules hr hm (fenced_of_mem_accepted hg) hmeets

/-! ## Two texts with different contents of a comment -/

/-- The range is that of an accepted match of the line comment rule. -/
def AcceptedLineComment (text : Text) (r : ByteRange) : Prop :=
  ∃ g ∈ accepted .empty (highlighter.hits text), g.rule.name = "line_comment" ∧ g.range = r

theorem acceptedLineComment_iff {r : ByteRange} : AcceptedLineComment text r ↔
    LineTail text r ∧ ∀ s ∈ matchesOf blockComment text, ¬ s.Meets r := by
  unfold AcceptedLineComment
  rw [highlighter_eq, Highlighter.hits_append, accepted_append]
  constructor
  · rintro ⟨g, hg, hname, rfl⟩
    rcases List.mem_append.mp hg with hg | hg
    · rcases mem_accepted_exclusive_iff.mp hg with hg | ⟨hr, -⟩
      · rcases mem_accepted_comments_iff.mp hg with ⟨hr, -⟩ | ⟨-, hm⟩
        · rw [hr] at hname
          exact absurd hname (by decide)
        · exact hm
      · rw [hr] at hname
        exact absurd hname (by decide)
    · have hr := (Highlighter.mem_hits_iff.mp (mem_of_mem_accepted hg)).1
      exact absurd hname (codeRule_of_mem g.rule hr).name_ne
  · intro hm
    refine ⟨⟨lineRule, r⟩, List.mem_append_left _ (mem_accepted_exclusive_iff.mpr (Or.inl ?_)), rfl,
      rfl⟩
    exact mem_accepted_comments_iff.mpr (Or.inr ⟨rfl, hm⟩)

/-- The texts differ in one line comment, which is accepted in both. -/
structure Recommented (s : Splice) : Prop where
  after : AtBreak s.after
  left : AcceptedLineComment s.left s.hole
  right : AcceptedLineComment s.right s.hole

namespace Recommented

variable {s : Splice}

theorem symm (h : Recommented s) : Recommented s.symm :=
  ⟨h.after, s.hole_symm ▸ h.right, s.hole_symm ▸ h.left⟩

theorem begins (h : Recommented s) {r : Rule} (hr : r ∈ exclusiveRules ∨ r ∈ codeRules) :
    ∀ x ∈ s.after.head?, r.pattern.beginsApart x = true := by
  intro x hx
  rcases h.after x hx with rfl | rfl
  · exact (regular_of_mem hr).beginsApart_cr
  · exact (regular_of_mem hr).beginsApart_lf

/-- For a rule without matches across the edges of the comment, the matches outside are the same. -/
theorem unmoved (h : Recommented s) {r : Rule} (hr : r ∈ exclusiveRules ∨ r ∈ codeRules)
    (hl : ∀ m ∈ r.findAll s.left, ¬ m.Crosses s.hole)
    (hr' : ∀ m ∈ r.findAll s.right, ¬ m.Crosses s.hole) : r.pattern.Unmoved s := by
  have hreg := regular_of_mem hr
  refine ⟨hreg.steady, hreg.moves, h.begins hr, fun m hm _ => ⟨fun hmem => ?_, fun hmem => ?_⟩⟩
  · exact absurd hm (hl m hmem)
  · exact absurd hm (hr' m hmem)

theorem not_crosses_block (h : Recommented s) : ∀ m ∈ blockRule.findAll s.left,
    ¬ m.Crosses s.hole := fun m hm hcr =>
  (acceptedLineComment_iff.mp h.left).2 m (matchesOf_blockComment s.left ▸ hm) hcr.1

theorem unmoved_block (h : Recommented s) : blockPattern.Unmoved s :=
  h.unmoved (r := blockRule) (Or.inl (by simp [exclusiveRules, commentRules])) h.not_crosses_block
    (s.hole_symm ▸ h.symm.not_crosses_block)

/-- A line comment other than the one that differs shares no byte with it. -/
theorem eq_hole_or_not_meets (h : Recommented s) {m : ByteRange}
    (hm : m ∈ linePattern.findAll s.left) : m = s.hole ∨ ¬ m.Meets s.hole := by
  have hhole := mem_findAll_linePattern_iff.mpr (acceptedLineComment_iff.mp h.left).1
  rcases eq_or_apart_of_mem_findAll hm hhole with heq | hap | hap
  · exact Or.inl heq
  · exact Or.inr (ByteRange.not_meets_of_stop_le hap)
  · exact Or.inr fun hmeets => ByteRange.not_meets_of_stop_le hap hmeets.symm

theorem not_crosses_line (h : Recommented s) : ∀ m ∈ lineRule.findAll s.left,
    ¬ m.Crosses s.hole := by
  intro m hm hcr
  rcases h.eq_hole_or_not_meets hm with rfl | hno
  · obtain ⟨-, b, hb, hb'⟩ := hcr
    exact hb' hb
  · exact hno hcr.1

theorem unmoved_line (h : Recommented s) : linePattern.Unmoved s :=
  h.unmoved (r := lineRule) (Or.inl (by simp [exclusiveRules, commentRules])) h.not_crosses_line
    (s.hole_symm ▸ h.symm.not_crosses_line)

theorem not_crosses_code (h : Recommented s) {r : Rule} (hr : r ∈ codeRules) :
    ∀ m ∈ r.findAll s.left, ¬ m.Crosses s.hole := by
  intro m hm hcr
  have hfence := fenced_of_lineTail (acceptedLineComment_iff.mp h.left).1
  obtain ⟨b, hb, hb'⟩ := hcr.2
  exact ByteRange.not_inside_of_mem hb hb' (inside_of_mem_codeRules hr hm hfence hcr.1)

theorem unmoved_code (h : Recommented s) {r : Rule} (hr : r ∈ codeRules) : r.pattern.Unmoved s :=
  h.unmoved (Or.inr hr) (h.not_crosses_code hr) (s.hole_symm ▸ h.symm.not_crosses_code hr)

/-! ### Comments and code -/

/-- No block comment lies inside the comment that differs, so the block comments are the same. -/
theorem not_inside_of_block (h : Recommented s) {m : ByteRange}
    (hm : m ∈ matchesOf blockComment s.left) : ¬ m.Inside s.hole := by
  intro hin
  refine (acceptedLineComment_iff.mp h.left).2 m hm (ByteRange.meets_of_inside hin ?_)
  rw [matchesOf_blockComment] at hm
  exact start_lt_stop_of_mem_findAll h.unmoved_block.moves hm

theorem block_right (h : Recommented s) {m : ByteRange} (hm : m ∈ matchesOf blockComment s.left) :
    m ∈ matchesOf blockComment s.right := by
  have hout := h.not_inside_of_block hm
  rw [matchesOf_blockComment] at hm ⊢
  exact (mem_findAll_iff_of_unmoved h.unmoved_block hout).mp hm

theorem commentRange_right (h : Recommented s) {m : ByteRange} (hm : CommentRange s.left m) :
    CommentRange s.right m := by
  rcases hm with hm | ⟨hm, hno⟩
  · exact Or.inl (h.block_right hm)
  · have hblocks : ∀ c ∈ matchesOf blockComment s.right, ¬ c.Meets m := fun c hc =>
      hno c (h.symm.block_right hc)
    have hmem := mem_findAll_linePattern_iff.mpr hm
    by_cases hin : m.Inside s.hole
    · have hmeets := ByteRange.meets_of_inside hin (start_lt_stop_of_mem_findAll rfl hmem)
      rw [(h.eq_hole_or_not_meets hmem).resolve_right fun hno => hno hmeets]
      exact Or.inr (acceptedLineComment_iff.mp h.right)
    · have hmem' := (mem_findAll_iff_of_unmoved h.unmoved_line hin).mp hmem
      exact Or.inr ⟨mem_findAll_linePattern_iff.mp hmem', hblocks⟩

/-- **The comments are the same.** -/
theorem commentRange_iff (h : Recommented s) {m : ByteRange} :
    CommentRange s.left m ↔ CommentRange s.right m :=
  ⟨h.commentRange_right, h.symm.commentRange_right⟩

theorem comment_iff (h : Recommented s) : highlighter.categoryAt s.left b = some .comment ↔
    highlighter.categoryAt s.right b = some .comment := by
  rw [categoryAt_highlighter_comment_iff, categoryAt_highlighter_comment_iff, InComment, InComment]
  simp only [h.commentRange_iff]

/-- **The rules for code** find the same outside of the comment. -/
theorem codeCategory_eq (h : Recommented s) (hb : b ∉ s.hole) :
    codeCategory s.left b = codeCategory s.right b := by
  unfold codeCategory categoryOf
  rw [lastAt?_hits_congr fun r hr m hbm =>
    mem_findAll_iff_of_unmoved (h.unmoved_code hr) (ByteRange.not_inside_of_mem hbm hb)]

theorem byteLength_eq (s : Splice) : s.left.byteLength = s.right.byteLength := by
  simp only [Splice.left, Splice.right, Text.byteLength_append, Text.byteLength_cons, s.length_eq]

/-- **Only strings can change**: where a byte outside of the comment is a string in both texts or in
none, its category is the same. -/
theorem categoryAt_eq_of_string_iff (h : Recommented s) (hb : b ∉ s.hole)
    (hs : highlighter.categoryAt s.left b = some .string ↔
      highlighter.categoryAt s.right b = some .string) :
    highlighter.categoryAt s.left b = highlighter.categoryAt s.right b := by
  by_cases hlt : b < s.left.byteLength
  · by_cases hcl : highlighter.categoryAt s.left b = some .comment
    · rw [hcl, h.comment_iff.mp hcl]
    · by_cases hsl : highlighter.categoryAt s.left b = some .string
      · rw [hsl, hs.mp hsl]
      · rw [categoryAt_eq_codeCategory hcl hsl hlt, h.codeCategory_eq hb,
          categoryAt_eq_codeCategory (mt h.comment_iff.mpr hcl) (mt hs.mpr hsl)
            (byteLength_eq s ▸ hlt)]
  · rw [Highlighter.categoryAt_eq_none _ (Nat.le_of_not_lt hlt),
      Highlighter.categoryAt_eq_none _ (byteLength_eq s ▸ Nat.le_of_not_lt hlt)]

/-! ### Strings -/

/-- If the string matches outside of the comment are the same, so are the strings. -/
theorem string_iff (h : Recommented s) (hsame : stringPattern.Unmoved s) (hb : b ∉ s.hole) :
    highlighter.categoryAt s.left b = some .string ↔
      highlighter.categoryAt s.right b = some .string := by
  rw [categoryAt_highlighter_string_iff, categoryAt_highlighter_string_iff]
  refine exists_congr fun m => and_congr_left fun hbm => ?_
  unfold StringRange
  rw [matchesOf_stringLiteral, matchesOf_stringLiteral,
    mem_findAll_iff_of_unmoved hsame (ByteRange.not_inside_of_mem hbm hb)]
  simp only [h.commentRange_iff]

theorem categoryAt_eq_of_unmoved (h : Recommented s) (hsame : stringPattern.Unmoved s)
    (hb : b ∉ s.hole) :
    highlighter.categoryAt s.left b = highlighter.categoryAt s.right b :=
  h.categoryAt_eq_of_string_iff hb (h.string_iff hsame hb)

theorem mem_exclusiveRules : stringRule ∈ exclusiveRules := by simp [exclusiveRules]

theorem unmoved_string_of_crosses (h : Recommented s)
    (hcross : ∀ r : ByteRange, r.Crosses s.hole →
      (r ∈ matchesOf stringLiteral s.left ↔ r ∈ matchesOf stringLiteral s.right)) :
    stringPattern.Unmoved s := by
  have hreg := regular_of_mem (Or.inl mem_exclusiveRules)
  refine ⟨hreg.steady, hreg.moves, h.begins (Or.inl mem_exclusiveRules), fun r hr _ => ?_⟩
  have hcross := hcross r hr
  rwa [matchesOf_stringLiteral, matchesOf_stringLiteral] at hcross

/-- A string match that meets a comment without a quote begins before the comment. -/
theorem start_lt_of_not_mem (hq : '"' ∉ s.first :: s.inner₁) {r : ByteRange}
    (hr : MatchesAt stringPattern s.left r) (hmeets : r.Meets s.hole) :
    r.start < s.hole.start := by
  obtain ⟨a, rest, n, htext, -, rfl⟩ := matchesAt_stringPattern_iff.mp hr
  by_contra hge
  obtain ⟨m, rfl, hrest⟩ :=
    Text.exists_middle (s.left_eq.symm.trans htext) (Nat.le_of_not_lt hge)
  have hlt := (ByteRange.meets_iff.mp hmeets).2.2.1
  simp only [Splice.hole, Text.byteLength_append s.before] at hlt
  obtain ⟨m', hinner, hrest'⟩ := Text.exists_middle hrest.symm (by omega)
  cases m' with
  | nil =>
    have := congrArg Text.byteLength hinner
    rw [List.append_nil] at this
    omega
  | cons c m' =>
    obtain ⟨rfl, -⟩ := List.cons.inj hrest'
    exact hq (by rw [hinner]; simp)

/-- The string pattern passes over a comment without a quote, and it does so in the same way
whatever the comment contains. -/
theorem matchesAt_right_of_not_mem (h : Recommented s) (hq₁ : '"' ∉ s.first :: s.inner₁)
    (hq₂ : '"' ∉ s.first :: s.inner₂) {r : ByteRange} (hr : MatchesAt stringPattern s.left r)
    (hlt : r.start < s.hole.start) : MatchesAt stringPattern s.right r := by
  obtain ⟨a, rest, n, htext, hn, rfl⟩ := matchesAt_stringPattern_iff.mp hr
  have hlt : a.byteLength < s.before.byteLength := hlt
  obtain ⟨m, hm, hrest⟩ :=
    Text.exists_middle (htext.symm.trans s.left_eq) (Nat.le_of_lt hlt)
  cases m with
  | nil =>
    rw [hm, List.append_nil] at hlt
    exact absurd hlt (Nat.lt_irrefl _)
  | cons c m =>
    obtain ⟨rfl, rfl⟩ := List.cons.inj hrest
    have hinner : closing (s.inner₁ ++ s.after) = closing (s.inner₂ ++ s.after) := by
      rw [closing_append_of_not_mem h.after fun hq => hq₁ (List.mem_cons_of_mem _ hq),
        closing_append_of_not_mem h.after fun hq => hq₂ (List.mem_cons_of_mem _ hq), s.length_eq]
    have hpart : closing (s.first :: (s.inner₁ ++ s.after)) =
        closing (s.first :: (s.inner₂ ++ s.after)) := by
      rw [← List.cons_append, ← List.cons_append, closing_append_of_not_mem h.after hq₁,
        closing_append_of_not_mem h.after hq₂, Text.byteLength_cons, Text.byteLength_cons,
        s.length_eq]
    refine matchesAt_stringPattern_iff.mpr
      ⟨a, m ++ s.first :: (s.inner₂ ++ s.after), n, ?_, ?_, rfl⟩
    · unfold Splice.right
      rw [hm]
      simp
    · rw [← closing_congr hinner hpart]
      exact hn

theorem string_right_of_not_mem (h : Recommented s) (hq₁ : '"' ∉ s.first :: s.inner₁)
    (hq₂ : '"' ∉ s.first :: s.inner₂) {r : ByteRange} (hcr : r.Crosses s.hole)
    (hsame : SameBefore stringPattern s r.start) (hr : r ∈ stringPattern.findAll s.left) :
    r ∈ stringPattern.findAll s.right := by
  have hm := ((mem_findAll_iff rfl).mp hr).1
  have hlt := start_lt_of_not_mem hq₁ hm hcr.1
  exact (mem_findAll_iff rfl).mpr ⟨h.matchesAt_right_of_not_mem hq₁ hq₂ hm hlt,
    stop_le_of_sameBefore rfl hsame (Or.inl hlt) hr⟩

/-- **Without quotes in the comment** the string matches across its edges are the same. -/
theorem unmoved_string_of_not_mem (h : Recommented s) (hq₁ : '"' ∉ s.first :: s.inner₁)
    (hq₂ : '"' ∉ s.first :: s.inner₂) : stringPattern.Unmoved s := by
  have hreg := regular_of_mem (Or.inl mem_exclusiveRules)
  refine ⟨hreg.steady, hreg.moves, h.begins (Or.inl mem_exclusiveRules), fun r hr hsame => ?_⟩
  refine ⟨h.string_right_of_not_mem hq₁ hq₂ hr hsame, ?_⟩
  exact h.symm.string_right_of_not_mem hq₂ hq₁ (s.hole_symm.symm ▸ hr) hsame.symm

end Recommented

/-! ## The contents of a line comment -/

/-- **What the contents of a line comment can change**: around an accepted line comment only strings
may change with its contents, and nothing does if the string matches across the edges of the comment
are the same, or if there is no quote in the comment. -/
theorem categoryAt_eq_outside {u c₁ c₂ v : Text} (hlen : c₁.byteLength = c₂.byteLength)
    (hv : AtBreak v) (hacc₁ : AcceptedLineComment (marked u c₁ v) (markedRange u c₁))
    (hacc₂ : AcceptedLineComment (marked u c₂ v) (markedRange u c₂)) :
    (∀ b, b ∉ markedRange u c₁ →
      (highlighter.categoryAt (marked u c₁ v) b = some .string ↔
        highlighter.categoryAt (marked u c₂ v) b = some .string) →
      highlighter.categoryAt (marked u c₁ v) b = highlighter.categoryAt (marked u c₂ v) b) ∧
    ((∀ r : ByteRange, r.Crosses (markedRange u c₁) →
        (r ∈ matchesOf stringLiteral (marked u c₁ v) ↔
          r ∈ matchesOf stringLiteral (marked u c₂ v))) →
      ∀ b, b ∉ markedRange u c₁ →
        highlighter.categoryAt (marked u c₁ v) b = highlighter.categoryAt (marked u c₂ v) b) ∧
    ('"' ∉ c₁ → '"' ∉ c₂ → ∀ b, b ∉ markedRange u c₁ →
      highlighter.categoryAt (marked u c₁ v) b = highlighter.categoryAt (marked u c₂ v) b) := by
  let s : Splice := ⟨u, '/', '/' :: c₁, '/' :: c₂, v, congrArg ('/'.utf8Size + ·) hlen⟩
  have h : Recommented s := ⟨hv, hacc₁, s.hole_symm ▸ hacc₂⟩
  refine ⟨fun b hb => h.categoryAt_eq_of_string_iff hb, fun hcross b hb => ?_,
    fun hq₁ hq₂ b hb => ?_⟩
  · exact h.categoryAt_eq_of_unmoved (h.unmoved_string_of_crosses hcross) hb
  · refine h.categoryAt_eq_of_unmoved (h.unmoved_string_of_not_mem ?_ ?_) hb
    · simpa [s] using hq₁
    · simpa [s] using hq₂

/-- The theorem for a comment that ends with a backslash, between two strings. -/
theorem categoryAt_eq_outside_backslash :
    let u := "\"s\" ".toList
    let v := "\n\"a\"".toList
    (Text.byteLength ['\\'] = Text.byteLength ['x'] ∧ AtBreak v ∧
      AcceptedLineComment (marked u ['\\'] v) (markedRange u ['\\']) ∧
      AcceptedLineComment (marked u ['x'] v) (markedRange u ['x'])) ∧
    ∀ b, b ∉ markedRange u ['\\'] →
      highlighter.categoryAt (marked u ['\\'] v) b =
        highlighter.categoryAt (marked u ['x'] v) b := by
  intro u v
  have hlen : Text.byteLength ['\\'] = Text.byteLength ['x'] := by decide
  have hv : AtBreak v := by decide
  have hacc₁ : AcceptedLineComment (marked u ['\\'] v) (markedRange u ['\\']) := by
    unfold AcceptedLineComment
    decide +kernel
  have hacc₂ : AcceptedLineComment (marked u ['x'] v) (markedRange u ['x']) := by
    unfold AcceptedLineComment
    decide +kernel
  exact ⟨⟨hlen, hv, hacc₁, hacc₂⟩,
    (categoryAt_eq_outside hlen hv hacc₁ hacc₂).2.2 (by decide) (by decide)⟩

/-- **A comment is not inert**: behind `//"` the line `"a"` holds no string, because the quote in the
comment pairs up with its first quote; behind `//x` it does. -/
theorem not_inert_comment : ¬ ∀ u c₁ c₂ v : Text, c₁.byteLength = c₂.byteLength →
    BreakFree c₁ → BreakFree c₂ → AtBreak v →
    AcceptedLineComment (marked u c₁ v) (markedRange u c₁) →
    AcceptedLineComment (marked u c₂ v) (markedRange u c₂) →
    ∀ b, b ∉ markedRange u c₁ →
      highlighter.categoryAt (marked u c₁ v) b = highlighter.categoryAt (marked u c₂ v) b := by
  intro h
  have hfirst := h [] ['"'] ['x'] "\n\"a\"".toList (by decide) (by decide) (by decide) (by decide)
    (by unfold AcceptedLineComment; decide +kernel) (by unfold AcceptedLineComment; decide +kernel)
    4 (by decide)
  have hright : highlighter.categoryAt (marked [] ['x'] "\n\"a\"".toList) 4 = some .string :=
    categoryAt_strings_iff.mp (by decide +kernel)
  rw [hright] at hfirst
  exact absurd (categoryAt_strings_iff.mpr hfirst) (by decide +kernel)

end FaustLens.Faust
