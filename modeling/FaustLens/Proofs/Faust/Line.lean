import FaustLens.Proofs.Faust.Rules
import FaustLens.Proofs.Pattern.Preferred

/-!
# Line comments

The line comment pattern (`line_comment` in `faust_rules`, `syntax::faust`) matches from any `//` to
the end of the line. A line has at most one match of it, the one from its first `//`, because this
match takes the rest of the line along (`LineTail`).

Results:
* `matchesAt_linePattern_iff`: where the pattern matches.
* `mem_findAll_linePattern_iff`: its matches in a text are the tails of its lines.
-/

namespace FaustLens.Faust

open Cursor (between)
open Pattern

/-! ## Lines -/

/-- The character ends a line. -/
def IsBreak (c : Char) : Prop := c = '\r' ∨ c = '\n'

instance (c : Char) : Decidable (IsBreak c) := inferInstanceAs (Decidable (_ ∨ _))

/-- The text is a part of one line. -/
def BreakFree (w : Text) : Prop := ∀ c ∈ w, ¬ IsBreak c

instance (w : Text) : Decidable (BreakFree w) := List.decidableBAll _ w

/-- The text is empty or begins with the end of a line. -/
def AtBreak (z : Text) : Prop := ∀ c ∈ z.head?, IsBreak c

instance (z : Text) : Decidable (AtBreak z) := Option.decidableForallMem z.head?

/-- `line` is a line of the text, without the characters that end it. -/
structure IsLine (text before line after : Text) : Prop where
  text_eq : text = before ++ line ++ after
  breakFree : BreakFree line
  start : ∀ c ∈ before.getLast?, IsBreak c
  stop : AtBreak after

/-- The range goes from the first `//` of a line to the end of the line. -/
def LineTail (text : Text) (r : ByteRange) : Prop :=
  ∃ before lead tail after, IsLine text before (lead ++ '/' :: '/' :: tail) after ∧
    ¬ ['/', '/'] <:+: lead ++ ['/'] ∧
    r = ⟨(before ++ lead).byteLength, (before ++ lead ++ '/' :: '/' :: tail).byteLength⟩

/-- A text with `//` and then `w` between `a` and `z`. -/
def marked (a w z : Text) : Text := a ++ '/' :: '/' :: w ++ z

/-- The range of `//` and `w` in such a text. -/
def markedRange (a w : Text) : ByteRange := ⟨a.byteLength, (a ++ '/' :: '/' :: w).byteLength⟩

theorem breakFree_append {v w : Text} : BreakFree (v ++ w) ↔ BreakFree v ∧ BreakFree w :=
  List.forall_mem_append

theorem breakFree_marker_append {w : Text} : BreakFree ('/' :: '/' :: w) ↔ BreakFree w := by
  simp [BreakFree, IsBreak]

/-- A line ends in one way: behind a part of it, the rest is what comes before the next break. -/
theorem eq_of_atBreak {v w y z : Text} (hv : BreakFree v) (hw : BreakFree w) (hy : AtBreak y)
    (hz : AtBreak z) (h : v ++ y = w ++ z) : v = w ∧ y = z :=
  Text.eq_of_run hv hw (fun c hc => not_not.mpr (hy c hc)) (fun c hc => not_not.mpr (hz c hc)) h

/-- Every text ends with a part of a line, from the last break on. -/
theorem exists_lead : ∀ a : Text, ∃ before lead, a = before ++ lead ∧ BreakFree lead ∧
    ∀ c ∈ before.getLast?, IsBreak c
  | [] => ⟨[], [], rfl, by simp [BreakFree], by simp⟩
  | c :: a => by
    obtain ⟨before, lead, rfl, hlead, hbefore⟩ := exists_lead a
    cases before with
    | cons d before =>
      refine ⟨c :: d :: before, lead, rfl, hlead, fun x hx => hbefore x ?_⟩
      rwa [List.getLast?_cons_cons] at hx
    | nil =>
      by_cases hc : IsBreak c
      · exact ⟨[c], lead, rfl, hlead, fun x hx => Option.some.inj hx ▸ hc⟩
      · refine ⟨[], c :: lead, rfl, fun x hx => ?_, by simp⟩
        rcases List.mem_cons.mp hx with rfl | hx
        · exact hc
        · exact hlead x hx

/-! ## The pattern -/

/-- What a line comment takes: the characters that end no line. -/
def lineSet : CharSet := .compl (.union (.single '\r') (.single '\n'))

theorem contains_lineSet (c : Char) : lineSet.contains c = true ↔ ¬ IsBreak c := by
  have hset : lineSet.contains c =
      !((CharSet.single '\r').contains c || (CharSet.single '\n').contains c) := rfl
  rw [hset, CharSet.contains_single, CharSet.contains_single, Bool.not_eq_true', Bool.or_eq_false_iff,
    beq_eq_false_iff_ne, beq_eq_false_iff_ne, IsBreak, not_or]
  exact and_congr ne_comm ne_comm

theorem breakFree_takeWhile (b : Text) : BreakFree (b.takeWhile lineSet.contains) := fun c hc =>
  (contains_lineSet c).mp (List.all_eq_true.mp List.all_takeWhile c hc)

theorem atBreak_dropWhile (b : Text) : AtBreak (b.dropWhile lineSet.contains) := by
  intro c hc
  have hnot := List.head?_dropWhile_not lineSet.contains b
  rw [Option.mem_def.mp hc] at hnot
  by_contra hbreak
  exact absurd ((contains_lineSet c).mpr hbreak) (by simpa using hnot)

/-- What the pattern prefers: the whole rest of the line behind two slashes. -/
theorem preferred_linePattern (size : Nat) (a rest : Text) :
    preferred size linePattern (between a ('/' :: '/' :: rest)) =
      some (between (a ++ '/' :: '/' :: rest.takeWhile lineSet.contains)
        (rest.dropWhile lineSet.contains)) := by
  rw [preferred_eq_findSome?, linePattern, findSome?_ends_cat, findSome?_ends_cat,
    findSome?_ends_one]
  simp only [between, CharSet.contains_single, beq_self_eq_true, if_true]
  rw [findSome?_ends_one]
  simp only [Cursor.past, CharSet.contains_single, beq_self_eq_true, if_true]
  rw [← preferred_eq_findSome?]
  refine (preferred_run size lineSet _).trans (congrArg some ?_)
  simp [Cursor.skip, List.getLast?_append, Text.byteLength_append, List.getLast?_cons, Nat.add_assoc]

theorem exists_of_preferred_linePattern {size : Nat} {a b : Text} {e : Cursor}
    (h : preferred size linePattern (between a b) = some e) : ∃ rest, b = '/' :: '/' :: rest := by
  have he := mem_of_preferred h
  obtain ⟨d, hd, -⟩ := List.mem_flatMap.mp (mem_of_mem_distinct he)
  obtain ⟨c, hc, hd⟩ := List.mem_flatMap.mp (mem_of_mem_distinct hd)
  obtain ⟨x, hx, hrest, -⟩ := exists_of_mem_ends_one hc
  obtain ⟨y, hy, hrest', -⟩ := exists_of_mem_ends_one hd
  rw [CharSet.contains_single, beq_iff_eq] at hx hy
  subst hx hy
  have hb : b = '/' :: c.rest := hrest
  exact ⟨d.rest, by rw [hb, hrest']; rfl⟩

theorem preferred_linePattern_iff {size : Nat} {a b : Text} {e : Cursor} :
    preferred size linePattern (between a b) = some e ↔ ∃ w z, b = '/' :: '/' :: w ++ z ∧
      BreakFree w ∧ AtBreak z ∧ e = between (a ++ '/' :: '/' :: w) z := by
  constructor
  · intro h
    obtain ⟨rest, rfl⟩ := exists_of_preferred_linePattern h
    rw [preferred_linePattern] at h
    refine ⟨_, _, ?_, breakFree_takeWhile rest, atBreak_dropWhile rest, (Option.some.inj h).symm⟩
    rw [List.cons_append, List.cons_append, List.takeWhile_append_dropWhile]
  · rintro ⟨w, z, rfl, hw, hz, rfl⟩
    have hrest : w ++ z = (w ++ z).takeWhile lineSet.contains ++ (w ++ z).dropWhile lineSet.contains :=
      List.takeWhile_append_dropWhile.symm
    obtain ⟨hw', hz'⟩ := eq_of_atBreak hw (breakFree_takeWhile _) hz (atBreak_dropWhile _) hrest
    rw [List.cons_append, List.cons_append, preferred_linePattern, ← hw', ← hz']

/-- **Where the line comment pattern matches**: at two slashes, up to the end of the line. -/
theorem matchesAt_linePattern_iff {text : Text} {r : ByteRange} :
    MatchesAt linePattern text r ↔ ∃ a w z, text = a ++ '/' :: '/' :: w ++ z ∧ BreakFree w ∧
      AtBreak z ∧ r = ⟨a.byteLength, (a ++ '/' :: '/' :: w).byteLength⟩ := by
  constructor
  · rintro ⟨a, b, e, rfl, he, rfl⟩
    obtain ⟨w, z, rfl, hw, hz, rfl⟩ := preferred_linePattern_iff.mp he
    exact ⟨a, w, z, (List.append_assoc _ _ _).symm, hw, hz, rfl⟩
  · rintro ⟨a, w, z, rfl, hw, hz, rfl⟩
    exact ⟨a, _, _, List.append_assoc _ _ _, preferred_linePattern_iff.mpr ⟨w, z, rfl, hw, hz, rfl⟩,
      rfl⟩

/-! ## The matches -/

/-- Two matches of which the second starts inside the first stop together, at the end of the line. -/
theorem stop_eq_of_matchesAt {text : Text} {r r' : ByteRange} (h : MatchesAt linePattern text r)
    (h' : MatchesAt linePattern text r') (hle : r.start ≤ r'.start) (hlt : r'.start < r.stop) :
    r.stop = r'.stop := by
  obtain ⟨a, w, z, rfl, hw, hz, rfl⟩ := matchesAt_linePattern_iff.mp h
  obtain ⟨a', w', z', htext, hw', hz', rfl⟩ := matchesAt_linePattern_iff.mp h'
  rw [List.append_assoc, List.append_assoc] at htext
  obtain ⟨m, rfl, hrest⟩ := Text.exists_middle htext hle
  have hm : m.byteLength ≤ Text.byteLength ('/' :: '/' :: w) := by
    simp only [Text.byteLength_append] at hlt
    omega
  obtain ⟨m', hmw, hrest'⟩ := Text.exists_middle hrest.symm hm
  have hm' : BreakFree m' := (breakFree_append.mp (hmw ▸ breakFree_marker_append.mpr hw)).2
  obtain ⟨rfl, -⟩ := eq_of_atBreak (breakFree_marker_append.mpr hw') hm' hz' hz hrest'
  simp only
  rw [hmw, List.append_assoc]

theorem lineTail_of_mem_findAll {text : Text} {r : ByteRange} (h : r ∈ linePattern.findAll text) :
    LineTail text r := by
  obtain ⟨hm, hfree⟩ := (mem_findAll_iff rfl).mp h
  obtain ⟨a, w, z, rfl, hw, hz, rfl⟩ := matchesAt_linePattern_iff.mp hm
  obtain ⟨before, lead, rfl, hlead, hbefore⟩ := exists_lead a
  refine ⟨before, lead, w, z, ⟨by simp, ?_, hbefore, hz⟩, ?_, rfl⟩
  · exact breakFree_append.mpr ⟨hlead, breakFree_marker_append.mpr hw⟩
  · rintro ⟨(s : Text), (s' : Text), hs⟩
    -- the earlier `//` would be inside an earlier match, which takes the rest of the line along
    have hline : lead ++ '/' :: '/' :: w = s ++ '/' :: '/' :: (s' ++ '/' :: w) := by
      have := congrArg (· ++ '/' :: w) hs
      simpa using this.symm
    have hstart : s.byteLength < lead.byteLength := by
      have hslash : '/'.utf8Size = 1 := by decide
      have := congrArg Text.byteLength hs
      simp only [Text.byteLength_append, Text.byteLength_cons, Text.byteLength_nil, hslash] at this
      omega
    have hearly : MatchesAt linePattern (before ++ lead ++ '/' :: '/' :: w ++ z)
        ⟨(before ++ s).byteLength, (before ++ lead ++ '/' :: '/' :: w).byteLength⟩ := by
      refine matchesAt_linePattern_iff.mpr ⟨before ++ s, s' ++ '/' :: w, z, ?_, ?_, hz, ?_⟩
      · rw [List.append_assoc before, hline]
        simp
      · have hfree := breakFree_append.mpr ⟨hlead, breakFree_marker_append.mpr hw⟩
        rw [hline] at hfree
        exact breakFree_marker_append.mp (breakFree_append.mp hfree).2
      · rw [List.append_assoc before lead, hline, List.append_assoc before s]
    have hlt : (before ++ s).byteLength < (before ++ lead).byteLength := by
      rw [Text.byteLength_append, Text.byteLength_append]
      omega
    have hstop : (before ++ lead).byteLength < (before ++ lead ++ '/' :: '/' :: w).byteLength := by
      have := Text.byteLength_pos (w := '/' :: '/' :: w) (by simp)
      rw [Text.byteLength_append (before ++ lead)]
      omega
    rcases mem_or_exists_of_matchesAt rfl hearly with hmem | ⟨r', hr', hlt', hgt'⟩
    · exact absurd (hfree _ hmem hlt) (Nat.not_le_of_lt hstop)
    · have heq := stop_eq_of_matchesAt ((mem_findAll_iff rfl).mp hr').1 hearly
        (Nat.le_of_lt hlt') hgt'
      have hle := hfree r' hr' (Nat.lt_trans hlt' hlt)
      rw [heq] at hle
      exact absurd hle (Nat.not_le_of_lt hstop)

/-- Where a slash follows `lead`, a `//` that starts in `lead` lies in `lead` and this slash. -/
theorem infix_of_eq_append {lead m x y : Text} (h : lead ++ '/' :: x = m ++ '/' :: '/' :: y)
    (hlt : m.byteLength < lead.byteLength) : ['/', '/'] <:+: lead ++ ['/'] := by
  obtain ⟨m', rfl, hrest⟩ := Text.exists_middle h.symm (Nat.le_of_lt hlt)
  cases m' with
  | nil => simp at hlt
  | cons c m' =>
    obtain ⟨rfl, hsecond⟩ := List.cons.inj hrest
    cases m' with
    | nil => exact ⟨m, [], by simp⟩
    | cons c m' =>
      obtain ⟨rfl, -⟩ := List.cons.inj hsecond
      exact ⟨m, m' ++ ['/'], by simp⟩

/-- A `//` that starts before a line ends, with the rest of its own line, before that line. -/
theorem byteLength_le_of_eq_append {before a w x z : Text} (hw : BreakFree w)
    (hbefore : ∀ c ∈ before.getLast?, IsBreak c) (h : before ++ x = a ++ ('/' :: '/' :: w ++ z))
    (hlt : a.byteLength < before.byteLength) :
    (a ++ '/' :: '/' :: w).byteLength ≤ before.byteLength := by
  by_contra hgt
  obtain ⟨m, rfl, hrest⟩ := Text.exists_middle h.symm (Nat.le_of_lt hlt)
  rw [Text.byteLength_append] at hlt
  rw [Text.byteLength_append, Text.byteLength_append] at hgt
  obtain ⟨m', hm', -⟩ := Text.exists_middle hrest.symm (by omega)
  cases hlast : m.getLast? with
  | none =>
    rw [List.getLast?_eq_none_iff.mp hlast] at hlt
    simp at hlt
  | some c =>
    have hbreak : IsBreak c := hbefore c (by rw [List.getLast?_append, hlast]; rfl)
    refine breakFree_marker_append.mpr hw c ?_ hbreak
    rw [hm']
    exact List.mem_append_left _ (List.mem_of_getLast? hlast)

theorem mem_findAll_of_lineTail {text : Text} {r : ByteRange} (h : LineTail text r) :
    r ∈ linePattern.findAll text := by
  obtain ⟨before, lead, tail, after, ⟨rfl, hline, hbefore, hafter⟩, hfirst, rfl⟩ := h
  have htail := breakFree_marker_append.mp (breakFree_append.mp hline).2
  refine (mem_findAll_iff rfl).mpr ⟨matchesAt_linePattern_iff.mpr
    ⟨before ++ lead, tail, after, by simp, htail, hafter, rfl⟩, fun r' hr' hlt => ?_⟩
  obtain ⟨a, w, z, htext, hw, hz, rfl⟩ :=
    matchesAt_linePattern_iff.mp ((mem_findAll_iff rfl).mp hr').1
  rw [List.append_assoc before, List.append_assoc a] at htext
  have hlt : a.byteLength < (before ++ lead).byteLength := hlt
  rw [Text.byteLength_append before lead] at hlt ⊢
  by_cases hle : before.byteLength ≤ a.byteLength
  · -- the match would start in the lead, where there is no `//`
    obtain ⟨m, rfl, hrest⟩ := Text.exists_middle htext hle
    rw [Text.byteLength_append] at hlt
    rw [List.append_assoc lead] at hrest
    exact absurd (infix_of_eq_append hrest (by omega)) hfirst
  · have hstop := byteLength_le_of_eq_append hw hbefore htext (Nat.lt_of_not_le hle)
    exact Nat.le_trans hstop (Nat.le_add_right _ _)

/-- **The matches of the line comment pattern** are the tails of the lines. -/
theorem mem_findAll_linePattern_iff {text : Text} {r : ByteRange} :
    r ∈ linePattern.findAll text ↔ LineTail text r :=
  ⟨lineTail_of_mem_findAll, mem_findAll_of_lineTail⟩

end FaustLens.Faust
