import FaustLens.Proofs.Pattern.Contents

/-!
# Matches around a part that is replaced

Two texts that differ in one part only (`Splice`) need not have the same matches in the rest: a match
that begins before the part may prefer an end behind it, and a match that begins inside it may run on
and cover what follows. Nothing else can happen: if the matches across the edges of the part are the
same in both texts, so are all matches outside of it.

Results:
* `mem_findAll_iff_of_unmoved`: the matches across the edges decide.
-/

namespace FaustLens

/-- Two texts that differ in one part only. Both parts begin with the same character and have the
same length in bytes. -/
structure Splice where
  before : Text
  first : Char
  inner₁ : Text
  inner₂ : Text
  after : Text
  length_eq : inner₁.byteLength = inner₂.byteLength

namespace Splice

/-- The one text. -/
def left (s : Splice) : Text := s.before ++ s.first :: s.inner₁ ++ s.after

/-- The other text. -/
def right (s : Splice) : Text := s.before ++ s.first :: s.inner₂ ++ s.after

/-- The range of the part in which the texts differ. -/
def hole (s : Splice) : ByteRange :=
  ⟨s.before.byteLength, (s.before ++ s.first :: s.inner₁).byteLength⟩

/-- The same two texts in the other order. -/
def symm (s : Splice) : Splice :=
  ⟨s.before, s.first, s.inner₂, s.inner₁, s.after, s.length_eq.symm⟩

variable (s : Splice)

theorem hole_symm : s.symm.hole = s.hole := by
  simp only [hole, symm, Text.byteLength_append, Text.byteLength_cons, s.length_eq]

theorem hole_nonempty : s.hole.start < s.hole.stop := by
  have hpos := s.first.utf8Size_pos
  simp only [hole, Text.byteLength_append, Text.byteLength_cons]
  omega

/-- The texts are alike up to the hole and in the character behind this seam. -/
def seam : Seam where
  offset := s.before.byteLength
  rest₁ := s.first :: s.inner₁ ++ s.after
  rest₂ := s.first :: s.inner₂ ++ s.after
  size₁ := s.left.length
  size₂ := s.right.length
  head_eq := rfl

theorem left_eq : s.left = s.before ++ s.seam.rest₁ := List.append_assoc _ _ _

theorem right_eq : s.right = s.before ++ s.seam.rest₂ := List.append_assoc _ _ _

end Splice

namespace Pattern

open Cursor (between)

/-- The matches outside of the hole that start before an offset are the same in both texts. -/
def SameBefore (p : Pattern) (s : Splice) (n : Nat) : Prop :=
  ∀ r : ByteRange, r.start < n → ¬ r.Inside s.hole → (r ∈ p.findAll s.left ↔ r ∈ p.findAll s.right)

/-- What it takes for the matches outside of the hole to be the same in both texts. For a match
across an edge of the hole, those before it may be taken to be the same. -/
structure Unmoved (p : Pattern) (s : Splice) : Prop where
  steady : p.steady = true
  moves : p.nullable = false
  begins : ∀ x ∈ s.after.head?, p.beginsApart x = true
  crosses : ∀ r : ByteRange, r.Crosses s.hole → SameBefore p s r.start →
    (r ∈ p.findAll s.left ↔ r ∈ p.findAll s.right)

variable {p : Pattern} {s : Splice} {r : ByteRange}

theorem SameBefore.symm {n : Nat} (h : SameBefore p s n) : SameBefore p s.symm n :=
  fun r hr hout => (h r hr (s.hole_symm ▸ hout)).symm

theorem Unmoved.symm (h : p.Unmoved s) : p.Unmoved s.symm :=
  ⟨h.steady, h.moves, h.begins,
    fun r hr hsame => (h.crosses r (s.hole_symm ▸ hr) hsame.symm).symm⟩

/-- Two matches of one pattern that start at the same place are the same. -/
theorem eq_of_start_eq {text : Text} (hp : p.nullable = false) {r' : ByteRange}
    (h : r ∈ p.findAll text) (h' : r' ∈ p.findAll text) (hs : r.start = r'.start) : r = r' := by
  have hlt := start_lt_stop_of_mem_findAll hp h
  have hlt' := start_lt_stop_of_mem_findAll hp h'
  rcases eq_or_apart_of_mem_findAll h h' with he | he | he
  · exact he
  · omega
  · omega

/-- A match before the hole: in the other text the pattern matches there too, unless it prefers an
end in the hole or behind it. -/
theorem exists_matchesAt_before (hp : p.steady = true) (h : MatchesAt p s.left r)
    (hstop : r.stop ≤ s.hole.start) : ∃ stop,
      MatchesAt p s.right ⟨r.start, stop⟩ ∧ (stop = r.stop ∨ s.hole.start < stop) := by
  rw [s.left_eq] at h
  rw [s.right_eq]
  exact exists_matchesAt_of_head?_eq hp s.seam.head_eq h hstop

/-- A match behind the hole: in the other text the pattern matches there too. -/
theorem matchesAt_after (h : p.Unmoved s) (hm : MatchesAt p s.left r)
    (hstart : s.hole.stop ≤ r.start) : MatchesAt p s.right r := by
  obtain ⟨a, b, e, htext, he, rfl⟩ := hm
  obtain ⟨m, rfl, hafter⟩ := Text.exists_middle (a := s.before ++ s.first :: s.inner₁) htext hstart
  have hsize : b.length ≤ s.left.length := htext ▸ (List.suffix_append _ b).length_le
  cases m with
  | nil =>
    -- a match directly behind the hole would begin with the character that follows it
    rw [List.nil_append] at hafter
    subst hafter
    cases hhead : s.after.head? with
    | some x =>
      rw [preferred_eq_none_of_beginsApart h.steady h.moves (h.begins x hhead) hsize hhead] at he
      exact absurd he (by simp)
    | none =>
      have hnil : s.after = [] := List.head?_eq_none_iff.mp hhead
      have he := mem_of_preferred he
      have hlt := lt_of_mem_ends _ h.moves _ e he
      have hadd := (reaches_of_mem_ends _ p _ e he).offset_add
      rw [hnil] at hlt hadd
      simp only [between, Text.byteLength_nil] at hlt hadd
      omega
  | cons c m =>
    have hcur : between (s.before ++ s.first :: s.inner₁ ++ c :: m) b =
        between (s.before ++ s.first :: s.inner₂ ++ c :: m) b := by
      simp only [between, List.getLast?_append, Text.byteLength_append, Text.byteLength_cons,
        s.length_eq, List.getLast?_cons, Option.some_or]
    have hright : s.right = s.before ++ s.first :: s.inner₂ ++ c :: m ++ b := by
      unfold Splice.right
      rw [hafter, List.append_assoc _ (c :: m) b]
    have hsize' : b.length ≤ s.right.length := hright ▸ (List.suffix_append _ b).length_le
    refine ⟨_, b, e, hright, ?_, ?_⟩
    · have hbound : preferred s.left.length p (between (s.before ++ s.first :: s.inner₁ ++ c :: m) b) =
          preferred s.right.length p (between (s.before ++ s.first :: s.inner₁ ++ c :: m) b) :=
        preferred_eq_of_length_le h.steady hsize hsize'
      rw [← hcur, ← hbound]
      exact he
    · exact congrArg (fun cur : Cursor => (⟨cur.offset, e.offset⟩ : ByteRange)) hcur

/-- What a match outside of the hole leaves free is free in the other text too, unless the match
begins in the hole. -/
theorem stop_le_of_sameBefore (hp : p.nullable = false) (hsame : SameBefore p s r.start)
    (hout : r.start < s.hole.start ∨ s.hole.stop ≤ r.start) (hr : r ∈ p.findAll s.left) :
    ∀ r' ∈ p.findAll s.right, r'.start < r.start → r'.stop ≤ r.start := by
  intro r' hr' hlt
  by_cases hin : r'.Inside s.hole
  · have h1 := hin.1
    have h2 := hin.2
    omega
  · exact ((mem_findAll_iff hp).mp hr).2 r' ((hsame r' hlt hin).mpr hr') hlt

theorem mem_right_of_sameBefore (h : p.Unmoved s) (hsame : SameBefore p s r.start)
    (hout : ¬ r.Inside s.hole) (hr : r ∈ p.findAll s.left) : r ∈ p.findAll s.right := by
  have hlt := start_lt_stop_of_mem_findAll h.moves hr
  have hm := ((mem_findAll_iff h.moves).mp hr).1
  rcases ByteRange.inside_or_apart_or_crosses hlt s.hole_nonempty with
    hin | (hbefore | hbehind) | hcr
  · exact absurd hin hout
  · have hstart := Nat.lt_of_lt_of_le hlt hbefore
    have hfree := stop_le_of_sameBefore h.moves hsame (Or.inl hstart) hr
    obtain ⟨stop, hm', hor⟩ := exists_matchesAt_before h.steady hm hbefore
    have hmem := (mem_findAll_iff h.moves).mpr ⟨hm', hfree⟩
    rcases hor with rfl | hgt
    · exact hmem
    · -- such a match would cross the edge of the hole, so the left text would have it too
      have hcr : ByteRange.Crosses ⟨r.start, stop⟩ s.hole := by
        refine ⟨ByteRange.meets_iff.mpr ⟨?_, s.hole_nonempty, ?_, hgt⟩, r.start, ?_, ?_⟩
        · exact Nat.lt_trans hstart hgt
        · exact Nat.lt_trans hstart s.hole_nonempty
        · exact ⟨Nat.le_refl _, Nat.lt_trans hstart hgt⟩
        · exact fun hmem => absurd hmem.1 (Nat.not_le_of_lt hstart)
      have heq := eq_of_start_eq h.moves hr ((h.crosses _ hcr hsame).mpr hmem) rfl
      rw [heq] at hbefore
      exact absurd hbefore (Nat.not_le_of_lt hgt)
  · have hfree := stop_le_of_sameBefore h.moves hsame (Or.inr hbehind) hr
    exact (mem_findAll_iff h.moves).mpr ⟨matchesAt_after h hm hbehind, hfree⟩
  · exact (h.crosses r hcr hsame).mp hr

/-- The induction goes through the matches from left to right: whether a match starts at a place
depends on those before it. -/
theorem sameBefore (h : p.Unmoved s) : ∀ n, SameBefore p s n
  | 0, _, hr, _ => absurd hr (Nat.not_lt_zero _)
  | n + 1, r, hr, hout => by
    have hsame : SameBefore p s r.start := fun r' hr' hout' =>
      sameBefore h n r' (by omega) hout'
    exact ⟨mem_right_of_sameBefore h hsame hout,
      mem_right_of_sameBefore h.symm hsame.symm (s.hole_symm.symm ▸ hout)⟩

/-- **The matches across the edges decide**: if they are the same in both texts, so are all matches
outside of the hole. -/
theorem mem_findAll_iff_of_unmoved (h : p.Unmoved s) (hout : ¬ r.Inside s.hole) :
    r ∈ p.findAll s.left ↔ r ∈ p.findAll s.right :=
  sameBefore h _ r (Nat.lt_succ_self _) hout

end Pattern

end FaustLens
