import FaustLens.Proofs.Pattern.Shift
import FaustLens.Proofs.Pattern.Splice
import Mathlib.Data.List.Sort

/-!
# Matches in a text that is cut in two

A text is cut behind a line feed. The matches of a pattern in the whole text are those in the first
part and, behind them, those in the second part (`SplitsAt`), if the pattern cannot tell at the
places of the first part that the text goes on (`Parted`). That is so if no match holds a line feed.
It is also so if the marks that open a match are used up: every mark of the first part is followed
there by what closes the match (`NoMarkBehind`).

Results:
* `splitsAt_of_parted`: the matches of both parts are the matches in the whole text.
* `splitsAt_of_avoids`: a pattern that matches inside of lines.
* `Marked.splitsAt`: a pattern whose matches begin with a mark.
-/

namespace FaustLens

/-- The text does not hold the mark at the end of the last of the ranges or behind it, nor anywhere
if there is no range. -/
def Text.NoMarkBehind (text mark : Text) (rs : List ByteRange) : Prop :=
  ∀ u v, text = u ++ v → mark <+: v → ∃ r ∈ rs.getLast?, u.byteLength < r.stop

/-- A mark without a line feed does not go across a cut behind a line feed. -/
theorem Text.prefix_of_append {a b u v mark : Text} (ha : a.getLast? = some '\n')
    (hmark : '\n' ∉ mark) (h : a ++ b = u ++ (mark ++ v)) (hlt : u.byteLength < a.byteLength) :
    ∃ w, a = u ++ w ∧ mark <+: w := by
  obtain ⟨w, rfl, hrest⟩ := Text.exists_middle h.symm (Nat.le_of_lt hlt)
  have hw : w ≠ [] := by
    rintro rfl
    rw [List.append_nil] at hlt
    exact absurd hlt (Nat.lt_irrefl _)
  rw [List.getLast?_append_of_ne_nil u hw] at ha
  refine ⟨w, rfl, ?_⟩
  have hprefix : mark <+: w ++ b := ⟨v, hrest⟩
  rcases List.prefix_or_prefix_of_prefix hprefix (List.prefix_append w b) with hm | hm
  · exact hm
  · exact absurd (hm.subset (List.mem_of_getLast? ha)) hmark

namespace ByteRange

/-- A range behind `n` bytes is a range that was shifted. -/
theorem exists_shift_eq {n : Nat} {r : ByteRange} (h : n ≤ r.start) (hr : r.start ≤ r.stop) :
    ∃ s : ByteRange, s.shift n = r :=
  ⟨⟨r.start - n, r.stop - n⟩, by simp only [shift]; congr 1 <;> omega⟩

end ByteRange

namespace Pattern

variable {p : Pattern} {a b : Text} {r : ByteRange}

/-- No match in the text that starts before the offset goes past it. -/
def FreeAt (p : Pattern) (text : Text) (n : Nat) : Prop :=
  ∀ r ∈ p.findAll text, r.start < n → r.stop ≤ n

/-- The matches in `a ++ b` are those in `a` and, behind them, those in `b`. -/
def SplitsAt (p : Pattern) (a b : Text) : Prop :=
  p.findAll (a ++ b) = p.findAll a ++ (p.findAll b).map (·.shift a.byteLength)

/-- What it takes for the matches in `a ++ b` to be those of both parts: those in `a` stay, at a free
place of `a` there are no others, and those in `b` are found behind `a`. -/
structure Parted (p : Pattern) (a b : Text) : Prop where
  moves : p.nullable = false
  stays : ∀ r ∈ p.findAll a, MatchesAt p (a ++ b) r
  known : ∀ r, MatchesAt p (a ++ b) r → r.start < a.byteLength → p.FreeAt a r.start →
    ∃ stop, MatchesAt p a ⟨r.start, stop⟩
  behind : ∀ r : ByteRange, MatchesAt p (a ++ b) (r.shift a.byteLength) ↔ MatchesAt p b r

/-- The range is a match in one of the two parts. -/
def InParts (p : Pattern) (a b : Text) (r : ByteRange) : Prop :=
  r ∈ p.findAll a ∨ ∃ s ∈ p.findAll b, s.shift a.byteLength = r

section Parted

variable (h : p.Parted a b)

include h

theorem inParts_of_mem (hsame : ∀ s : ByteRange, s.start < r.start → p.InParts a b s →
    s ∈ p.findAll (a ++ b)) (hr : r ∈ p.findAll (a ++ b)) : p.InParts a b r := by
  obtain ⟨hm, hfree⟩ := (mem_findAll_iff h.moves).mp hr
  by_cases hlt : r.start < a.byteLength
  · have hfreeA : p.FreeAt a r.start := fun s hs hs' => hfree s (hsame s hs' (Or.inl hs)) hs'
    obtain ⟨stop, hm'⟩ := h.known r hm hlt hfreeA
    have hmem := (mem_findAll_iff h.moves).mpr ⟨hm', hfreeA⟩
    rw [← (h.stays _ hmem).eq_of_start_eq hm rfl]
    exact Or.inl hmem
  · obtain ⟨s, rfl⟩ := ByteRange.exists_shift_eq (Nat.le_of_not_lt hlt)
      (bounds_of_mem_findAll hr).1
    refine Or.inr ⟨s, (mem_findAll_iff h.moves).mpr ⟨(h.behind s).mp hm, fun q hq hqs => ?_⟩, rfl⟩
    have hqs' : (q.shift a.byteLength).start < (s.shift a.byteLength).start :=
      Nat.add_lt_add_left hqs _
    have := hfree _ (hsame _ hqs' (Or.inr ⟨q, hq, rfl⟩)) hqs'
    exact Nat.le_of_add_le_add_left this

theorem mem_of_inParts (hsame : ∀ s : ByteRange, s.start < r.start → s ∈ p.findAll (a ++ b) →
    p.InParts a b s) (hr : p.InParts a b r) : r ∈ p.findAll (a ++ b) := by
  rcases hr with hr | ⟨s, hs, rfl⟩
  · refine (mem_findAll_iff h.moves).mpr ⟨h.stays r hr, fun q hq hqr => ?_⟩
    have hlt := start_lt_stop_of_mem_findAll h.moves hr
    have hstop := (bounds_of_mem_findAll hr).2
    rcases hsame q hqr hq with hq | ⟨q, -, rfl⟩
    · exact ((mem_findAll_iff h.moves).mp hr).2 q hq hqr
    · rw [ByteRange.shift_start] at hqr
      omega
  · have hm := (mem_findAll_iff h.moves).mp hs
    refine (mem_findAll_iff h.moves).mpr ⟨(h.behind s).mpr hm.1, fun q hq hqs => ?_⟩
    rcases hsame q hqs hq with hq | ⟨q', hq', rfl⟩
    · exact Nat.le_trans (bounds_of_mem_findAll hq).2 (Nat.le_add_right _ _)
    · exact Nat.add_le_add_left (hm.2 q' hq' (Nat.lt_of_add_lt_add_left hqs)) _

/-- The induction goes through the matches from left to right, as whether a match starts at a place
depends on those before it. -/
theorem mem_findAll_append_iff : ∀ (n : Nat) (r : ByteRange), r.start < n →
    (r ∈ p.findAll (a ++ b) ↔ p.InParts a b r)
  | 0, _, hr => absurd hr (Nat.not_lt_zero _)
  | n + 1, r, hr => by
    have hsame : ∀ s : ByteRange, s.start < r.start →
        (s ∈ p.findAll (a ++ b) ↔ p.InParts a b s) := fun s hs =>
      mem_findAll_append_iff n s (by omega)
    exact ⟨inParts_of_mem h fun s hs => (hsame s hs).mpr,
      mem_of_inParts h fun s hs => (hsame s hs).mp⟩

/-- **The matches of both parts** are the matches in the whole text. -/
theorem splitsAt_of_parted : p.SplitsAt a b := by
  have hanti : Std.Antisymm fun r s : ByteRange => r.start < s.start :=
    ⟨fun _ _ h h' => absurd h (Nat.lt_asymm h')⟩
  have hirrefl : Std.Irrefl fun r s : ByteRange => r.start < s.start := ⟨fun _ => Nat.lt_irrefl _⟩
  have hsorted : ∀ text, (p.findAll text).Pairwise fun r s => r.start < s.start := fun text =>
    (pairwise_findAll p text).imp_of_mem fun hr _ hle =>
      Nat.lt_of_lt_of_le (start_lt_stop_of_mem_findAll h.moves hr) hle
  refine (hsorted (a ++ b)).eq_of_mem_iff ?_ fun r => ?_
  · refine List.pairwise_append.mpr ⟨hsorted a, ?_, fun r hr s hs => ?_⟩
    · exact List.pairwise_map.mpr ((hsorted b).imp fun h => Nat.add_lt_add_left h _)
    · obtain ⟨s, -, rfl⟩ := List.mem_map.mp hs
      have hlt := start_lt_stop_of_mem_findAll h.moves hr
      have hstop := (bounds_of_mem_findAll hr).2
      rw [ByteRange.shift_start]
      omega
  · rw [mem_findAll_append_iff h _ r (Nat.lt_succ_self _), List.mem_append, List.mem_map]
    rfl

end Parted

/-! ## Inside of lines -/

section Avoids

variable {x : Char} {rest rest' : Text}

/-- A match does not go past a character that the pattern avoids. -/
theorem MatchesAt.stop_le_of_avoids (hp : p.steady = true) (hx : p.avoids x = true)
    (h : MatchesAt p (a ++ x :: rest) r) (hstart : r.start ≤ a.byteLength) :
    r.stop ≤ a.byteLength := by
  obtain ⟨u, w, v, hparts, he⟩ := h.exists_parts
  have hsize := hparts.length_le
  obtain ⟨htext, rfl⟩ := hparts
  have hw : x ∉ w := (not_mem_of_avoids hp hx hsize he).of_between
  by_contra hgt
  obtain ⟨m, hm, hrest⟩ := Text.exists_middle htext (Nat.le_of_not_le hgt)
  obtain ⟨k, rfl, hk⟩ := Text.exists_middle hm hstart
  cases m with
  | nil =>
    rw [hm, List.append_nil] at hgt
    exact absurd (Nat.le_refl _) hgt
  | cons y m =>
    obtain ⟨rfl, -⟩ := List.cons.inj hrest
    exact hw (hk ▸ by simp)

/-- Before a character that the pattern avoids, what follows does not matter. -/
theorem MatchesAt.congr_of_avoids (hp : p.steady = true) (hx : p.avoids x = true)
    (h : MatchesAt p (a ++ x :: rest) r) (hstart : r.start ≤ a.byteLength) :
    MatchesAt p (a ++ x :: rest') r := by
  have hstop := h.stop_le_of_avoids hp hx hstart
  have hhead : (x :: rest).head? = (x :: rest').head? := rfl
  obtain ⟨stop, hm, rfl | hgt⟩ := exists_matchesAt_of_head?_eq hp hhead h hstop
  · exact hm
  · exact absurd (hm.stop_le_of_avoids hp hx hstart) (Nat.not_le_of_lt hgt)

/-- **A pattern that matches inside of lines** has the matches of both parts. -/
theorem splitsAt_of_avoids (hp : p.steady = true) (hn : p.nullable = false)
    (hs : p.startless = true) (hx : p.avoids '\n' = true) (ha : a.getLast? = some '\n') (b : Text) :
    p.SplitsAt a b := by
  obtain ⟨w, rfl⟩ := List.getLast?_eq_some_iff.mp ha
  have hlen : Text.byteLength (w ++ ['\n']) = Text.byteLength w + 1 := by
    rw [Text.byteLength_append]
    rfl
  have happend : w ++ ['\n'] ++ b = w ++ '\n' :: b := List.append_assoc _ _ _
  refine splitsAt_of_parted ⟨hn, fun r hr => ?_, fun r hm hlt _ => ⟨r.stop, ?_⟩, fun r =>
    matchesAt_append_iff_of_startless hp hs ha⟩
  · have hlt := start_lt_stop_of_mem_findAll hn hr
    have hstop := (bounds_of_mem_findAll hr).2
    rw [happend]
    exact (matchesAt_of_mem_findAll hr).congr_of_avoids hp hx (by omega)
  · have hle : r.start ≤ Text.byteLength w := by omega
    rw [happend] at hm
    exact hm.congr_of_avoids hp hx hle

end Avoids

/-! ## Between marks -/

/-- What is needed of a pattern whose matches begin with a mark and may hold line feeds. -/
structure Marked (p : Pattern) (mark : Text) : Prop where
  steady : p.steady = true
  moves : p.nullable = false
  startless : p.startless = true
  inLine : '\n' ∉ mark
  begins : ∀ {text : Text} {r : ByteRange}, MatchesAt p text r →
    ∃ u v, text = u ++ (mark ++ v) ∧ r.start = u.byteLength
  /-- A match further back is enough to close what a mark opens. -/
  closes : ∀ {text u v : Text} {r : ByteRange}, text = u ++ v → mark <+: v → MatchesAt p text r →
    u.byteLength < r.start → ∃ stop, MatchesAt p text ⟨u.byteLength, stop⟩

/-- If no mark is behind the last match, the pattern matches at every mark at a free place. -/
theorem Marked.exists_matchesAt {mark u v : Text} (h : p.Marked mark)
    (hmarks : a.NoMarkBehind mark (p.findAll a)) (ha : a = u ++ v) (hv : mark <+: v)
    (hfree : p.FreeAt a u.byteLength) : ∃ stop, MatchesAt p a ⟨u.byteLength, stop⟩ := by
  obtain ⟨m, hlast, hlt⟩ := hmarks u v ha hv
  have hmem := List.mem_of_getLast? hlast
  have hm := matchesAt_of_mem_findAll hmem
  rcases Nat.lt_trichotomy m.start u.byteLength with hbefore | heq | hafter
  · exact absurd (hfree m hmem hbefore) (Nat.not_le_of_lt hlt)
  · exact ⟨m.stop, heq ▸ hm⟩
  · exact h.closes ha hv hm hafter

/-- **A pattern whose matches begin with a mark** has the matches of both parts, if no mark is
behind the last match in the first part and these matches stay. -/
theorem Marked.splitsAt {mark : Text} (h : p.Marked mark) (ha : a.getLast? = some '\n')
    (hmarks : a.NoMarkBehind mark (p.findAll a))
    (hstays : ∀ r ∈ p.findAll a, MatchesAt p (a ++ b) r) : p.SplitsAt a b := by
  refine splitsAt_of_parted ⟨h.moves, hstays, fun r hm hlt hfree => ?_, fun r =>
    matchesAt_append_iff_of_startless h.steady h.startless ha⟩
  obtain ⟨u, v, htext, hstart⟩ := h.begins hm
  rw [hstart] at hlt hfree ⊢
  obtain ⟨w, hw, hmark⟩ := Text.prefix_of_append ha h.inLine htext hlt
  exact h.exists_matchesAt hmarks hw hmark hfree

end Pattern

end FaustLens
