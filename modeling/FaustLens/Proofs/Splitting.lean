import FaustLens.Proofs.Tables
import FaustLens.Proofs.Pattern.Append

/-!
# Classifying a text that is cut in two

If every rule of a table has the matches of both parts of a text, so has the whole table: a claim of
one part meets no match of the other, so each part is judged as if it stood alone. The claims are
those of both parts at any time (`ClaimedRanges.Joins`).

Results:
* `accepted_hits_append`, `joins_afterHits`: judging one rule.
* `lastAt?_accepted_append`: judging the whole table.
* `expand_classify_append_of_splitsAt`: the categories byte by byte.
-/

namespace FaustLens

/-- The match that is `n` bytes further back. -/
def Hit.shift (n : Nat) (h : Hit) : Hit := ⟨h.rule, h.range.shift n⟩

namespace ByteRange

variable {n : Nat} {r s : ByteRange}

@[simp] theorem add_mem_shift_iff {b : Nat} : n + b ∈ r.shift n ↔ b ∈ r := by
  simp only [mem_def, shift_start, shift_stop]
  omega

@[simp] theorem meets_shift_iff : (r.shift n).Meets (s.shift n) ↔ r.Meets s := by
  simp only [meets_iff, shift_start, shift_stop]
  omega

@[simp] theorem isEmpty_shift : (r.shift n).isEmpty = r.isEmpty := by
  simp [isEmpty]

theorem not_meets_shift (hr : r.stop ≤ n) : ¬ r.Meets (s.shift n) :=
  not_meets_of_stop_le (Nat.le_trans hr (Nat.le_add_right _ _))

end ByteRange

/-! ## Claims on both sides -/

/-- The claims are those on the left, which end within `n` bytes, and those on the right, `n` bytes
further back. -/
structure ClaimedRanges.Joins (n : Nat) (cl left right : ClaimedRanges) : Prop where
  ordered : cl.Ordered
  ordered_left : left.Ordered
  ordered_right : right.Ordered
  stop_le : ∀ c ∈ left.ranges, c.stop ≤ n
  mem_iff : ∀ c, c ∈ cl.ranges ↔ c ∈ left.ranges ∨ ∃ d ∈ right.ranges, d.shift n = c

namespace ClaimedRanges.Joins

variable {n : Nat} {cl left right : ClaimedRanges} (h : Joins n cl left right)

theorem empty (n : Nat) : Joins n .empty .empty .empty :=
  ⟨ordered_empty, ordered_empty, ordered_empty, fun _ h => absurd h List.not_mem_nil, fun c => by
    simp [ClaimedRanges.empty]⟩

include h

theorem intersects_left {m : ByteRange} (hm : m.stop ≤ n) :
    cl.intersects m = left.intersects m := by
  rw [Bool.eq_iff_iff, intersects_iff h.ordered, intersects_iff h.ordered_left]
  constructor
  · rintro ⟨c, hc, hmeets⟩
    rcases (h.mem_iff c).mp hc with hc | ⟨d, -, rfl⟩
    · exact ⟨c, hc, hmeets⟩
    · exact absurd hmeets.symm (ByteRange.not_meets_shift hm)
  · rintro ⟨c, hc, hmeets⟩
    exact ⟨c, (h.mem_iff c).mpr (Or.inl hc), hmeets⟩

theorem intersects_right (m : ByteRange) : cl.intersects (m.shift n) = right.intersects m := by
  rw [Bool.eq_iff_iff, intersects_iff h.ordered, intersects_iff h.ordered_right]
  constructor
  · rintro ⟨c, hc, hmeets⟩
    rcases (h.mem_iff c).mp hc with hc | ⟨d, hd, rfl⟩
    · exact absurd hmeets (ByteRange.not_meets_shift (h.stop_le c hc))
    · exact ⟨d, hd, ByteRange.meets_shift_iff.mp hmeets⟩
  · rintro ⟨d, hd, hmeets⟩
    exact ⟨d.shift n, (h.mem_iff _).mpr (Or.inr ⟨d, hd, rfl⟩), ByteRange.meets_shift_iff.mpr hmeets⟩

end ClaimedRanges.Joins

/-! ## One rule -/

namespace Hit

open ClaimedRanges (Joins)

variable {a b : Text} {cl left right : ClaimedRanges} {r : Rule}

/-- **One rule**: in each part those matches are accepted that are accepted in the part alone. -/
theorem accepted_hits_append (h : Joins a.byteLength cl left right) (hr : r.pattern.SplitsAt a b) :
    accepted cl (r.hits (a ++ b)) =
      accepted left (r.hits a) ++ (accepted right (r.hits b)).map (Hit.shift a.byteLength) := by
  have hall : r.findAll (a ++ b) = r.findAll a ++ (r.findAll b).map (·.shift a.byteLength) := hr
  have hleft : (r.findAll a).filter (fun m => !cl.intersects m) =
      (r.findAll a).filter fun m => !left.intersects m :=
    List.filter_congr fun m hm => by
      rw [h.intersects_left (Pattern.bounds_of_mem_findAll hm).2]
  rw [accepted_hits h.ordered, accepted_hits h.ordered_left, accepted_hits h.ordered_right, hall,
    List.filter_append, hleft, List.filter_map, List.map_append, List.map_map, List.map_map]
  simp only [Function.comp_def, h.intersects_right]
  rfl

/-- The step of the claims: the accepted matches of a rule join them on both sides. -/
theorem joins_afterHits (h : Joins a.byteLength cl left right) (hr : r.pattern.SplitsAt a b) :
    Joins a.byteLength (cl.afterHits (r.hits (a ++ b))) (left.afterHits (r.hits a))
      (right.afterHits (r.hits b)) := by
  refine ⟨ClaimedRanges.ordered_afterHits h.ordered _, ClaimedRanges.ordered_afterHits h.ordered_left _,
    ClaimedRanges.ordered_afterHits h.ordered_right _, fun c hc => ?_, fun c => ?_⟩
  · rcases (mem_afterHits_iff _).mp hc with hc | ⟨g, hg, -, rfl, -⟩
    · exact h.stop_le c hc
    · obtain ⟨m, hm, rfl⟩ := List.mem_map.mp (mem_of_mem_accepted hg)
      exact (Pattern.bounds_of_mem_findAll hm).2
  · simp only [mem_afterHits_iff, accepted_hits_append h hr, h.mem_iff, List.mem_append, List.mem_map]
    constructor
    · rintro ((hc | ⟨d, hd, rfl⟩) | ⟨_, hg | ⟨g, hg, rfl⟩, hx, rfl, he⟩)
      · exact Or.inl (Or.inl hc)
      · exact Or.inr ⟨d, Or.inl hd, rfl⟩
      · exact Or.inl (Or.inr ⟨_, hg, hx, rfl, he⟩)
      · exact Or.inr ⟨g.range, Or.inr ⟨g, hg, hx, rfl, ByteRange.isEmpty_shift ▸ he⟩, rfl⟩
    · rintro ((hc | ⟨g, hg, hx, rfl, he⟩) | ⟨d, hd | ⟨g, hg, hx, rfl, he⟩, rfl⟩)
      · exact Or.inl (Or.inl hc)
      · exact Or.inr ⟨g, Or.inl hg, hx, rfl, he⟩
      · exact Or.inl (Or.inr ⟨d, hd, rfl⟩)
      · exact Or.inr ⟨g.shift a.byteLength, Or.inr ⟨g, hg, rfl⟩, hx, rfl,
          ByteRange.isEmpty_shift.trans he⟩

/-! ## The whole table -/

theorem lastAt?_map_shift {n k : Nat} (hits : List Hit) :
    lastAt? (n + k) (hits.map (Hit.shift n)) = (lastAt? k hits).map (Hit.shift n) := by
  induction hits with
  | nil => rfl
  | cons g hits ih =>
    have hmem : n + k ∈ (g.shift n).range ↔ k ∈ g.range := ByteRange.add_mem_shift_iff
    rw [List.map_cons, lastAt?, lastAt?, ih, Option.map_or]
    congr 1
    by_cases hk : k ∈ g.range
    · rw [if_pos hk, if_pos (hmem.mpr hk), Option.map_some]
    · rw [if_neg hk, if_neg (mt hmem.mp hk), Option.map_none]

/-- What holds a byte of the first part comes from there, and so it is in the second part. -/
theorem lastAt?_append_shift {n : Nat} {as : List Hit} (bs : List Hit)
    (has : ∀ g ∈ as, g.range.stop ≤ n) :
    (∀ k < n, lastAt? k (as ++ bs.map (Hit.shift n)) = lastAt? k as) ∧
      ∀ k, lastAt? (n + k) (as ++ bs.map (Hit.shift n)) = (lastAt? k bs).map (Hit.shift n) := by
  refine ⟨fun k hk => ?_, fun k => ?_⟩
  · have hnone : lastAt? k (bs.map (Hit.shift n)) = none := lastAt?_eq_none_iff.mpr fun g hg hkg => by
      obtain ⟨g, -, rfl⟩ := List.mem_map.mp hg
      have := hkg.1
      simp only [Hit.shift, ByteRange.shift_start] at this
      omega
    rw [lastAt?_append, hnone, Option.none_or]
  · have hnone : lastAt? (n + k) as = none := lastAt?_eq_none_iff.mpr fun g hg hkg => by
      have := has g hg
      have := hkg.2
      omega
    rw [lastAt?_append, hnone, Option.or_none, lastAt?_map_shift]

/-- **The whole table**: at a byte of either part, the last accepted match is the one in the part
alone. The induction is on the rules and carries the claims on both sides along. -/
theorem lastAt?_accepted_append {rules : List Rule} (hsplit : ∀ r ∈ rules, r.pattern.SplitsAt a b)
    (h : Joins a.byteLength cl left right) :
    (∀ k < a.byteLength, lastAt? k (accepted cl (Highlighter.hits ⟨rules⟩ (a ++ b))) =
      lastAt? k (accepted left (Highlighter.hits ⟨rules⟩ a))) ∧
    ∀ k, lastAt? (a.byteLength + k) (accepted cl (Highlighter.hits ⟨rules⟩ (a ++ b))) =
      (lastAt? k (accepted right (Highlighter.hits ⟨rules⟩ b))).map (Hit.shift a.byteLength) := by
  induction rules generalizing cl left right with
  | nil => exact ⟨fun _ _ => rfl, fun _ => rfl⟩
  | cons r rules ih =>
    have hr := hsplit r List.mem_cons_self
    have hstop : ∀ g ∈ accepted left (r.hits a), g.range.stop ≤ a.byteLength := fun g hg => by
      obtain ⟨m, hm, rfl⟩ := List.mem_map.mp (mem_of_mem_accepted hg)
      exact (Pattern.bounds_of_mem_findAll hm).2
    obtain ⟨hleft, hright⟩ := lastAt?_append_shift (accepted right (r.hits b)) hstop
    obtain ⟨ihleft, ihright⟩ := ih (fun x hx => hsplit x (List.mem_cons_of_mem _ hx))
      (joins_afterHits h hr)
    simp only [Highlighter.hits_cons, accepted_append, lastAt?_append, accepted_hits_append h hr]
    refine ⟨fun k hk => ?_, fun k => ?_⟩
    · rw [ihleft k hk, ← lastAt?_append, hleft k hk]
    · rw [ihright k, ← lastAt?_append, hright k, Option.map_or]

end Hit

/-! ## Byte by byte -/

namespace Highlighter

open Hit

/-- **The categories byte by byte**: if every rule has the matches of both parts, the categories of
the whole text are those of the first part followed by those of the second. -/
theorem expand_classify_append_of_splitsAt {h : Highlighter} {a b : Text}
    (hsplit : ∀ r ∈ h.rules, r.pattern.SplitsAt a b) :
    expand (h.classify (a ++ b)) = expand (h.classify a) ++ expand (h.classify b) := by
  obtain ⟨hleft, hright⟩ := lastAt?_accepted_append hsplit (ClaimedRanges.Joins.empty a.byteLength)
  refine List.ext_getElem? fun k => ?_
  by_cases hk : k < a.byteLength
  · have hlt : k < (a ++ b).byteLength := by
      rw [Text.byteLength_append]
      omega
    have hfirst : categoryOf k (accepted .empty (h.hits (a ++ b))) =
        categoryOf k (accepted .empty (h.hits a)) := by
      unfold categoryOf
      rw [hleft k hk]
    rw [getElem?_expand_classify hlt, hfirst,
      List.getElem?_append_left (by rwa [length_expand_classify]), getElem?_expand_classify hk]
  · obtain ⟨j, rfl⟩ := Nat.exists_eq_add_of_le (Nat.le_of_not_lt hk)
    rw [List.getElem?_append_right (by rw [length_expand_classify]; omega), length_expand_classify,
      Nat.add_sub_cancel_left]
    by_cases hj : j < b.byteLength
    · have hlt : a.byteLength + j < (a ++ b).byteLength := by
        rw [Text.byteLength_append]
        omega
      have hsecond : categoryOf (a.byteLength + j) (accepted .empty (h.hits (a ++ b))) =
          categoryOf j (accepted .empty (h.hits b)) := by
        unfold categoryOf
        rw [hright j]
        cases lastAt? j (accepted .empty (h.hits b)) <;> rfl
      rw [getElem?_expand_classify hlt, hsecond, getElem?_expand_classify hj]
    · rw [List.getElem?_eq_none (by rw [length_expand_classify, Text.byteLength_append]; omega),
        List.getElem?_eq_none (by rw [length_expand_classify]; omega)]

end Highlighter

end FaustLens
