import FaustLens.Highlighter

/-!
# One look at the claims is enough

`ClaimedRanges::intersects` (`syntax::rules`) inspects a single claim, the last one that starts
before the range stops. The claims are kept in decreasing order and apart from each other
(`Ordered`), so a range that misses this one claim misses all of them.

Results:
* `intersects_iff`: on ordered claims, a range intersects iff it shares a byte with some claim.
* `refines_list`: claiming ranges apart from each other, in any order, is adding them to a list.
* `ordered_afterHits`: the claims stay ordered, whatever matches are judged and in any order.
* `mem_afterHit_iff`: what one match adds to the claims.
-/

namespace FaustLens

namespace ByteRange

/-- The two ranges share a byte. -/
def Meets (r s : ByteRange) : Prop := ∃ b, b ∈ r ∧ b ∈ s

theorem meets_iff {r s : ByteRange} :
    r.Meets s ↔ r.start < r.stop ∧ s.start < s.stop ∧ r.start < s.stop ∧ s.start < r.stop := by
  constructor
  · rintro ⟨b, hr, hs⟩
    rw [mem_def] at hr hs
    omega
  · intro h
    refine ⟨max r.start s.start, ?_, ?_⟩ <;> rw [mem_def] <;> omega

theorem isEmpty_eq_false_iff {r : ByteRange} : r.isEmpty = false ↔ r.start < r.stop := by
  simp [isEmpty]

theorem isEmpty_of_meets {r s : ByteRange} (h : r.Meets s) : r.isEmpty = false :=
  isEmpty_eq_false_iff.mpr (meets_iff.mp h).1

instance (r s : ByteRange) : Decidable (r.Meets s) := decidable_of_iff _ meets_iff.symm

theorem Meets.symm {r s : ByteRange} : r.Meets s → s.Meets r := fun ⟨b, hr, hs⟩ => ⟨b, hs, hr⟩

/-- The range lies inside `s`. -/
def Inside (r s : ByteRange) : Prop := s.start ≤ r.start ∧ r.stop ≤ s.stop

theorem meets_of_inside {r s : ByteRange} (h : r.Inside s) (hr : r.start < r.stop) : r.Meets s :=
  ⟨r.start, ⟨Nat.le_refl _, hr⟩, h.1, Nat.lt_of_lt_of_le hr h.2⟩

theorem not_inside_of_mem {r s : ByteRange} {b : Nat} (hr : b ∈ r) (hs : b ∉ s) : ¬ r.Inside s :=
  fun h => hs ⟨Nat.le_trans h.1 hr.1, Nat.lt_of_lt_of_le hr.2 h.2⟩

theorem not_meets_of_stop_le {r s : ByteRange} (h : r.stop ≤ s.start) : ¬ r.Meets s := by
  rw [meets_iff]
  omega

/-- The range shares a byte with `s` and holds another one outside of `s`. -/
def Crosses (r s : ByteRange) : Prop := r.Meets s ∧ ∃ b, b ∈ r ∧ b ∉ s

/-- A range that holds a byte lies inside another one, apart from it or across one of its edges. -/
theorem inside_or_apart_or_crosses {r s : ByteRange} (hr : r.start < r.stop)
    (hs : s.start < s.stop) : r.Inside s ∨ (r.stop ≤ s.start ∨ s.stop ≤ r.start) ∨
      r.Crosses s := by
  by_cases hin : r.Inside s
  · exact Or.inl hin
  · unfold Inside at hin
    by_cases hap : r.stop ≤ s.start ∨ s.stop ≤ r.start
    · exact Or.inr (Or.inl hap)
    · refine Or.inr (Or.inr ⟨meets_iff.mpr (by omega), ?_⟩)
      by_cases hstart : r.start < s.start
      · exact ⟨r.start, ⟨Nat.le_refl _, hr⟩, fun h => Nat.not_le_of_lt hstart h.1⟩
      · refine ⟨r.stop - 1, ⟨by omega, by omega⟩, fun h => ?_⟩
        have := h.2
        omega

end ByteRange

namespace ClaimedRanges

/-- The claims hold a byte each, in decreasing order and without overlaps. -/
structure Ordered (cl : ClaimedRanges) : Prop where
  apart : cl.ranges.Pairwise fun c d => d.stop ≤ c.start
  filled : ∀ c ∈ cl.ranges, c.start < c.stop

theorem ordered_empty : empty.Ordered :=
  ⟨List.Pairwise.nil, fun _ h => absurd h List.not_mem_nil⟩

theorem empty_intersects (r : ByteRange) : empty.intersects r = false := by
  simp [intersects, lastBefore?, empty]

/-- The first claim that starts before `stop` decides for all claims whether one stops behind
`start`. -/
theorem any_find?_iff (start stop : Nat) : ∀ {rs : List ByteRange},
    rs.Pairwise (fun c d => d.stop ≤ c.start) → (∀ c ∈ rs, c.start < c.stop) →
    (((rs.find? (·.start < stop)).any (start < ·.stop) : Bool) = true ↔
      ∃ c ∈ rs, c.start < stop ∧ start < c.stop)
  | [], _, _ => by simp
  | c :: rs, hp, hf => by
    obtain ⟨hc, hp⟩ := List.pairwise_cons.mp hp
    have hfc := hf c List.mem_cons_self
    by_cases h : c.start < stop
    · rw [List.find?_cons_of_pos (by simpa using h)]
      simp only [Option.any_some, decide_eq_true_eq]
      constructor
      · intro hs
        exact ⟨c, List.mem_cons_self, h, hs⟩
      · rintro ⟨d, hd, -, hs⟩
        rcases List.mem_cons.mp hd with rfl | hd
        · exact hs
        · have := hc d hd
          omega
    · rw [List.find?_cons_of_neg (by simpa using h),
        any_find?_iff start stop hp fun d hd => hf d (List.mem_cons_of_mem _ hd)]
      constructor
      · rintro ⟨d, hd, h'⟩
        exact ⟨d, List.mem_cons_of_mem _ hd, h'⟩
      · rintro ⟨d, hd, h'⟩
        rcases List.mem_cons.mp hd with rfl | hd
        · exact absurd h'.1 h
        · exact ⟨d, hd, h'⟩

/-- **One look is enough**: on ordered claims, `intersects` tells whether any claim is met. -/
theorem intersects_iff {cl : ClaimedRanges} (hcl : cl.Ordered) (r : ByteRange) :
    cl.intersects r = true ↔ ∃ c ∈ cl.ranges, c.Meets r := by
  unfold intersects lastBefore?
  rw [Bool.and_eq_true, any_find?_iff r.start r.stop hcl.apart hcl.filled]
  simp only [ByteRange.isEmpty, Bool.not_eq_true', decide_eq_false_iff_not, Nat.not_le,
    ByteRange.meets_iff]
  constructor
  · rintro ⟨hr, c, hc, h⟩
    exact ⟨c, hc, hcl.filled c hc, hr, h⟩
  · rintro ⟨c, hc, -, hr, h⟩
    exact ⟨hr, c, hc, h⟩

theorem intersects_eq_false_iff {cl : ClaimedRanges} (hcl : cl.Ordered) (r : ByteRange) :
    cl.intersects r = false ↔ ∀ c ∈ cl.ranges, ¬ c.Meets r := by
  rw [← Bool.not_eq_true, intersects_iff hcl]
  exact ⟨fun h c hc hm => h ⟨c, hc, hm⟩, fun h ⟨c, hc, hm⟩ => h c hc hm⟩

/-- A range apart from all claims is inserted between those behind it and those before it. -/
theorem pairwise_insert {r : ByteRange} (hr : r.start < r.stop) : ∀ {rs : List ByteRange},
    rs.Pairwise (fun c d => d.stop ≤ c.start) → (∀ c ∈ rs, c.start < c.stop) →
    (∀ c ∈ rs, ¬ c.Meets r) → (insert r rs).Pairwise fun c d => d.stop ≤ c.start
  | [], _, _, _ => by simp [insert]
  | c :: rs, hp, hf, hm => by
    obtain ⟨hc, hp'⟩ := List.pairwise_cons.mp hp
    have hfc := hf c List.mem_cons_self
    have hmc := hm c List.mem_cons_self
    rw [ByteRange.meets_iff] at hmc
    rw [insert]
    split
    · refine List.pairwise_cons.mpr ⟨fun d hd => ?_, hp⟩
      rcases List.mem_cons.mp hd with rfl | hd
      · omega
      · have := hc d hd
        omega
    · refine List.pairwise_cons.mpr ⟨fun d hd => ?_, pairwise_insert hr hp'
        (fun d hd => hf d (List.mem_cons_of_mem _ hd))
        fun d hd => hm d (List.mem_cons_of_mem _ hd)⟩
      rcases mem_insert.mp hd with rfl | hd
      · omega
      · exact hc d hd

theorem ordered_claim {cl : ClaimedRanges} (hcl : cl.Ordered) {r : ByteRange}
    (hr : cl.intersects r = false) : (cl.claim r).Ordered := by
  unfold claim
  split
  · exact hcl
  · rename_i he
    have hlt : r.start < r.stop := ByteRange.isEmpty_eq_false_iff.mp (by simpa using he)
    refine ⟨pairwise_insert hlt hcl.apart hcl.filled ((intersects_eq_false_iff hcl r).mp hr), ?_⟩
    intro c hc
    rcases mem_insert.mp hc with rfl | hc
    · exact hlt
    · exact hcl.filled c hc

/-! ## Claiming range by range -/

/-- The claims after some ranges were claimed, one after the other. -/
def ofRanges (rs : List ByteRange) : ClaimedRanges := rs.foldl claim empty

/-- The claims stand for a plain list of ranges: they are in order, and they are those ranges of the
list that hold a byte. -/
structure Represents (cl : ClaimedRanges) (rs : List ByteRange) : Prop where
  ordered : cl.Ordered
  perm : cl.ranges.Perm (rs.filter fun r => !r.isEmpty)

theorem perm_insert (r : ByteRange) (rs : List ByteRange) : (insert r rs).Perm (r :: rs) := by
  induction rs with
  | nil => exact List.Perm.refl _
  | cons s rs ih =>
    rw [insert]
    split
    · exact List.Perm.refl _
    · exact (ih.cons s).trans (List.Perm.swap r s rs)

theorem represents_empty : empty.Represents [] := ⟨ordered_empty, List.Perm.refl _⟩

section Represents

variable {cl : ClaimedRanges} {rs : List ByteRange}

/-- On claims that stand for a list, `intersects` looks at the whole list. -/
theorem Represents.intersects_iff (h : cl.Represents rs) (q : ByteRange) :
    cl.intersects q = true ↔ ∃ r ∈ rs, r.Meets q := by
  rw [ClaimedRanges.intersects_iff h.ordered]
  simp only [h.perm.mem_iff, List.mem_filter]
  constructor
  · rintro ⟨r, ⟨hr, -⟩, hm⟩
    exact ⟨r, hr, hm⟩
  · rintro ⟨r, hr, hm⟩
    exact ⟨r, ⟨hr, by simp [ByteRange.isEmpty_of_meets hm]⟩, hm⟩

/-- The stored ranges share no byte. -/
theorem Represents.pairwise (h : cl.Represents rs) :
    cl.ranges.Pairwise fun c d => ¬ c.Meets d :=
  h.ordered.apart.imp fun hle hm => ByteRange.not_meets_of_stop_le hle (ByteRange.Meets.symm hm)

/-- **The step of a claim**: a range that shares no byte with an earlier one joins the list. -/
theorem represents_claim (h : cl.Represents rs) {r : ByteRange} (hr : ∀ s ∈ rs, ¬ s.Meets r) :
    (cl.claim r).Represents (rs ++ [r]) := by
  have hno : cl.intersects r = false := by
    rw [← Bool.not_eq_true, h.intersects_iff]
    rintro ⟨s, hs, hm⟩
    exact hr s hs hm
  refine ⟨ordered_claim h.ordered hno, ?_⟩
  rw [List.filter_append, claim]
  cases he : r.isEmpty with
  | true => simpa [he] using h.perm
  | false =>
    have hlast : [r].filter (fun s => !s.isEmpty) = [r] := by simp [he]
    rw [if_neg (by simp), hlast]
    exact (perm_insert r cl.ranges).trans
      ((h.perm.cons r).trans (List.perm_append_singleton r _).symm)

end Represents

/-- **A run of claims**: ranges that share no byte with an earlier one all join the list. -/
theorem represents_foldl : ∀ {rs front : List ByteRange} {cl : ClaimedRanges},
    cl.Represents front → (front ++ rs).Pairwise (fun r s => ¬ r.Meets s) →
      (rs.foldl claim cl).Represents (front ++ rs)
  | [], front, cl, h, _ => by
    rw [List.append_nil]
    exact h
  | r :: rs, front, cl, h, hp => by
    have hr : ∀ s ∈ front, ¬ s.Meets r := fun s hs =>
      (List.pairwise_append.mp hp).2.2 s hs r List.mem_cons_self
    rw [List.append_cons] at hp ⊢
    exact represents_foldl (represents_claim h hr) hp

/-- **The claims refine a plain list of ranges**: after each of a series of claims, in any order of
their places, in which no range shares a byte with an earlier one. -/
theorem refines_list {rs : List ByteRange} (h : rs.Pairwise fun r s => ¬ r.Meets s)
    {done : List ByteRange} (hdone : done <+: rs) :
    (∀ q, (ofRanges done).intersects q = true ↔
      q.start < q.stop ∧ ∃ r ∈ done, ∃ b, b ∈ r ∧ b ∈ q) ∧
    (ofRanges done).size = (done.filter fun r => !r.isEmpty).length ∧
    ((ofRanges done).isEmpty = true ↔ (done.filter fun r => !r.isEmpty).length = 0) ∧
    (ofRanges done).ranges.Perm (done.filter fun r => !r.isEmpty) ∧
    (ofRanges done).ranges.Pairwise fun c d => ¬ c.Meets d := by
  have hrep : (ofRanges done).Represents done :=
    represents_foldl represents_empty (h.sublist hdone.sublist)
  refine ⟨fun q => ?_, hrep.perm.length_eq, ?_, hrep.perm, hrep.pairwise⟩
  · rw [hrep.intersects_iff]
    constructor
    · rintro ⟨r, hr, hm⟩
      exact ⟨(ByteRange.meets_iff.mp hm).2.1, r, hr, hm⟩
    · rintro ⟨-, r, hr, hm⟩
      exact ⟨r, hr, hm⟩
  · rw [← hrep.perm.length_eq, ClaimedRanges.isEmpty, List.isEmpty_iff, List.length_eq_zero_iff]

/-- The theorem for claims that touch, stand in no order and are empty in part. -/
theorem refines_list_touching :
    let rs : List ByteRange := [⟨5, 10⟩, ⟨7, 7⟩, ⟨0, 5⟩, ⟨9, 3⟩, ⟨10, 12⟩]
    let done : List ByteRange := [⟨5, 10⟩, ⟨7, 7⟩, ⟨0, 5⟩, ⟨9, 3⟩]
    rs.Pairwise (fun r s => ¬ r.Meets s) ∧ done <+: rs ∧
      (∀ q, (ofRanges done).intersects q = true ↔
        q.start < q.stop ∧ ∃ r ∈ done, ∃ b, b ∈ r ∧ b ∈ q) ∧
      (ofRanges done).size = (done.filter fun r => !r.isEmpty).length ∧
      ((ofRanges done).isEmpty = true ↔ (done.filter fun r => !r.isEmpty).length = 0) ∧
      (ofRanges done).ranges.Perm (done.filter fun r => !r.isEmpty) ∧
      (ofRanges done).ranges.Pairwise fun c d => ¬ c.Meets d := by
  intro rs done
  have hrs : rs.Pairwise fun r s => ¬ r.Meets s := by decide
  have hdone : done <+: rs := by decide
  exact ⟨hrs, hdone, refines_list hrs hdone⟩

/-! ## Claims while matches are judged -/

theorem ordered_afterHit {cl : ClaimedRanges} (hcl : cl.Ordered) (h : Hit) :
    (cl.afterHit h).Ordered := by
  unfold afterHit
  split
  · exact hcl
  · rename_i hi
    split
    · exact ordered_claim hcl (by simpa using hi)
    · exact hcl

theorem ordered_afterHits {cl : ClaimedRanges} (hcl : cl.Ordered) (hits : List Hit) :
    (cl.afterHits hits).Ordered := by
  unfold afterHits
  induction hits generalizing cl with
  | nil => exact hcl
  | cons h hits ih => exact ih (ordered_afterHit hcl h)

/-- The step of the claims: a match adds its range iff it is accepted, exclusive and not empty. -/
theorem mem_afterHit_iff {cl : ClaimedRanges} {h : Hit} {c : ByteRange} :
    c ∈ (cl.afterHit h).ranges ↔ c ∈ cl.ranges ∨
      (c = h.range ∧ cl.intersects h.range = false ∧ h.rule.exclusive = true ∧
        h.range.isEmpty = false) := by
  unfold afterHit
  cases hi : cl.intersects h.range <;> cases he : h.rule.exclusive <;>
    simp [mem_claim, or_comm]

theorem afterHits_cons (cl : ClaimedRanges) (h : Hit) (hits : List Hit) :
    cl.afterHits (h :: hits) = (cl.afterHit h).afterHits hits := rfl

theorem afterHits_append (cl : ClaimedRanges) (as bs : List Hit) :
    cl.afterHits (as ++ bs) = (cl.afterHits as).afterHits bs := List.foldl_append

end ClaimedRanges

end FaustLens
