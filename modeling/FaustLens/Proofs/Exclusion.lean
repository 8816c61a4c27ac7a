import FaustLens.Proofs.Claims
import FaustLens.Proofs.Painting
import Mathlib.Logic.ExistsUnique

/-!
# Progressive exclusion, declaratively

Judging matches one after the other with a growing set of claims, as `Highlighter::classify`
(`syntax::highlighter`) does, has a description that mentions neither: a match is accepted iff it
shares no byte with an earlier accepted match of an exclusive rule (`Hit.Accepted`), and a byte has
the category of the last accepted match that holds it (`Hit.Painted`). The invariant that ties the
two together is `mem_claimsBefore_iff`: before match `i`, the claims are the ranges of the accepted
exclusive matches before it.

Results:
* `accepted_iff_not_intersects`: the claims decide acceptance.
* `painted_categoryOf`: painting the accepted matches gives each byte its declarative category.
* `category_of_span`: the spans of a classification have the declarative categories.
* `mem_accepted_iff`: the accepted matches, as a list.
-/

namespace FaustLens

namespace Hit

/-- The match at index `i` is accepted: it shares no byte with an earlier accepted match of an
exclusive rule. -/
def Accepted (hits : List Hit) (i : Nat) : Prop :=
  ∃ h, hits[i]? = some h ∧ ∀ j g, j < i → hits[j]? = some g → g.rule.exclusive = true →
    Accepted hits j → ¬ g.range.Meets h.range
termination_by i

/-- The byte at offset `b` has category `c`: that of the last accepted match that holds it, or the
plain one if there is none. -/
def Painted (hits : List Hit) (b : Nat) (c : Category) : Prop :=
  (∃ i h, hits[i]? = some h ∧ Accepted hits i ∧ b ∈ h.range ∧ h.rule.category = c ∧
    ∀ j g, i < j → hits[j]? = some g → Accepted hits j → b ∉ g.range) ∨
  (c = .plain ∧ ∀ i h, hits[i]? = some h → Accepted hits i → b ∉ h.range)

/-- The claims that match `i` meets. -/
def claimsBefore (hits : List Hit) (i : Nat) : ClaimedRanges :=
  ClaimedRanges.empty.afterHits (hits.take i)

variable {hits : List Hit} {i : Nat}

theorem accepted_iff {h : Hit} (hi : hits[i]? = some h) :
    Accepted hits i ↔ ∀ j g, j < i → hits[j]? = some g → g.rule.exclusive = true →
      Accepted hits j → ¬ g.range.Meets h.range := by
  rw [Accepted]
  constructor
  · rintro ⟨h', hi', hacc⟩
    obtain rfl := Option.some.inj (hi.symm.trans hi')
    exact hacc
  · intro hacc
    exact ⟨h, hi, hacc⟩

/-! ## Judging and claims -/

theorem ordered_claimsBefore (hits : List Hit) (i : Nat) : (claimsBefore hits i).Ordered :=
  ClaimedRanges.ordered_afterHits ClaimedRanges.ordered_empty _

/-- What the claims must be for `intersects` to decide acceptance. -/
theorem accepted_iff_of_mem_claims {cl : ClaimedRanges} (hcl : cl.Ordered)
    (hmem : ∀ c, c ∈ cl.ranges ↔ ∃ j g, j < i ∧ hits[j]? = some g ∧ g.rule.exclusive = true ∧
      Accepted hits j ∧ g.range = c ∧ c.isEmpty = false)
    {h : Hit} (hi : hits[i]? = some h) : Accepted hits i ↔ cl.intersects h.range = false := by
  rw [accepted_iff hi, ClaimedRanges.intersects_eq_false_iff hcl]
  constructor
  · intro hacc c hc
    obtain ⟨j, g, hj, hg, hex, ha, rfl, -⟩ := (hmem c).mp hc
    exact hacc j g hj hg hex ha
  · intro hno j g hj hg hex ha hmeets
    exact hno g.range ((hmem _).mpr ⟨j, g, hj, hg, hex, ha, rfl, ByteRange.isEmpty_of_meets hmeets⟩)
      hmeets

/-- **The claims before match `i`** are the ranges, as far as they hold a byte, of the accepted
exclusive matches before it. -/
theorem mem_claimsBefore_iff (hits : List Hit) (i : Nat) (c : ByteRange) :
    c ∈ (claimsBefore hits i).ranges ↔ ∃ j g, j < i ∧ hits[j]? = some g ∧
      g.rule.exclusive = true ∧ Accepted hits j ∧ g.range = c ∧ c.isEmpty = false := by
  induction i generalizing c with
  | zero => simp [claimsBefore, ClaimedRanges.afterHits, ClaimedRanges.empty]
  | succ i ih =>
    have hstep : claimsBefore hits (i + 1) =
        (hits[i]?).elim (claimsBefore hits i) (claimsBefore hits i).afterHit := by
      unfold claimsBefore
      rw [List.take_add_one, ClaimedRanges.afterHits_append]
      cases hits[i]? <;> rfl
    rw [hstep]
    cases hi : hits[i]? with
    | none =>
      rw [Option.elim_none, ih]
      refine exists_congr fun j => exists_congr fun g => and_congr_left fun hg => ?_
      have hne : j ≠ i := by
        intro e
        rw [e, hi] at hg
        exact absurd hg.1 (by simp)
      omega
    | some h =>
      rw [Option.elim_some, ClaimedRanges.mem_afterHit_iff, ih,
        ← accepted_iff_of_mem_claims (ordered_claimsBefore hits i) ih hi]
      constructor
      · rintro (⟨j, g, hj, hg⟩ | ⟨rfl, ha, hex, hne⟩)
        · exact ⟨j, g, by omega, hg⟩
        · exact ⟨i, h, by omega, hi, hex, ha, rfl, hne⟩
      · rintro ⟨j, g, hj, hg, hex, ha, rfl, hne⟩
        by_cases hji : j = i
        · subst hji
          obtain rfl := Option.some.inj (hg.symm.trans hi)
          exact Or.inr ⟨rfl, ha, hex, hne⟩
        · exact Or.inl ⟨j, g, by omega, hg, hex, ha, rfl, hne⟩

theorem accepted_iff_not_intersects {h : Hit} (hi : hits[i]? = some h) :
    Accepted hits i ↔ (claimsBefore hits i).intersects h.range = false :=
  accepted_iff_of_mem_claims (ordered_claimsBefore hits i) (mem_claimsBefore_iff hits i) hi

theorem getElem?_judge (cl : ClaimedRanges) (hits : List Hit) (i : Nat) :
    (judge cl hits)[i]? =
      hits[i]?.map fun h => (h, !(cl.afterHits (hits.take i)).intersects h.range) := by
  induction hits generalizing cl i with
  | nil => rfl
  | cons h hits ih =>
    cases i with
    | zero => rfl
    | succ i =>
      rw [judge, List.getElem?_cons_succ, ih]
      rfl

/-- A match is judged well iff it is accepted. -/
theorem judge_eq_true_iff {h : Hit} :
    (judge .empty hits)[i]? = some (h, true) ↔ hits[i]? = some h ∧ Accepted hits i := by
  rw [getElem?_judge]
  constructor
  · intro hj
    obtain ⟨g, hg, hp⟩ := Option.map_eq_some_iff.mp hj
    obtain ⟨rfl, hp⟩ := Prod.mk.inj hp
    exact ⟨hg, (accepted_iff_not_intersects hg).mpr (by simpa [claimsBefore] using hp)⟩
  · rintro ⟨hg, ha⟩
    have hno := (accepted_iff_not_intersects hg).mp ha
    unfold claimsBefore at hno
    rw [hg, Option.map_some, hno]
    rfl

theorem mem_accepted_iff {h : Hit} :
    h ∈ accepted .empty hits ↔ ∃ i, hits[i]? = some h ∧ Accepted hits i := by
  unfold accepted
  simp only [List.mem_map, List.mem_filter]
  constructor
  · rintro ⟨⟨g, ok⟩, ⟨hm, rfl⟩, rfl⟩
    obtain ⟨i, hi⟩ := List.mem_iff_getElem?.mp hm
    exact ⟨i, judge_eq_true_iff.mp hi⟩
  · rintro ⟨i, hi⟩
    exact ⟨(h, true), ⟨List.mem_iff_getElem?.mpr ⟨i, judge_eq_true_iff.mpr hi⟩, rfl⟩, rfl⟩

/-! ## The last accepted match -/

/-- Match `h` at index `i` has a good verdict and holds the byte, and no later match has and does. -/
def LastGood (verdicts : List (Hit × Bool)) (b i : Nat) (h : Hit) : Prop :=
  verdicts[i]? = some (h, true) ∧ b ∈ h.range ∧
    ∀ (j : Nat) (g : Hit), i < j → verdicts[j]? = some (g, true) → b ∉ g.range

theorem lastGood_succ {verdicts : List (Hit × Bool)} {v : Hit × Bool} {b : Nat} {h : Hit} :
    LastGood (v :: verdicts) b (i + 1) h ↔ LastGood verdicts b i h := by
  refine and_congr_right fun _ => and_congr_right fun _ => ⟨fun hlast j g hj hg => ?_, ?_⟩
  · exact hlast (j + 1) g (by omega) hg
  · intro hlast j g hj hg
    obtain ⟨j, rfl⟩ : ∃ k, j = k + 1 := ⟨j - 1, by omega⟩
    exact hlast j g (by omega) hg

theorem lastGood_zero {verdicts : List (Hit × Bool)} {v : Hit × Bool} {b : Nat} {h : Hit} :
    LastGood (v :: verdicts) b 0 h ↔ v = (h, true) ∧ b ∈ h.range ∧
      lastAt? b ((verdicts.filter (·.2)).map (·.1)) = none := by
  unfold LastGood
  rw [List.getElem?_cons_zero, Option.some_inj, lastAt?_eq_none_iff]
  refine and_congr_right fun _ => and_congr_right fun _ => ⟨fun hlast g hg => ?_, ?_⟩
  · obtain ⟨⟨g', ok⟩, hm, rfl⟩ := List.mem_map.mp hg
    obtain ⟨hm, rfl⟩ := List.mem_filter.mp hm
    obtain ⟨j, hj⟩ := List.mem_iff_getElem?.mp hm
    exact hlast (j + 1) g' (by omega) hj
  · intro hno j g hj hg
    obtain ⟨j, rfl⟩ : ∃ k, j = k + 1 := ⟨j - 1, by omega⟩
    refine hno g (List.mem_map.mpr ⟨(g, true), List.mem_filter.mpr ⟨?_, rfl⟩, rfl⟩)
    exact List.mem_iff_getElem?.mpr ⟨j, hg⟩

theorem lastAt?_filter_eq_some_iff {verdicts : List (Hit × Bool)} {b : Nat} {h : Hit} :
    lastAt? b ((verdicts.filter (·.2)).map (·.1)) = some h ↔ ∃ i, LastGood verdicts b i h := by
  induction verdicts with
  | nil => simp [lastAt?, LastGood]
  | cons v verdicts ih =>
    rw [← Nat.or_exists_add_one, lastGood_zero]
    simp only [lastGood_succ]
    rw [← ih]
    obtain ⟨g, ok⟩ := v
    cases ok with
    | false =>
      rw [List.filter_cons_of_neg (by simp)]
      simp
    | true =>
      rw [List.filter_cons_of_pos rfl, List.map_cons, lastAt?, Option.or_eq_some_iff, or_comm]
      refine or_congr_left ⟨?_, ?_⟩
      · rintro ⟨hno, hg⟩
        split at hg
        · rename_i hb
          obtain rfl := Option.some.inj hg
          exact ⟨rfl, hb, hno⟩
        · exact absurd hg (by simp)
      · rintro ⟨hg, hb, hno⟩
        obtain rfl := (Prod.mk.inj hg).1
        exact ⟨hno, if_pos hb⟩

/-- **Painting is declarative**: painting the accepted matches in order gives each byte the category
of the last accepted match that holds it. -/
theorem painted_categoryOf (hits : List Hit) (b : Nat) :
    Painted hits b (categoryOf b (accepted .empty hits)) := by
  unfold categoryOf
  cases hl : lastAt? b (accepted .empty hits) with
  | some h =>
    obtain ⟨i, hi, hb, hlast⟩ := lastAt?_filter_eq_some_iff.mp hl
    obtain ⟨hget, hacc⟩ := judge_eq_true_iff.mp hi
    exact Or.inl ⟨i, h, hget, hacc, hb, rfl,
      fun j g hj hg ha => hlast j g hj (judge_eq_true_iff.mpr ⟨hg, ha⟩)⟩
  | none =>
    exact Or.inr ⟨rfl, fun i h hget hacc =>
      lastAt?_eq_none_iff.mp hl h (mem_accepted_iff.mpr ⟨i, hget, hacc⟩)⟩

end Hit

/-! ## Classifications -/

/-- **Classification computes progressive exclusion**: each byte of the text lies in one span, and
the category of this span is that of the last accepted match that holds the byte. -/
theorem Highlighter.category_of_span (h : Highlighter) (text : Text) {b : Nat}
    (hb : b < text.byteLength) :
    (∃! s, s ∈ h.classify text ∧ b ∈ s.range) ∧
      ∀ s ∈ h.classify text, b ∈ s.range → Hit.Painted (h.hits text) b s.category := by
  refine ⟨existsUnique_span hb, fun s hs hbs => ?_⟩
  rw [category_of_mem hs hbs hb]
  exact Hit.painted_categoryOf _ b

/-- The theorem for a table that claims `b` and then looks for words. -/
theorem Highlighter.category_of_span_words :
    let words : Highlighter := ⟨[⟨"mark", "b", .one (.single 'b'), .string, true⟩,
      ⟨"word", "[a-z]+", .repeated (.one (.range 'a' 'z')) 1 none true, .keyword, false⟩]⟩
    3 < Text.byteLength ['a', 'b', ' ', 'c'] ∧
      (∃! s, s ∈ words.classify ['a', 'b', ' ', 'c'] ∧ 3 ∈ s.range) ∧
      ∀ s ∈ words.classify ['a', 'b', ' ', 'c'], 3 ∈ s.range →
        Hit.Painted (words.hits ['a', 'b', ' ', 'c']) 3 s.category :=
  ⟨by decide, category_of_span _ _ (by decide)⟩

end FaustLens
