import FaustLens.Proofs.Exclusion
import FaustLens.Proofs.Pattern.FindAll

/-!
# Judging rule by rule

The matches of one rule are apart, so they do not decide about each other: those are accepted that
meet no claim of an earlier rule. Exclusive rules claim what is accepted of them, and a rule that is
not exclusive leaves the claims as they are. So, where the exclusive rules come first, a byte of an
accepted exclusive match keeps its category, and any other byte has the category that the rules
behind the exclusive ones give it.

Results:
* `accepted_hits`, `accepted_of_not_exclusive`: what is accepted of one rule, and of rules that are
  not exclusive.
* `lastAt?_of_mem_accepted`: no later match takes a byte away from a claim.
* `intersects_afterHits_iff`: what exclusive rules claim.
* `categoryAt_eq_some_iff`, `categoryAt_of_not_claimed`: the categories under a table with the
  exclusive rules in front.
-/

namespace FaustLens

/-- The matches of the rule in a text. -/
def Rule.hits (r : Rule) (text : Text) : List Hit := (r.findAll text).map (Hit.mk r)

theorem Highlighter.hits_cons (r : Rule) (rules : List Rule) (text : Text) :
    hits ⟨r :: rules⟩ text = r.hits text ++ hits ⟨rules⟩ text := rfl

namespace Hit

variable {cl : ClaimedRanges}

theorem accepted_append (cl : ClaimedRanges) (as bs : List Hit) :
    accepted cl (as ++ bs) = accepted cl as ++ accepted (cl.afterHits as) bs := by
  unfold accepted
  rw [judge_append, List.filter_append, List.map_append]

theorem accepted_cons (cl : ClaimedRanges) (h : Hit) (hits : List Hit) :
    accepted cl (h :: hits) =
      if cl.intersects h.range then accepted (cl.afterHit h) hits
      else h :: accepted (cl.afterHit h) hits := by
  unfold accepted
  rw [judge]
  cases cl.intersects h.range <;> rfl

theorem mem_of_mem_accepted {hits : List Hit} {h : Hit} (hm : h ∈ accepted cl hits) :
    h ∈ hits := by
  induction hits generalizing cl with
  | nil => exact absurd hm List.not_mem_nil
  | cons g hits ih =>
    rw [accepted_cons] at hm
    split at hm
    · exact List.mem_cons_of_mem _ (ih hm)
    · rcases List.mem_cons.mp hm with rfl | hm
      · exact List.mem_cons_self
      · exact List.mem_cons_of_mem _ (ih hm)

/-- Matches that do not hold the byte do not matter for it. -/
theorem lastAt?_filter {b : Nat} {keep : Hit → Bool} : ∀ {hits : List Hit},
    (∀ h ∈ hits, b ∈ h.range → keep h = true) → lastAt? b (hits.filter keep) = lastAt? b hits
  | [], _ => rfl
  | h :: hits, hkeep => by
    have htail := lastAt?_filter fun g hg => hkeep g (List.mem_cons_of_mem _ hg)
    rw [List.filter_cons]
    split
    · rw [lastAt?, lastAt?, htail]
    · rename_i hdrop
      have hb : b ∉ h.range := fun hb => hdrop (hkeep h List.mem_cons_self hb)
      rw [htail, lastAt?, if_neg hb, Option.or_none]

/-! ## Claims only grow -/

theorem mem_afterHits_iff {c : ByteRange} (hits : List Hit) :
    c ∈ (cl.afterHits hits).ranges ↔ c ∈ cl.ranges ∨
      ∃ h ∈ accepted cl hits, h.rule.exclusive = true ∧ h.range = c ∧ c.isEmpty = false := by
  induction hits generalizing cl with
  | nil => simp [ClaimedRanges.afterHits, accepted, judge]
  | cons g hits ih =>
    rw [ClaimedRanges.afterHits_cons, ih, ClaimedRanges.mem_afterHit_iff, accepted_cons]
    cases hi : cl.intersects g.range with
    | true => simp
    | false =>
      simp only [Bool.false_eq_true, if_false, List.mem_cons, exists_eq_or_imp, true_and, or_assoc]
      refine or_congr_right (or_congr_left ⟨?_, ?_⟩)
      · rintro ⟨rfl, hx⟩
        exact ⟨hx.1, rfl, hx.2⟩
      · rintro ⟨hx, rfl, he⟩
        exact ⟨rfl, hx, he⟩

/-- An accepted match meets no claim, neither an earlier one nor one of its own table. -/
theorem not_meets_of_mem_accepted (hcl : cl.Ordered) {hits : List Hit} {h : Hit}
    (hm : h ∈ accepted cl hits) {c : ByteRange} (hc : c ∈ cl.ranges) : ¬ c.Meets h.range := by
  induction hits generalizing cl with
  | nil => exact absurd hm List.not_mem_nil
  | cons g hits ih =>
    have hlater : h ∈ accepted (cl.afterHit g) hits → ¬ c.Meets h.range := fun hm =>
      ih (ClaimedRanges.ordered_afterHit hcl g) hm (ClaimedRanges.mem_afterHit_iff.mpr (Or.inl hc))
    rw [accepted_cons] at hm
    split at hm
    · exact hlater hm
    · rename_i hno
      rcases List.mem_cons.mp hm with rfl | hm
      · exact (ClaimedRanges.intersects_eq_false_iff hcl _).mp (by simpa using hno) c hc
      · exact hlater hm

/-- **A claim is permanent**: an accepted match of an exclusive rule stays the last one that holds
any of its bytes. -/
theorem lastAt?_of_mem_accepted (hcl : cl.Ordered) {hits : List Hit} {g : Hit}
    (hg : g ∈ accepted cl hits) (hex : g.rule.exclusive = true) {b : Nat} (hb : b ∈ g.range) :
    lastAt? b (accepted cl hits) = some g := by
  induction hits generalizing cl with
  | nil => exact absurd hg List.not_mem_nil
  | cons h hits ih =>
    have hcl' := ClaimedRanges.ordered_afterHit hcl h
    rw [accepted_cons] at hg ⊢
    split at hg
    · rename_i hmeets
      rw [if_pos hmeets]
      exact ih hcl' hg
    · rename_i hfree
      rw [if_neg hfree, lastAt?]
      rcases List.mem_cons.mp hg with rfl | hg
      · -- the match is claimed now, so no later one that is accepted holds the byte
        have hfilled : g.range.isEmpty = false :=
          ByteRange.isEmpty_eq_false_iff.mpr (Nat.lt_of_le_of_lt hb.1 hb.2)
        have hclaim : g.range ∈ (cl.afterHit g).ranges :=
          ClaimedRanges.mem_afterHit_iff.mpr (Or.inr ⟨rfl, by simpa using hfree, hex, hfilled⟩)
        have hlater : lastAt? b (accepted (cl.afterHit g) hits) = none :=
          lastAt?_eq_none_iff.mpr fun h hh hbh =>
            not_meets_of_mem_accepted hcl' hh hclaim ⟨b, hb, hbh⟩
        rw [hlater, if_pos hb, Option.none_or]
      · rw [ih hcl' hg, Option.some_or]

/-! ## One rule -/

variable {r : Rule} {text : Text}

/-- Claiming a range does not change whether a range apart from it meets a claim. -/
theorem intersects_afterHit_of_apart (hcl : cl.Ordered) {h : Hit} {m : ByteRange}
    (hap : ¬ h.range.Meets m) : (cl.afterHit h).intersects m = cl.intersects m := by
  rw [Bool.eq_iff_iff, ClaimedRanges.intersects_iff (ClaimedRanges.ordered_afterHit hcl h),
    ClaimedRanges.intersects_iff hcl]
  simp only [ClaimedRanges.mem_afterHit_iff]
  constructor
  · rintro ⟨c, hc | ⟨rfl, -⟩, hm⟩
    · exact ⟨c, hc, hm⟩
    · exact absurd hm hap
  · rintro ⟨c, hc, hm⟩
    exact ⟨c, Or.inl hc, hm⟩

theorem accepted_map_of_pairwise (r : Rule) : ∀ {rs : List ByteRange} {cl : ClaimedRanges},
    cl.Ordered → rs.Pairwise (fun a b => a.stop ≤ b.start) →
      accepted cl (rs.map (Hit.mk r)) = (rs.filter fun m => !cl.intersects m).map (Hit.mk r)
  | [], _, _, _ => rfl
  | m :: rs, cl, hcl, hp => by
    obtain ⟨hm, hp⟩ := List.pairwise_cons.mp hp
    have hsame : (rs.filter fun x => !(cl.afterHit ⟨r, m⟩).intersects x) =
        rs.filter fun x => !cl.intersects x := List.filter_congr fun x hx => by
      rw [intersects_afterHit_of_apart hcl (ByteRange.not_meets_of_stop_le (hm x hx))]
    have htail := accepted_map_of_pairwise r (ClaimedRanges.ordered_afterHit hcl ⟨r, m⟩) hp
    rw [List.map_cons, accepted_cons, htail, hsame, List.filter_cons]
    cases cl.intersects m <;> rfl

/-- **One rule**: its matches that meet no earlier claim are accepted. -/
theorem accepted_hits (hcl : cl.Ordered) (r : Rule) (text : Text) :
    accepted cl (r.hits text) = ((r.findAll text).filter fun m => !cl.intersects m).map (Hit.mk r) :=
  accepted_map_of_pairwise r hcl (Pattern.pairwise_findAll r.pattern text)

/-- A condition on rules keeps all matches of a rule or none. -/
theorem filter_hits (r : Rule) (text : Text) (keep : Rule → Bool) :
    (r.hits text).filter (fun g => keep g.rule) = if keep r = true then r.hits text else [] := by
  have hrule : ∀ g ∈ r.hits text, keep g.rule = keep r := by
    intro g hg
    obtain ⟨m, -, rfl⟩ := List.mem_map.mp hg
    rfl
  rw [List.filter_congr hrule]
  cases keep r <;> simp

/-- At most one match of a rule holds a byte. -/
theorem lastAt?_hits_eq_some_iff {b : Nat} {g : Hit} :
    lastAt? b (r.hits text) = some g ↔ g.rule = r ∧ g.range ∈ r.findAll text ∧ b ∈ g.range := by
  have hmem : ∀ {g : Hit}, lastAt? b (r.hits text) = some g →
      g.rule = r ∧ g.range ∈ r.findAll text ∧ b ∈ g.range := by
    intro g hl
    obtain ⟨hg, hb⟩ := mem_of_lastAt? hl
    obtain ⟨m, hm, rfl⟩ := List.mem_map.mp hg
    exact ⟨rfl, hm, hb⟩
  refine ⟨hmem, ?_⟩
  rintro ⟨hr, hm, hb⟩
  obtain ⟨r', m⟩ := g
  obtain rfl : r' = r := hr
  cases hl : lastAt? b (r'.hits text) with
  | none =>
    have hno := lastAt?_eq_none_iff.mp hl ⟨r', m⟩ (List.mem_map.mpr ⟨m, hm, rfl⟩)
    exact absurd hb hno
  | some g' =>
    obtain ⟨hr', hm', hb'⟩ := hmem hl
    have hsame : g'.range = m := by
      rcases Pattern.eq_or_apart_of_mem_findAll hm' hm with heq | hap | hap
      · exact heq
      · exact absurd ⟨b, hb', hb⟩ (ByteRange.not_meets_of_stop_le hap)
      · exact absurd ⟨b, hb, hb'⟩ (ByteRange.not_meets_of_stop_le hap)
    rw [← hr', ← hsame]

/-- Texts in which the rules have the same matches at a byte have the same last match there. -/
theorem lastAt?_hits_congr {rules : List Rule} {text' : Text} {b : Nat}
    (h : ∀ r ∈ rules, ∀ m : ByteRange, b ∈ m → (m ∈ r.findAll text ↔ m ∈ r.findAll text')) :
    lastAt? b (Highlighter.hits ⟨rules⟩ text) = lastAt? b (Highlighter.hits ⟨rules⟩ text') := by
  induction rules with
  | nil => rfl
  | cons r rules ih =>
    have hrule : lastAt? b (r.hits text) = lastAt? b (r.hits text') := Option.ext fun g => by
      rw [lastAt?_hits_eq_some_iff, lastAt?_hits_eq_some_iff]
      refine and_congr_right fun _ => and_congr_left fun hb => ?_
      exact h r List.mem_cons_self g.range hb
    rw [Highlighter.hits_cons, Highlighter.hits_cons, lastAt?_append, lastAt?_append, hrule,
      ih fun x hx => h x (List.mem_cons_of_mem _ hx)]

/-! ## Exclusive rules -/

/-- The claims behind matches of exclusive rules are the accepted matches. -/
theorem intersects_afterHits_iff {hits : List Hit} (h : ∀ g ∈ hits, g.rule.exclusive = true)
    {m : ByteRange} : (ClaimedRanges.empty.afterHits hits).intersects m = true ↔
      ∃ g ∈ accepted .empty hits, g.range.Meets m := by
  rw [ClaimedRanges.intersects_iff (ClaimedRanges.ordered_afterHits ClaimedRanges.ordered_empty _)]
  simp only [mem_afterHits_iff]
  constructor
  · rintro ⟨c, hc | ⟨g, hg, -, rfl, -⟩, hm⟩
    · exact absurd hc List.not_mem_nil
    · exact ⟨g, hg, hm⟩
  · rintro ⟨g, hg, hm⟩
    have hex := h g (mem_of_mem_accepted hg)
    exact ⟨g.range, Or.inr ⟨g, hg, hex, rfl, ByteRange.isEmpty_of_meets hm⟩, hm⟩

/-! ## Rules without claims -/

theorem afterHit_of_not_exclusive {h : Hit} (hex : h.rule.exclusive = false) :
    cl.afterHit h = cl := by
  unfold ClaimedRanges.afterHit
  simp [hex]

/-- **Rules without claims** do not decide about each other's matches either. -/
theorem accepted_of_not_exclusive {hits : List Hit}
    (h : ∀ g ∈ hits, g.rule.exclusive = false) :
    accepted cl hits = hits.filter fun g => !cl.intersects g.range := by
  induction hits with
  | nil => rfl
  | cons g hits ih =>
    rw [accepted_cons, afterHit_of_not_exclusive (h g List.mem_cons_self),
      ih fun x hx => h x (List.mem_cons_of_mem _ hx), List.filter_cons]
    cases cl.intersects g.range <;> rfl

end Hit

/-! ## Leading exclusive rules -/

namespace Highlighter

open Hit

theorem hits_append (front back : List Rule) (text : Text) :
    hits ⟨front ++ back⟩ text = hits ⟨front⟩ text ++ hits ⟨back⟩ text := List.flatMap_append

theorem hits_singleton (r : Rule) (text : Text) : hits ⟨[r]⟩ text = r.hits text := by
  rw [hits_cons, hits, List.flatMap_nil, List.append_nil]

theorem mem_hits_iff {h : Highlighter} {text : Text} {g : Hit} :
    g ∈ h.hits text ↔ g.rule ∈ h.rules ∧ g.range ∈ g.rule.findAll text := by
  unfold hits
  simp only [List.mem_flatMap, List.mem_map]
  constructor
  · rintro ⟨r, hr, m, hm, rfl⟩
    exact ⟨hr, hm⟩
  · rintro ⟨hr, hm⟩
    exact ⟨g.rule, hr, g.range, hm, rfl⟩

/-- No span holds an offset behind the text. -/
theorem categoryAt_eq_none (h : Highlighter) {text : Text} {b : Nat} (hb : text.byteLength ≤ b) :
    h.categoryAt text b = none := by
  unfold categoryAt
  rw [Option.map_eq_none_iff, List.find?_eq_none]
  intro s hs hbs
  have hmem : b ∈ s.range := ByteRange.contains_iff.mp hbs
  have := (tiles_classify h text).stop_le hs
  have h2 : b < s.stop := hmem.2
  omega

/-- A match lies in the text. -/
theorem lt_of_mem_hits {h : Highlighter} {text : Text} {g : Hit} (hg : g ∈ h.hits text) {b : Nat}
    (hb : b ∈ g.range) : b < text.byteLength :=
  Nat.lt_of_lt_of_le hb.2 (Pattern.bounds_of_mem_findAll (mem_hits_iff.mp hg).2).2

/-- **A byte of an accepted exclusive match** has the category of its rule. -/
theorem categoryAt_of_mem_accepted {h : Highlighter} {text : Text} {g : Hit}
    (hg : g ∈ accepted .empty (h.hits text)) (hex : g.rule.exclusive = true) {b : Nat}
    (hb : b ∈ g.range) : h.categoryAt text b = some g.rule.category := by
  rw [categoryAt_eq (lt_of_mem_hits (mem_of_mem_accepted hg) hb), categoryOf,
    lastAt?_of_mem_accepted ClaimedRanges.ordered_empty hg hex hb]

section Front

variable {front back : List Rule} {text : Text} {b : Nat}

theorem exclusive_of_mem_hits (hfront : ∀ r ∈ front, r.exclusive = true) :
    ∀ g ∈ hits ⟨front⟩ text, g.rule.exclusive = true :=
  fun _ hg => hfront _ (mem_hits_iff.mp hg).1

/-- The last accepted match of any rule that holds a byte, if the rules in front are exclusive. -/
theorem lastAt?_hits_append : lastAt? b (accepted .empty (hits ⟨front ++ back⟩ text)) =
    (lastAt? b (accepted (ClaimedRanges.empty.afterHits (hits ⟨front⟩ text)) (hits ⟨back⟩ text))).or
      (lastAt? b (accepted .empty (hits ⟨front⟩ text))) := by
  rw [hits_append, accepted_append, lastAt?_append]

/-- **The bytes of a category** that only rules in front have, all of them exclusive, are those of
the accepted matches of these rules. -/
theorem categoryAt_eq_some_iff {c : Category} (hc : c ≠ .plain)
    (hfront : ∀ r ∈ front, r.exclusive = true) (hback : ∀ r ∈ back, r.category ≠ c) :
    categoryAt ⟨front ++ back⟩ text b = some c ↔
      ∃ g ∈ accepted .empty (hits ⟨front⟩ text), g.rule.category = c ∧ b ∈ g.range := by
  constructor
  · intro h
    by_cases hb : b < text.byteLength
    · rw [categoryAt_eq hb, categoryOf, lastAt?_hits_append, Option.some_inj] at h
      cases hl : lastAt? b (accepted (ClaimedRanges.empty.afterHits (hits ⟨front⟩ text))
          (hits ⟨back⟩ text)) with
      | some g =>
        rw [hl] at h
        have hg := mem_hits_iff.mp (mem_of_mem_accepted (mem_of_lastAt? hl).1)
        exact absurd h (hback _ hg.1)
      | none =>
        rw [hl, Option.none_or] at h
        cases hl' : lastAt? b (accepted .empty (hits ⟨front⟩ text)) with
        | some g =>
          rw [hl'] at h
          exact ⟨g, (mem_of_lastAt? hl').1, h, (mem_of_lastAt? hl').2⟩
        | none =>
          rw [hl'] at h
          exact absurd h.symm hc
    · rw [categoryAt_eq_none _ (Nat.le_of_not_lt hb)] at h
      exact absurd h (by simp)
  · rintro ⟨g, hg, rfl, hb⟩
    have hmem : g ∈ accepted .empty (hits ⟨front ++ back⟩ text) := by
      rw [hits_append, accepted_append]
      exact List.mem_append_left _ hg
    exact categoryAt_of_mem_accepted hmem (exclusive_of_mem_hits hfront g (mem_of_mem_accepted hg)) hb

/-- **A byte that is not claimed** has the category that the rules behind the exclusive ones give it
alone, if none of their matches goes across the edge of a claim. -/
theorem categoryAt_of_not_claimed (hfront : ∀ r ∈ front, r.exclusive = true)
    (hback : ∀ r ∈ back, r.exclusive = false)
    (hinside : ∀ h ∈ hits ⟨back⟩ text, ∀ g ∈ accepted .empty (hits ⟨front⟩ text),
      h.range.Meets g.range → h.range.Inside g.range)
    (hno : ∀ g ∈ accepted .empty (hits ⟨front⟩ text), b ∉ g.range) (hb : b < text.byteLength) :
    categoryAt ⟨front ++ back⟩ text b = some (categoryOf b (hits ⟨back⟩ text)) := by
  have hfree : accepted (ClaimedRanges.empty.afterHits (hits ⟨front⟩ text)) (hits ⟨back⟩ text) =
      (hits ⟨back⟩ text).filter fun h =>
        !(ClaimedRanges.empty.afterHits (hits ⟨front⟩ text)).intersects h.range :=
    accepted_of_not_exclusive fun h hh => hback _ (mem_hits_iff.mp hh).1
  have hkeep : ∀ h ∈ hits ⟨back⟩ text, b ∈ h.range →
      (!(ClaimedRanges.empty.afterHits (hits ⟨front⟩ text)).intersects h.range) = true := by
    intro h hh hbh
    rw [Bool.not_eq_true', ← Bool.not_eq_true,
      intersects_afterHits_iff (exclusive_of_mem_hits hfront)]
    rintro ⟨g, hg, hm⟩
    have hin := hinside h hh g hg hm.symm
    exact hno g hg ⟨Nat.le_trans hin.1 hbh.1, Nat.lt_of_lt_of_le hbh.2 hin.2⟩
  rw [categoryAt_eq hb, categoryOf, lastAt?_hits_append, lastAt?_eq_none_iff.mpr hno, Option.or_none,
    hfree, lastAt?_filter hkeep]
  rfl

end Front

end Highlighter

end FaustLens
