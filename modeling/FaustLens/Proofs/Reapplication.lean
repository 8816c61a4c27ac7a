import FaustLens.Proofs.RuleOrder

/-!
# Applying an exclusive rule again

Behind an exclusive rule each of its matches is settled: it has no byte, or it meets a claim, its own
one if it was accepted and an earlier one if it was discarded. Claims only grow, so it stays settled
whatever rules come next. A settled match claims nothing and paints no byte, so another rule with the
same pattern changes nothing, whatever its category and whether it is exclusive or not.

Results:
* `Settled.afterHits`: what is settled stays settled.
* `settled_of_mem`: judging a match of an exclusive rule settles it.
* `afterHits_of_settled`, `lastAt?_accepted_of_settled`: settled matches change nothing.
* `classify_reapplied`: the same spans and the same claims.
-/

namespace FaustLens

namespace ClaimedRanges

variable {cl : ClaimedRanges} {m : ByteRange} {g : Hit} {hits : List Hit}

/-- Nothing can come of a match of the range: it has no byte or meets a claim. -/
def Settled (cl : ClaimedRanges) (m : ByteRange) : Prop :=
  m.isEmpty = true ∨ cl.intersects m = true

theorem settled_of_mem_ranges (hcl : cl.Ordered) (hm : m ∈ cl.ranges) : cl.Settled m := by
  have hmeets : m.Meets m :=
    ByteRange.meets_of_inside ⟨Nat.le_refl _, Nat.le_refl _⟩ (hcl.filled m hm)
  exact Or.inr ((intersects_iff hcl m).mpr ⟨m, hm, hmeets⟩)

/-- Judging a match takes no claim away. -/
theorem Settled.afterHit (h : cl.Settled m) (hcl : cl.Ordered) (g : Hit) :
    (cl.afterHit g).Settled m := by
  refine h.imp_right fun hi => ?_
  obtain ⟨c, hc, hmeets⟩ := (intersects_iff hcl m).mp hi
  exact (intersects_iff (ordered_afterHit hcl g) m).mpr
    ⟨c, mem_afterHit_iff.mpr (Or.inl hc), hmeets⟩

/-- **What is settled stays settled.** -/
theorem Settled.afterHits (h : cl.Settled m) (hcl : cl.Ordered) (hits : List Hit) :
    (cl.afterHits hits).Settled m := by
  induction hits generalizing cl with
  | nil => exact h
  | cons g hits ih => exact ih (h.afterHit hcl g) (ordered_afterHit hcl g)

/-- Behind a match of an exclusive rule, its range is settled: by the claim that discarded the match
or else by its own. -/
theorem settled_afterHit (hcl : cl.Ordered) (hex : g.rule.exclusive = true) :
    (cl.afterHit g).Settled g.range := by
  cases hi : cl.intersects g.range with
  | true => exact Settled.afterHit (Or.inr hi) hcl g
  | false =>
    cases he : g.range.isEmpty with
    | true => exact Or.inl he
    | false =>
      exact settled_of_mem_ranges (ordered_afterHit hcl g)
        (mem_afterHit_iff.mpr (Or.inr ⟨rfl, hi, hex, he⟩))

/-- **Judging settles** the matches of exclusive rules. -/
theorem settled_of_mem (hcl : cl.Ordered) (hg : g ∈ hits) (hex : g.rule.exclusive = true) :
    (cl.afterHits hits).Settled g.range := by
  induction hits generalizing cl with
  | nil => exact absurd hg List.not_mem_nil
  | cons h hits ih =>
    have hcl' := ordered_afterHit hcl h
    rcases List.mem_cons.mp hg with rfl | hg
    · exact (settled_afterHit hcl hex).afterHits hcl' hits
    · exact ih hcl' hg

theorem afterHit_of_settled (h : cl.Settled g.range) : cl.afterHit g = cl := by
  unfold ClaimedRanges.afterHit
  rcases h with he | hi
  · -- the match may be accepted, but an empty range is not claimed
    rw [intersects_empty cl he, if_neg Bool.false_ne_true, claim, if_pos he, ite_self]
  · rw [if_pos hi]

/-- **Settled matches claim nothing.** -/
theorem afterHits_of_settled (h : ∀ g ∈ hits, cl.Settled g.range) : cl.afterHits hits = cl := by
  induction hits with
  | nil => rfl
  | cons g hits ih =>
    rw [List.forall_mem_cons] at h
    rw [afterHits_cons, afterHit_of_settled h.1, ih h.2]

end ClaimedRanges

namespace Hit

/-- **Settled matches paint nothing.** -/
theorem lastAt?_accepted_of_settled {cl : ClaimedRanges} {hits : List Hit} (hcl : cl.Ordered)
    (h : ∀ g ∈ hits, cl.Settled g.range) (b : Nat) : lastAt? b (accepted cl hits) = none := by
  refine lastAt?_eq_none_iff.mpr fun g hg hb => ?_
  rcases h g (mem_of_mem_accepted hg) with he | hi
  · have hfilled := Nat.lt_of_le_of_lt hb.1 hb.2
    exact absurd he (by simp [ByteRange.isEmpty_eq_false_iff.mpr hfilled])
  · obtain ⟨c, hc, hmeets⟩ := (ClaimedRanges.intersects_iff hcl _).mp hi
    exact not_meets_of_mem_accepted hcl hg hc hmeets

end Hit

namespace Highlighter

open Hit

variable {front mid back : List Rule} {r again : Rule}

/-- **An exclusive rule cannot be applied again**: behind it, a rule with the same pattern changes
neither the spans nor the claims, whatever its category, whether it is exclusive or not, and whatever
rules stand before, between and behind the two. -/
theorem classify_reapplied (hex : r.exclusive = true) (hpattern : again.pattern = r.pattern)
    (text : Text) :
    classify ⟨front ++ [r] ++ mid ++ [again] ++ back⟩ text =
        classify ⟨front ++ [r] ++ mid ++ back⟩ text ∧
      (scan ⟨front ++ [r] ++ mid ++ [again] ++ back⟩ text).claims =
        (scan ⟨front ++ [r] ++ mid ++ back⟩ text).claims := by
  have hlead : (ClaimedRanges.empty.afterHits (hits ⟨front ++ [r] ++ mid⟩ text)).Ordered :=
    ClaimedRanges.ordered_afterHits ClaimedRanges.ordered_empty _
  have hsettled : ∀ g ∈ again.hits text,
      (ClaimedRanges.empty.afterHits (hits ⟨front ++ [r] ++ mid⟩ text)).Settled g.range := by
    intro g hg
    obtain ⟨m, hm, rfl⟩ := List.mem_map.mp hg
    have hfound : m ∈ r.findAll text := by
      rw [Rule.findAll, ← hpattern]
      exact hm
    have hmem : ⟨r, m⟩ ∈ hits ⟨front ++ [r] ++ mid⟩ text := mem_hits_iff.mpr ⟨by simp, hfound⟩
    exact ClaimedRanges.settled_of_mem (g := ⟨r, m⟩) ClaimedRanges.ordered_empty hmem hex
  have hwith : hits ⟨front ++ [r] ++ mid ++ [again] ++ back⟩ text =
      hits ⟨front ++ [r] ++ mid⟩ text ++ again.hits text ++ hits ⟨back⟩ text := by
    rw [hits_append, hits_append _ [again], hits_singleton]
  have hwithout : hits ⟨front ++ [r] ++ mid ++ back⟩ text =
      hits ⟨front ++ [r] ++ mid⟩ text ++ [] ++ hits ⟨back⟩ text := by
    rw [hits_append, List.append_nil]
  have hclaims := ClaimedRanges.afterHits_of_settled hsettled
  refine ⟨classify_congr fun b => ?_, ?_⟩
  · rw [hwith, hwithout]
    exact lastAt?_accepted_congr hclaims (lastAt?_accepted_of_settled hlead hsettled) b
  · rw [claims_scan, claims_scan, hwith, hwithout, List.append_nil]
    simp only [ClaimedRanges.afterHits_append, hclaims]

/-- The theorem for a pattern with a match that meets an earlier claim, an empty one and one that is
claimed. -/
theorem classify_reapplied_words :
    let r : Rule := ⟨"word", "[a-z]*", .repeated (.one (.range 'a' 'z')) 0 none true, .string, true⟩
    let again : Rule :=
      ⟨"name", "[a-z]*", .repeated (.one (.range 'a' 'z')) 0 none true, .keyword, false⟩
    let front : List Rule := [⟨"mark", "b", .one (.single 'b'), .comment, true⟩]
    let mid : List Rule :=
      [⟨"line", "[ -~]+", .repeated (.one (.range ' ' '~')) 1 none true, .type, false⟩]
    let back : List Rule := [⟨"gap", " ", .one (.single ' '), .punctuation, true⟩]
    let text : Text := ['a', 'b', ' ', ' ', 'c']
    r.exclusive = true ∧ again.pattern = r.pattern ∧
      again.findAll text = [⟨0, 2⟩, ⟨3, 3⟩, ⟨4, 5⟩] ∧
      classify ⟨front ++ [r] ++ mid ++ [again] ++ back⟩ text =
        classify ⟨front ++ [r] ++ mid ++ back⟩ text ∧
      (scan ⟨front ++ [r] ++ mid ++ [again] ++ back⟩ text).claims =
        (scan ⟨front ++ [r] ++ mid ++ back⟩ text).claims := by
  intro r again front mid back text
  have hex : r.exclusive = true := rfl
  have hpattern : again.pattern = r.pattern := rfl
  have hfound : again.findAll text = [⟨0, 2⟩, ⟨3, 3⟩, ⟨4, 5⟩] := by decide +kernel
  exact ⟨hex, hpattern, hfound, classify_reapplied hex hpattern text⟩

end Highlighter

end FaustLens
