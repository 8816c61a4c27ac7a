import FaustLens.Proofs.Tables

/-!
# The exclusive rules decide alone

Deleting all rules that are not exclusive changes nothing about claims: such a rule claims nothing,
so after each match the claims are those of the shorter table. Hence the exclusive rules have the
same accepted matches in both tables, and a byte of such a match has the category of its rule in
both, whatever the other rules paint.

Results:
* `accepted_filter_exclusive`, `afterHits_filter_exclusive`: the two runs side by side.
* `hits_exclusivePart`: the matches of the shorter table.
* `claims_permanent`: what the exclusive rules decide, and that it lasts.
-/

namespace FaustLens

namespace Hit

/-- **Two runs side by side**: from the same claims on, the exclusive rules have the same accepted
matches with the other matches and without them. -/
theorem accepted_filter_exclusive : ∀ (hits : List Hit) (cl : ClaimedRanges),
    accepted cl (hits.filter (·.rule.exclusive)) =
      (accepted cl hits).filter (·.rule.exclusive)
  | [], _ => rfl
  | g :: hits, cl => by
    -- both runs have the same claims behind `g`: if it is deleted, it claims nothing
    have ih := accepted_filter_exclusive hits (cl.afterHit g)
    rw [List.filter_cons, accepted_cons]
    cases hex : g.rule.exclusive with
    | true =>
      rw [if_pos rfl, accepted_cons, ih]
      split
      · rfl
      · rw [List.filter_cons, if_pos hex]
    | false =>
      rw [afterHit_of_not_exclusive hex] at ih ⊢
      rw [if_neg Bool.false_ne_true, ih]
      split
      · rfl
      · rw [List.filter_cons, hex, if_neg Bool.false_ne_true]

/-- The claims are the same with the other matches and without them. -/
theorem afterHits_filter_exclusive : ∀ (hits : List Hit) (cl : ClaimedRanges),
    cl.afterHits (hits.filter (·.rule.exclusive)) = cl.afterHits hits
  | [], _ => rfl
  | g :: hits, cl => by
    have ih := afterHits_filter_exclusive hits (cl.afterHit g)
    rw [ClaimedRanges.afterHits_cons, ← ih, List.filter_cons]
    cases hex : g.rule.exclusive with
    | true => rfl
    | false => rw [if_neg Bool.false_ne_true, afterHit_of_not_exclusive hex]

end Hit

namespace Highlighter

open Hit

/-- The table with the exclusive rules only, in their order. -/
def exclusivePart (h : Highlighter) : Highlighter := ⟨h.rules.filter (·.exclusive)⟩

theorem hits_exclusivePart (h : Highlighter) (text : Text) :
    h.exclusivePart.hits text = (h.hits text).filter (·.rule.exclusive) := by
  obtain ⟨rules⟩ := h
  unfold exclusivePart
  induction rules with
  | nil => rfl
  | cons r rules ih =>
    rw [hits_cons, List.filter_append, filter_hits r text (·.exclusive), ← ih, List.filter_cons]
    split <;> rfl

theorem claims_scan (h : Highlighter) (text : Text) :
    (h.scan text).claims = ClaimedRanges.empty.afterHits (h.hits text) := rfl

/-- **Claims are permanent and decided by the exclusive rules alone**: with the other rules and
without them, the same matches of exclusive rules are accepted and the same ranges are claimed, and
each byte of such a match has the category of its rule. -/
theorem claims_permanent (h : Highlighter) (text : Text) :
    (accepted .empty (h.hits text)).filter (·.rule.exclusive) =
        accepted .empty (h.exclusivePart.hits text) ∧
      (h.scan text).claims = (h.exclusivePart.scan text).claims ∧
      ∀ g ∈ accepted .empty (h.exclusivePart.hits text), ∀ b ∈ g.range,
        h.categoryAt text b = some g.rule.category ∧
          h.exclusivePart.categoryAt text b = some g.rule.category := by
  have hsame : accepted .empty (h.exclusivePart.hits text) =
      (accepted .empty (h.hits text)).filter (·.rule.exclusive) := by
    rw [hits_exclusivePart, accepted_filter_exclusive]
  refine ⟨hsame.symm, ?_, fun g hg b hb => ?_⟩
  · rw [claims_scan, claims_scan, hits_exclusivePart, afterHits_filter_exclusive]
  · obtain ⟨hfull, hex⟩ := List.mem_filter.mp (hsame ▸ hg)
    exact ⟨categoryAt_of_mem_accepted hfull hex hb, categoryAt_of_mem_accepted hg hex hb⟩

/-- The theorem for a table that claims `b` between a rule for words and one for whole lines. -/
theorem claims_permanent_words :
    let table : Highlighter := ⟨[
      ⟨"word", "[a-z]+", .repeated (.one (.range 'a' 'z')) 1 none true, .keyword, false⟩,
      ⟨"mark", "b", .one (.single 'b'), .string, true⟩,
      ⟨"line", "[ -~]+", .repeated (.one (.range ' ' '~')) 1 none true, .type, false⟩]⟩
    ∃ g ∈ accepted .empty (table.exclusivePart.hits ['a', 'b', ' ', 'c']), 1 ∈ g.range ∧
      table.categoryAt ['a', 'b', ' ', 'c'] 1 = some g.rule.category ∧
      table.exclusivePart.categoryAt ['a', 'b', ' ', 'c'] 1 = some g.rule.category := by
  intro table
  have hany : (accepted .empty (table.exclusivePart.hits ['a', 'b', ' ', 'c'])).any
      (·.range.contains 1) = true := by decide +kernel
  obtain ⟨g, hg, hb⟩ := List.any_eq_true.mp hany
  have hb : 1 ∈ g.range := ByteRange.contains_iff.mp hb
  exact ⟨g, hg, hb, (claims_permanent table ['a', 'b', ' ', 'c']).2.2 g hg 1 hb⟩

end Highlighter

end FaustLens
