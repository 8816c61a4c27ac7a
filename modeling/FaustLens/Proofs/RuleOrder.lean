import FaustLens.Proofs.Permanence
import Mathlib.Data.List.Nodup
import Mathlib.Data.List.Perm.Basic

/-!
# When the order of two rules does not matter

Two neighbouring rules whose matches share no byte may change places. Neither of them claims a byte
that the other one matches, so each is judged as if it stood alone behind the rules before; both
orders leave the same claims, and ordered claims are told by their members. Hence the rules behind
the two are judged alike as well, and a byte that one of the two paints is not painted by the other.

Results:
* `ClaimedRanges.Ordered.eq_of_mem_iff`: ordered claims with the same members are equal.
* `accepted_hits_append_of_apart`, `afterHits_hits_comm`: two rules that are apart are judged alike in
  both orders.
* `classify_swap`: the same spans and the same claims.
-/

namespace FaustLens

/-- Ordered claims are told by their members. -/
theorem ClaimedRanges.Ordered.eq_of_mem_iff {cl dl : ClaimedRanges} (hcl : cl.Ordered)
    (hdl : dl.Ordered) (h : ∀ c, c ∈ cl.ranges ↔ c ∈ dl.ranges) : cl = dl := by
  -- a range that holds a byte does not stop before it starts
  have hne : ∀ {el : ClaimedRanges}, el.Ordered → el.ranges.Nodup := by
    intro el hel
    refine hel.apart.imp_of_mem fun {c d} hc _ hle heq => ?_
    have hfilled := hel.filled c hc
    rw [heq] at hle hfilled
    omega
  have hperm : cl.ranges.Perm dl.ranges := (List.perm_ext_iff_of_nodup (hne hcl) (hne hdl)).mpr h
  have hranges : cl.ranges = dl.ranges := by
    refine hperm.eq_of_pairwise (fun c d hc hd hcd hdc => ?_) hcl.apart hdl.apart
    have hc := hcl.filled c hc
    have hd := hdl.filled d hd
    omega
  obtain ⟨rs⟩ := cl
  obtain ⟨ss⟩ := dl
  exact congrArg ClaimedRanges.mk hranges

namespace Hit

variable {cl : ClaimedRanges} {gs hs : List Hit} {r s : Rule} {text : Text}

/-- No match of the one list shares a byte with one of the other. -/
def Apart (gs hs : List Hit) : Prop := ∀ g ∈ gs, ∀ h ∈ hs, ¬ g.range.Meets h.range

theorem Apart.symm (h : Apart gs hs) : Apart hs gs := fun g hg g' hg' hm => h g' hg' g hg hm.symm

/-- Judging matches does not change whether a range apart from them meets a claim. -/
theorem intersects_afterHits_of_apart (hcl : cl.Ordered) {m : ByteRange}
    (hap : ∀ g ∈ gs, ¬ g.range.Meets m) : (cl.afterHits gs).intersects m = cl.intersects m := by
  induction gs generalizing cl with
  | nil => rfl
  | cons g gs ih =>
    rw [ClaimedRanges.afterHits_cons, ih (ClaimedRanges.ordered_afterHit hcl g)
      fun x hx => hap x (List.mem_cons_of_mem _ hx),
      intersects_afterHit_of_apart hcl (hap g List.mem_cons_self)]

/-- **A rule is judged alike** before and behind matches that are apart from its own. -/
theorem accepted_hits_afterHits (hcl : cl.Ordered) (hap : Apart gs (r.hits text)) :
    accepted (cl.afterHits gs) (r.hits text) = accepted cl (r.hits text) := by
  have hsame : ((r.findAll text).filter fun m => !(cl.afterHits gs).intersects m) =
      (r.findAll text).filter fun m => !cl.intersects m := by
    refine List.filter_congr fun m hm => ?_
    rw [intersects_afterHits_of_apart hcl fun g hg =>
      hap g hg ⟨r, m⟩ (List.mem_map.mpr ⟨m, hm, rfl⟩)]
  rw [accepted_hits (ClaimedRanges.ordered_afterHits hcl gs), accepted_hits hcl, hsame]

/-- What is accepted of two rules that are apart is accepted of each of them alone. -/
theorem accepted_hits_append_of_apart (hcl : cl.Ordered)
    (hap : Apart (r.hits text) (s.hits text)) : accepted cl (r.hits text ++ s.hits text) =
      accepted cl (r.hits text) ++ accepted cl (s.hits text) := by
  rw [accepted_append, accepted_hits_afterHits hcl hap]

/-- **Two rules that are apart leave the same claims** in both orders. -/
theorem afterHits_hits_comm (hcl : cl.Ordered) (hap : Apart (r.hits text) (s.hits text)) :
    cl.afterHits (r.hits text ++ s.hits text) = cl.afterHits (s.hits text ++ r.hits text) := by
  refine ClaimedRanges.Ordered.eq_of_mem_iff (ClaimedRanges.ordered_afterHits hcl _)
    (ClaimedRanges.ordered_afterHits hcl _) fun c => ?_
  rw [mem_afterHits_iff, mem_afterHits_iff, accepted_hits_append_of_apart hcl hap,
    accepted_hits_append_of_apart hcl hap.symm]
  simp only [List.mem_append, or_comm]

/-- The order of two lists of matches that are apart does not matter for a byte. -/
theorem lastAt?_append_comm (hap : Apart gs hs) (b : Nat) :
    lastAt? b (gs ++ hs) = lastAt? b (hs ++ gs) := by
  rw [lastAt?_append, lastAt?_append]
  cases hg : lastAt? b gs with
  | none => rw [Option.or_none, Option.none_or]
  | some g =>
    cases hh : lastAt? b hs with
    | none => rfl
    | some h =>
      obtain ⟨hg, hbg⟩ := mem_of_lastAt? hg
      obtain ⟨hh, hbh⟩ := mem_of_lastAt? hh
      exact absurd ⟨b, hbg, hbh⟩ (hap g hg h hh)

/-- **A replacement in the middle**: matches that leave the same claims and paint each byte alike can
replace each other, whatever stands before and behind. -/
theorem lastAt?_accepted_congr {front mid mid' back : List Hit}
    (hclaims : (cl.afterHits front).afterHits mid = (cl.afterHits front).afterHits mid')
    (hlast : ∀ b, lastAt? b (accepted (cl.afterHits front) mid) =
      lastAt? b (accepted (cl.afterHits front) mid')) (b : Nat) :
    lastAt? b (accepted cl (front ++ mid ++ back)) =
      lastAt? b (accepted cl (front ++ mid' ++ back)) := by
  have hsplit : ∀ m : List Hit, lastAt? b (accepted cl (front ++ m ++ back)) =
      (lastAt? b (accepted ((cl.afterHits front).afterHits m) back)).or
        ((lastAt? b (accepted (cl.afterHits front) m)).or (lastAt? b (accepted cl front))) := by
    intro m
    rw [accepted_append, accepted_append, lastAt?_append, lastAt?_append,
      ClaimedRanges.afterHits_append]
  rw [hsplit, hsplit, hclaims, hlast]

end Hit

namespace Highlighter

open Hit

variable {front back : List Rule} {r s : Rule} {text : Text}

theorem hits_pair (front back : List Rule) (r s : Rule) (text : Text) :
    hits ⟨front ++ [r, s] ++ back⟩ text =
      hits ⟨front⟩ text ++ (r.hits text ++ s.hits text) ++ hits ⟨back⟩ text := by
  have hboth : hits ⟨[r, s]⟩ text = r.hits text ++ s.hits text := by
    rw [hits_cons, hits_singleton]
  rw [hits_append, hits_append, hboth]

/-- **The order of two rules matters only where their matches overlap**: if no match of the one
shares a byte with a match of the other, the rules may change places. -/
theorem classify_swap (hap : ∀ m ∈ r.findAll text, ∀ n ∈ s.findAll text, ¬ m.Meets n) :
    classify ⟨front ++ [r, s] ++ back⟩ text = classify ⟨front ++ [s, r] ++ back⟩ text ∧
      (scan ⟨front ++ [r, s] ++ back⟩ text).claims =
        (scan ⟨front ++ [s, r] ++ back⟩ text).claims := by
  have hap : Apart (r.hits text) (s.hits text) := by
    intro g hg h hh
    obtain ⟨m, hm, rfl⟩ := List.mem_map.mp hg
    obtain ⟨n, hn, rfl⟩ := List.mem_map.mp hh
    exact hap m hm n hn
  have hfront : (ClaimedRanges.empty.afterHits (hits ⟨front⟩ text)).Ordered :=
    ClaimedRanges.ordered_afterHits ClaimedRanges.ordered_empty _
  have hclaims := afterHits_hits_comm hfront hap
  refine ⟨classify_congr fun b => ?_, ?_⟩
  · rw [hits_pair, hits_pair]
    refine lastAt?_accepted_congr hclaims (fun b => ?_) b
    rw [accepted_hits_append_of_apart hfront hap, accepted_hits_append_of_apart hfront hap.symm]
    exact lastAt?_append_comm
      (fun g hg h hh => hap g (mem_of_mem_accepted hg) h (mem_of_mem_accepted hh)) b
  · rw [claims_scan, claims_scan, hits_pair, hits_pair]
    simp only [ClaimedRanges.afterHits_append _ (_ ++ _) (hits _ _),
      ClaimedRanges.afterHits_append _ (hits _ _), hclaims]

/-- The theorem for two rules between one that claims `c` and one that paints over all words. -/
theorem classify_swap_letters :
    let r : Rule := ⟨"a", "a", .one (.single 'a'), .string, true⟩
    let s : Rule := ⟨"pair", "bc|d", .alt (.cat (.one (.single 'b')) (.one (.single 'c')))
      (.one (.single 'd')), .type, true⟩
    let front : List Rule := [⟨"c", "c", .one (.single 'c'), .comment, true⟩]
    let back : List Rule :=
      [⟨"word", "[a-z]+", .repeated (.one (.range 'a' 'z')) 1 none true, .keyword, false⟩]
    let text : Text := ['a', 'b', 'c', ' ', 'd', ' ', 'e']
    (∀ m ∈ r.findAll text, ∀ n ∈ s.findAll text, ¬ m.Meets n) ∧
      classify ⟨front ++ [r, s] ++ back⟩ text = classify ⟨front ++ [s, r] ++ back⟩ text ∧
      (scan ⟨front ++ [r, s] ++ back⟩ text).claims =
        (scan ⟨front ++ [s, r] ++ back⟩ text).claims := by
  intro r s front back text
  have hap : ∀ m ∈ r.findAll text, ∀ n ∈ s.findAll text, ¬ m.Meets n := by decide +kernel
  exact ⟨hap, classify_swap hap⟩

end Highlighter

end FaustLens
