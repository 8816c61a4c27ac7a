import FaustLens.Proofs.Pattern.Preferred
import FaustLens.Proofs.Pattern.Locality

/-!
# Matching behind a line feed

A text may be matched by itself or behind another text that ends with a line feed. A pattern that
does not ask for the start of the text (`startless`) cannot tell the two: no line feed is a word
character, and a line begins at the start of the text too. All ends are further back by the length
of the text in front (`Cursor.behindLine`), and they come in the same order.

Results:
* `sameOrder_behindLine`: the ends in both places.
* `matchesAt_append_iff_of_startless`: where the pattern matches.
-/

namespace FaustLens

/-- The range that is `n` bytes further back. -/
def ByteRange.shift (n : Nat) (r : ByteRange) : ByteRange := ⟨n + r.start, n + r.stop⟩

@[simp] theorem ByteRange.shift_start (n : Nat) (r : ByteRange) : (r.shift n).start = n + r.start :=
  rfl

@[simp] theorem ByteRange.shift_stop (n : Nat) (r : ByteRange) : (r.shift n).stop = n + r.stop := rfl

/-- The place in a text behind `n` bytes that end with a line feed, for a place in the text alone. -/
def Cursor.behindLine (n : Nat) (c : Cursor) : Cursor :=
  ⟨some (c.prev.getD '\n'), n + c.offset, c.rest⟩

@[simp] theorem Cursor.behindLine_rest (n : Nat) (c : Cursor) : (c.behindLine n).rest = c.rest := rfl

theorem Cursor.behindLine_past (n : Nat) (cur : Cursor) (c : Char) (rest : Text) :
    (cur.behindLine n).past c rest = (cur.past c rest).behindLine n := by
  simp [behindLine, past, Nat.add_assoc]

theorem Cursor.behindLine_between {a : Text} (ha : a.getLast? = some '\n') (u v : Text) :
    (between u v).behindLine a.byteLength = between (a ++ u) v := by
  simp only [behindLine, between, List.getLast?_append, ha, Text.byteLength_append]
  cases u.getLast? <;> rfl

/-- The assertion does not ask for the start of the text. -/
def Assertion.startless : Assertion → Bool
  | textStart => false
  | textEnd => true
  | lineStart _ => true
  | lineEnd _ => true
  | wordEdge _ _ => true

theorem Assertion.holds_behindLine {a : Assertion} (ha : a.startless = true) (n : Nat) (c : Cursor) :
    a.holds (c.behindLine n) = a.holds c := by
  obtain ⟨prev, offset, rest⟩ := c
  have hascii : Unicode.asciiWord '\n' = false := by decide +kernel
  have hword : Unicode.isWord '\n' = false := by decide +kernel
  have hreturn : (some '\n' != some '\r') = (none != some '\r') := by decide
  cases a with
  | textStart => exact absurd ha (by decide)
  | textEnd => rfl
  | lineStart crlf => cases crlf <;> cases prev <;> simp [holds, Cursor.behindLine]
  | lineEnd crlf => cases crlf <;> cases prev <;> simp [holds, Cursor.behindLine, hreturn]
  | wordEdge edge ascii =>
    cases ascii <;> cases prev <;> simp [holds, Cursor.behindLine, hascii, hword]

namespace SameOrder

variable {as bs : List Cursor} {f : Cursor → Cursor}

theorem map (h : SameOrder as bs) (f : Cursor → Cursor) : SameOrder (as.map f) (bs.map f) := by
  intro β k
  rw [List.findSome?_map, List.findSome?_map, h]

/-- What follows each place may be mapped along with the places. -/
theorem flatMap_map (h : SameOrder bs (as.map f)) {g : Cursor → List Cursor}
    (hg : ∀ c ∈ as, SameOrder (g (f c)) ((g c).map f)) :
    SameOrder (bs.flatMap g) ((as.flatMap g).map f) := by
  refine (h.flatMap fun _ _ => refl _).trans ?_
  rw [List.flatMap_map, List.map_flatMap]
  exact flatMap_congr hg

end SameOrder

namespace Pattern

open Cursor (between)

/-- No assertion of the pattern asks for the start of the text. -/
def startless : Pattern → Bool
  | empty => true
  | one _ => true
  | assert a => a.startless
  | capture _ p => startless p
  | cat a b => startless a && startless b
  | alt a b => startless a && startless b
  | repeated p _ _ _ => startless p

variable {size n : Nat}

section Iterations

variable {body : Cursor → List Cursor} (hreach : ∀ c e, e ∈ body c → c.Reaches e)
  (hbody : ∀ c : Cursor, c.rest.length ≤ size →
    SameOrder (body (c.behindLine n)) ((body c).map (·.behindLine n)))

include hreach hbody

theorem sameOrder_rounds_behindLine : ∀ (k : Nat) {c : Cursor}, c.rest.length ≤ size →
    SameOrder (rounds body k (c.behindLine n)) ((rounds body k c).map (·.behindLine n))
  | 0, _, _ => SameOrder.refl _
  | k + 1, c, hc => (hbody c hc).flatMap_map fun d hd =>
      sameOrder_rounds_behindLine k (Nat.le_trans (hreach c d hd).length_le hc)

theorem sameOrder_loops_behindLine (greedy : Bool) : ∀ (k : Nat) {c : Cursor}, c.rest.length ≤ size →
    SameOrder (loops body greedy k (c.behindLine n)) ((loops body greedy k c).map (·.behindLine n))
  | 0, _, _ => SameOrder.refl _
  | k + 1, c, hc => by
    have hflat := (hbody c hc).flatMap_map fun d hd =>
      sameOrder_loops_behindLine greedy k (Nat.le_trans (hreach c d hd).length_le hc)
    cases greedy with
    | true =>
      simp only [loops, if_true, List.map_append]
      exact hflat.append (SameOrder.refl _)
    | false =>
      have := (SameOrder.refl [c.behindLine n]).append hflat
      simpa [loops] using this

end Iterations

/-- **The ends behind a line feed** are the ends in the text alone, further back and in the same
order. -/
theorem sameOrder_behindLine : ∀ {p : Pattern}, p.steady = true → p.startless = true →
    ∀ {c : Cursor}, c.rest.length ≤ size →
      SameOrder (ends size p (c.behindLine n)) ((ends size p c).map (·.behindLine n))
  | empty, _, _, _, _ => SameOrder.refl _
  | one set, _, _, c, _ => by
    rw [ends, ends, Cursor.behindLine_rest]
    cases c.rest with
    | nil => exact SameOrder.refl _
    | cons x rest =>
      simp only
      split
      · rw [Cursor.behindLine_past]
        exact SameOrder.refl _
      · exact SameOrder.refl _
  | assert a, _, ha, c, _ => by
    rw [ends, ends, Assertion.holds_behindLine ha]
    split <;> exact SameOrder.refl _
  | capture _ p, hp, hs, _, hc => sameOrder_behindLine (p := p) hp hs hc
  | cat a b, hp, hs, c, hc => by
    obtain ⟨ha, hb⟩ := Bool.and_eq_true_iff.mp hp
    obtain ⟨hsa, hsb⟩ := Bool.and_eq_true_iff.mp hs
    refine (sameOrder_cat size a b _).trans (SameOrder.trans ?_ ((sameOrder_cat size a b c).symm.map _))
    refine (sameOrder_behindLine ha hsa hc).flatMap_map fun d hd => ?_
    have hshort := (reaches_of_mem_ends size a c d hd).length_le
    exact sameOrder_behindLine hb hsb (Nat.le_trans hshort hc)
  | alt a b, hp, hs, c, hc => by
    obtain ⟨ha, hb⟩ := Bool.and_eq_true_iff.mp hp
    obtain ⟨hsa, hsb⟩ := Bool.and_eq_true_iff.mp hs
    refine (sameOrder_alt size a b _).trans (SameOrder.trans ?_ ((sameOrder_alt size a b c).symm.map _))
    rw [List.map_append]
    exact (sameOrder_behindLine ha hsa hc).append (sameOrder_behindLine hb hsb hc)
  | repeated p least most greedy, hp, hs, c, hc => by
    obtain ⟨hp, hn⟩ := Bool.and_eq_true_iff.mp hp
    have hn : p.nullable = false := by simpa using hn
    have hreach := reaches_of_mem_ends size p
    have hbody : ∀ c : Cursor, c.rest.length ≤ size →
        SameOrder (ends size p (c.behindLine n)) ((ends size p c).map (·.behindLine n)) :=
      fun _ hc => sameOrder_behindLine (p := p) hp hs hc
    have hc' : (c.behindLine n).rest.length ≤ size := hc
    refine (sameOrder_repeated hn least most greedy hc').trans
      (SameOrder.trans ?_ ((sameOrder_repeated hn least most greedy hc).symm.map _))
    refine (sameOrder_rounds_behindLine hreach hbody least hc).flatMap_map fun d hd => ?_
    have hd : c.Reaches d := rel_of_mem_rounds Cursor.reaches_refl (fun _ _ _ => Cursor.Reaches.trans)
      hreach least hd
    exact sameOrder_loops_behindLine hreach hbody greedy _ (Nat.le_trans hd.length_le hc)

theorem preferred_behindLine {p : Pattern} (hp : p.steady = true) (hs : p.startless = true)
    {c : Cursor} (hc : c.rest.length ≤ size) :
    preferred size p (c.behindLine n) = (preferred size p c).map (·.behindLine n) := by
  rw [preferred_eq_findSome?, sameOrder_behindLine hp hs hc, List.findSome?_map]
  unfold preferred
  cases ends size p c <;> rfl

/-- **Behind a line feed** the pattern matches where it matches in the text alone. -/
theorem matchesAt_append_iff_of_startless {p : Pattern} (hp : p.steady = true)
    (hs : p.startless = true) {a b : Text} (ha : a.getLast? = some '\n') {r : ByteRange} :
    MatchesAt p (a ++ b) (r.shift a.byteLength) ↔ MatchesAt p b r := by
  have hprefer : ∀ u v, b = u ++ v → preferred (a ++ b).length p (between (a ++ u) v) =
      (preferred b.length p (between u v)).map (·.behindLine a.byteLength) := by
    rintro u v rfl
    have hv : v.length ≤ (u ++ v).length := (List.suffix_append u v).length_le
    have hv' : v.length ≤ (a ++ (u ++ v)).length :=
      Nat.le_trans hv (List.suffix_append a (u ++ v)).length_le
    rw [← Cursor.behindLine_between ha, preferred_behindLine hp hs hv',
      preferred_eq_of_length_le hp hv' hv]
  constructor
  · rintro ⟨a', v, e, htext, he, hr⟩
    have hstart : a.byteLength + r.start = a'.byteLength := congrArg ByteRange.start hr
    obtain ⟨u, rfl, hb⟩ := Text.exists_middle htext (by omega)
    rw [hprefer u v hb] at he
    obtain ⟨d, hd, rfl⟩ := Option.map_eq_some_iff.mp he
    have hstop : a.byteLength + r.stop = a.byteLength + d.offset := congrArg ByteRange.stop hr
    rw [Text.byteLength_append] at hstart
    refine ⟨u, v, d, hb, hd, ?_⟩
    rw [← Nat.add_left_cancel hstart, ← Nat.add_left_cancel hstop]
  · rintro ⟨u, v, e, hb, he, rfl⟩
    refine ⟨a ++ u, v, e.behindLine a.byteLength, by rw [hb, List.append_assoc], ?_, ?_⟩
    · rw [hprefer u v hb, he, Option.map_some]
    · rw [Text.byteLength_append]
      rfl

end Pattern

end FaustLens
