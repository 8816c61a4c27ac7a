import FaustLens.Proofs.Pattern.Preference
import Mathlib.Data.List.Pairwise

/-!
# The matches of a pattern in a text

`Pattern.findAll` goes through the text from left to right. Its matches lie in the text, one behind
the other. For a pattern that cannot match the empty text they have a description without a scan: a
place of the text is where a match starts iff the pattern matches there and no match that starts
earlier goes past it. So the list of the matches is what a choice from the left gives: at each step
the first place behind the match before (`ChosenFrom`).

Results:
* `pairwise_findAll`, `bounds_of_mem_findAll`: the matches are in order, apart and in the text.
* `mem_findAll_iff`: the description without a scan.
* `chosenFrom_matchesAt_iff`: the matches are chosen from the left.
* `findAll_congr`: patterns that match at the same places have the same matches.
-/

namespace FaustLens

/-- The place between the two parts of the text `a ++ b`. -/
def Cursor.between (a b : Text) : Cursor := ⟨a.getLast?, a.byteLength, b⟩

namespace Cursor

theorem skip_between (a w b b' : Text) : (between a b').skip w b = between (a ++ w) b := by
  simp only [between, skip, List.getLast?_append, Text.byteLength_append]

theorem reaches_between_iff {a b : Text} {e : Cursor} :
    (between a b).Reaches e ↔ ∃ w b', b = w ++ b' ∧ e = between (a ++ w) b' := by
  constructor
  · rintro ⟨w, hw, he⟩
    rw [skip_between] at he
    exact ⟨w, e.rest, hw, he⟩
  · rintro ⟨w, b', hb, rfl⟩
    exact ⟨w, hb, (skip_between a w b' b).symm⟩

end Cursor

namespace Pattern

open Cursor (between)

/-- The end that the pattern prefers for a match that starts at a place. -/
def preferred (size : Nat) (p : Pattern) (cur : Cursor) : Option Cursor := (ends size p cur).head?

theorem mem_of_preferred {size : Nat} {p : Pattern} {cur e : Cursor}
    (h : preferred size p cur = some e) : e ∈ ends size p cur := List.mem_of_head? h

theorem matchAt_eq_some_iff {p : Pattern} {size : Nat} {last : Option Nat} {cur : Cursor}
    {r : ByteRange} : matchAt p size last cur = some r ↔ ∃ e, preferred size p cur = some e ∧
      (∀ n ∈ last, n ≤ cur.offset) ∧ ¬ (e.offset = cur.offset ∧ last = some cur.offset) ∧
      r = ⟨cur.offset, e.offset⟩ := by
  have hlast : last.any (cur.offset < ·) = true ↔ ¬ ∀ n ∈ last, n ≤ cur.offset := by
    cases last <;> simp
  unfold matchAt preferred
  split
  · rename_i hl
    have hl := hlast.mp hl
    exact ⟨fun h => absurd h (by simp), fun ⟨_, _, h, _⟩ => absurd h hl⟩
  · rename_i hl
    have hl : ∀ n ∈ last, n ≤ cur.offset := Decidable.not_not.mp (mt hlast.mpr hl)
    cases (ends size p cur).head? with
    | none => simp
    | some e =>
      simp only
      split
      · rename_i he
        refine ⟨fun h => absurd h (by simp), ?_⟩
        rintro ⟨e', he', -, hne, -⟩
        obtain rfl := Option.some.inj he'
        exact absurd he hne
      · rename_i he
        constructor
        · intro h
          exact ⟨e, rfl, hl, he, (Option.some.inj h).symm⟩
        · rintro ⟨e', he', -, -, rfl⟩
          rw [Option.some.inj he']

/-! ## In order, apart and in the text -/

/-- The bounds of a match at a place. -/
theorem bounds_of_matchAt {p : Pattern} {size : Nat} {last : Option Nat} {cur : Cursor}
    {r : ByteRange} (h : matchAt p size last cur = some r) : r.start = cur.offset ∧
      r.start ≤ r.stop ∧ r.stop ≤ cur.offset + cur.rest.byteLength ∧ ∀ n ∈ last, n ≤ r.start := by
  obtain ⟨e, he, hl, -, rfl⟩ := matchAt_eq_some_iff.mp h
  have hr := reaches_of_mem_ends size p cur e (mem_of_preferred he)
  have hstop : e.offset ≤ cur.offset + cur.rest.byteLength := hr.offset_add ▸ Nat.le_add_right _ _
  exact ⟨rfl, hr.offset_le, hstop, hl⟩

theorem bounds_of_mem_findFrom {p : Pattern} {size : Nat} {r : ByteRange} :
    ∀ {text : Text} {last : Option Nat} {prev : Option Char} {offset : Nat},
      r ∈ findFrom p size last prev offset text → offset ≤ r.start ∧ r.start ≤ r.stop ∧
        r.stop ≤ offset + text.byteLength ∧ ∀ n ∈ last, n ≤ r.start
  | [], last, prev, offset, h => by
    obtain ⟨h₁, h₂⟩ := bounds_of_matchAt (Option.mem_toList.mp h)
    exact ⟨Nat.le_of_eq h₁.symm, h₂⟩
  | c :: text, last, prev, offset, h => by
    rw [findFrom] at h
    rw [Text.byteLength_cons]
    split at h
    · rename_i r₀ hr₀
      obtain ⟨h₁, h₂, h₃, h₄⟩ := bounds_of_matchAt hr₀
      simp only [Text.byteLength_cons] at h₁ h₃
      rcases List.mem_cons.mp h with rfl | h
      · exact ⟨by omega, h₂, h₃, h₄⟩
      · obtain ⟨g₁, g₂, g₃, g₄⟩ := bounds_of_mem_findFrom h
        have hstop := g₄ r₀.stop rfl
        refine ⟨by omega, g₂, by omega, fun n hn => ?_⟩
        have := h₄ n hn
        omega
    · obtain ⟨g₁, g₂, g₃, g₄⟩ := bounds_of_mem_findFrom h
      exact ⟨by omega, g₂, by omega, g₄⟩

theorem pairwise_findFrom {p : Pattern} {size : Nat} : ∀ {text : Text} {last : Option Nat}
    {prev : Option Char} {offset : Nat},
      (findFrom p size last prev offset text).Pairwise fun r s => r.stop ≤ s.start
  | [], last, prev, offset => by
    rw [findFrom]
    cases matchAt p size last ⟨prev, offset, []⟩ <;> simp
  | c :: text, last, prev, offset => by
    rw [findFrom]
    split
    · rename_i r₀ _
      exact List.pairwise_cons.mpr
        ⟨fun s hs => (bounds_of_mem_findFrom hs).2.2.2 r₀.stop rfl, pairwise_findFrom⟩
    · exact pairwise_findFrom

/-- **The matches are in order and apart.** -/
theorem pairwise_findAll (p : Pattern) (text : Text) :
    (p.findAll text).Pairwise fun r s => r.stop ≤ s.start := pairwise_findFrom

theorem bounds_of_mem_findAll {p : Pattern} {text : Text} {r : ByteRange}
    (h : r ∈ p.findAll text) : r.start ≤ r.stop ∧ r.stop ≤ text.byteLength := by
  have hb := bounds_of_mem_findFrom h
  exact ⟨hb.2.1, by omega⟩

/-- Two matches of one pattern are equal or apart. -/
theorem eq_or_apart_of_mem_findAll {p : Pattern} {text : Text} {r s : ByteRange}
    (hr : r ∈ p.findAll text) (hs : s ∈ p.findAll text) :
    r = s ∨ r.stop ≤ s.start ∨ s.stop ≤ r.start := by
  have hsymm : Std.Symm fun r s : ByteRange => r.stop ≤ s.start ∨ s.stop ≤ r.start :=
    ⟨fun _ _ => Or.symm⟩
  have hp : (p.findAll text).Pairwise fun r s => r.stop ≤ s.start ∨ s.stop ≤ r.start :=
    (pairwise_findAll p text).imp Or.inl
  by_cases h : r = s
  · exact Or.inl h
  · exact Or.inr (hp.forall hr hs h)

/-! ## Without a scan -/

/-- The pattern matches in the text `a ++ rest` at `r`, from a place behind `a` on. -/
def MatchesFrom (size : Nat) (p : Pattern) (a rest : Text) (r : ByteRange) : Prop :=
  ∃ w b e, rest = w ++ b ∧ preferred size p (between (a ++ w) b) = some e ∧
    r = ⟨(a ++ w).byteLength, e.offset⟩

theorem matchesFrom_nil {size : Nat} {p : Pattern} {a : Text} {r : ByteRange} :
    MatchesFrom size p a [] r ↔
      ∃ e, preferred size p (between a []) = some e ∧ r = ⟨a.byteLength, e.offset⟩ := by
  constructor
  · rintro ⟨w, b, e, hw, he, hr⟩
    obtain ⟨rfl, rfl⟩ := List.append_eq_nil_iff.mp hw.symm
    rw [List.append_nil] at he hr
    exact ⟨e, he, hr⟩
  · rintro ⟨e, he, hr⟩
    refine ⟨[], [], e, rfl, ?_, ?_⟩ <;> rwa [List.append_nil]

theorem matchesFrom_cons {size : Nat} {p : Pattern} {a rest : Text} {c : Char} {r : ByteRange} :
    MatchesFrom size p a (c :: rest) r ↔
      (∃ e, preferred size p (between a (c :: rest)) = some e ∧ r = ⟨a.byteLength, e.offset⟩) ∨
        MatchesFrom size p (a ++ [c]) rest r := by
  constructor
  · rintro ⟨w, b, e, hw, he, hr⟩
    cases w with
    | nil =>
      rw [List.nil_append] at hw
      rw [List.append_nil] at he hr
      exact Or.inl ⟨e, hw ▸ he, hr⟩
    | cons d w =>
      obtain ⟨rfl, hrest⟩ := List.cons.inj hw
      rw [List.append_cons] at he hr
      exact Or.inr ⟨w, b, e, hrest, he, hr⟩
  · rintro (⟨e, he, hr⟩ | ⟨w, b, e, hw, he, hr⟩)
    · refine ⟨[], c :: rest, e, rfl, ?_, ?_⟩ <;> rwa [List.append_nil]
    · refine ⟨c :: w, b, e, congrArg (c :: ·) hw, ?_, ?_⟩ <;> rwa [List.append_cons]

theorem le_start_of_matchesFrom {size : Nat} {p : Pattern} {a rest : Text} {r : ByteRange}
    (h : MatchesFrom size p a rest r) : a.byteLength ≤ r.start := by
  obtain ⟨w, b, e, -, -, rfl⟩ := h
  rw [Text.byteLength_append]
  exact Nat.le_add_right _ _

/-- A pattern that moves on matches at a place iff it matches there at all and the place is not
inside the previous match. -/
theorem matchAt_between_iff {p : Pattern} (hp : p.nullable = false) {size : Nat}
    {last : Option Nat} {a b : Text} {r : ByteRange} :
    matchAt p size last (between a b) = some r ↔
      (∃ e, preferred size p (between a b) = some e ∧ r = ⟨a.byteLength, e.offset⟩) ∧
        ∀ n ∈ last, n ≤ a.byteLength := by
  rw [matchAt_eq_some_iff]
  constructor
  · rintro ⟨e, he, hl, -, hr⟩
    exact ⟨⟨e, he, hr⟩, hl⟩
  · rintro ⟨⟨e, he, hr⟩, hl⟩
    have hlt := lt_of_mem_ends size hp _ e (mem_of_preferred he)
    exact ⟨e, he, hl, fun h => Nat.ne_of_gt hlt h.1, hr⟩

section Scan

variable {p : Pattern} {size : Nat} {last : Option Nat} {a rest : Text} {c : Char}

/-- The scan goes on behind a match: this keeps the later matches from overlapping it. -/
theorem findFrom_cons_of_some {r : ByteRange}
    (h : matchAt p size last (between a (c :: rest)) = some r) :
    findFrom p size last a.getLast? a.byteLength (c :: rest) =
      r :: findFrom p size (some r.stop) (a ++ [c]).getLast? (a ++ [c]).byteLength rest := by
  have h' : matchAt p size last ⟨a.getLast?, a.byteLength, c :: rest⟩ = some r := h
  rw [findFrom, h', List.getLast?_concat, Text.byteLength_append, Text.byteLength_cons,
    Text.byteLength_nil, Nat.add_zero]

theorem findFrom_cons_of_none (h : matchAt p size last (between a (c :: rest)) = none) :
    findFrom p size last a.getLast? a.byteLength (c :: rest) =
      findFrom p size last (a ++ [c]).getLast? (a ++ [c]).byteLength rest := by
  have h' : matchAt p size last ⟨a.getLast?, a.byteLength, c :: rest⟩ = none := h
  rw [findFrom, h', List.getLast?_concat, Text.byteLength_append, Text.byteLength_cons,
    Text.byteLength_nil, Nat.add_zero]

theorem lt_start_of_mem_findFrom_concat {r : ByteRange}
    (h : r ∈ findFrom p size last (a ++ [c]).getLast? (a ++ [c]).byteLength rest) :
    a.byteLength < r.start := by
  have hle := (bounds_of_mem_findFrom h).1
  rw [Text.byteLength_append, Text.byteLength_cons] at hle
  have hpos := c.utf8Size_pos
  omega

end Scan

theorem mem_findFrom_iff {p : Pattern} (hp : p.nullable = false) {size : Nat} {r : ByteRange} :
    ∀ (rest a : Text) (last : Option Nat),
      r ∈ findFrom p size last a.getLast? a.byteLength rest ↔
        MatchesFrom size p a rest r ∧ (∀ n ∈ last, n ≤ r.start) ∧
          ∀ r' ∈ findFrom p size last a.getLast? a.byteLength rest,
            r'.start < r.start → r'.stop ≤ r.start
  | [], a, last => by
    rw [findFrom, Option.mem_toList, matchesFrom_nil]
    constructor
    · intro h
      obtain ⟨⟨e, he, rfl⟩, hl⟩ := (matchAt_between_iff hp).mp h
      refine ⟨⟨e, he, rfl⟩, hl, fun r' hr' hlt => ?_⟩
      have := bounds_of_matchAt (Option.mem_toList.mp hr')
      exact absurd (this.1 ▸ hlt) (Nat.lt_irrefl _)
    · rintro ⟨⟨e, he, rfl⟩, hl, -⟩
      exact (matchAt_between_iff hp).mpr ⟨⟨e, he, rfl⟩, hl⟩
  | c :: rest, a, last => by
    rw [matchesFrom_cons]
    cases hm : matchAt p size last (between a (c :: rest)) with
    | some r₀ =>
      obtain ⟨⟨e₀, he₀, rfl⟩, hl₀⟩ := (matchAt_between_iff hp).mp hm
      rw [findFrom_cons_of_some hm]
      simp only [List.mem_cons]
      constructor
      · rintro (rfl | hr)
        · refine ⟨Or.inl ⟨e₀, he₀, rfl⟩, hl₀, fun r' hr' hlt => ?_⟩
          rcases hr' with rfl | hr'
          · exact absurd hlt (Nat.lt_irrefl _)
          · exact absurd hlt (Nat.lt_asymm (lt_start_of_mem_findFrom_concat hr'))
        · have hgt := lt_start_of_mem_findFrom_concat hr
          obtain ⟨hmatch, hstop, hall⟩ := (mem_findFrom_iff hp rest _ _).mp hr
          refine ⟨Or.inr hmatch, fun n hn => Nat.le_trans (hl₀ n hn) (Nat.le_of_lt hgt), ?_⟩
          rintro r' (rfl | hr') hlt
          · exact hstop _ rfl
          · exact hall r' hr' hlt
      · rintro ⟨⟨e, he, rfl⟩ | hmatch, hl, hall⟩
        · rw [Option.some.inj (he₀.symm.trans he)]
          exact Or.inl rfl
        · have hgt : a.byteLength < r.start := by
            have hle := le_start_of_matchesFrom hmatch
            rw [Text.byteLength_append, Text.byteLength_cons] at hle
            have hpos := c.utf8Size_pos
            omega
          refine Or.inr ((mem_findFrom_iff hp rest _ _).mpr
            ⟨hmatch, ?_, fun r' hr' => hall r' (Or.inr hr')⟩)
          rintro n hn
          rw [← Option.some.inj hn]
          exact hall _ (Or.inl rfl) hgt
    | none =>
      rw [findFrom_cons_of_none hm, mem_findFrom_iff hp rest]
      refine and_congr_left fun hl => ⟨Or.inr, fun h => h.resolve_left ?_⟩
      rintro ⟨e, he, rfl⟩
      have hsome : matchAt p size last (between a (c :: rest)) = some ⟨a.byteLength, e.offset⟩ :=
        (matchAt_between_iff hp).mpr ⟨⟨e, he, rfl⟩, hl.1⟩
      rw [hm] at hsome
      exact absurd hsome (by simp)

/-- Whatever the pattern, it matches at each of its matches. -/
theorem matchesFrom_of_mem_findFrom {p : Pattern} {size : Nat} {r : ByteRange} :
    ∀ {rest a : Text} {last : Option Nat},
      r ∈ findFrom p size last a.getLast? a.byteLength rest → MatchesFrom size p a rest r
  | [], a, last, h => by
    obtain ⟨e, he, -, -, hr⟩ := matchAt_eq_some_iff.mp (Option.mem_toList.mp h)
    exact matchesFrom_nil.mpr ⟨e, he, hr⟩
  | c :: rest, a, last, h => by
    rw [matchesFrom_cons]
    cases hm : matchAt p size last (between a (c :: rest)) with
    | some r₀ =>
      rw [findFrom_cons_of_some hm] at h
      rcases List.mem_cons.mp h with rfl | h
      · obtain ⟨e, he, -, -, hr⟩ := matchAt_eq_some_iff.mp hm
        exact Or.inl ⟨e, he, hr⟩
      · exact Or.inr (matchesFrom_of_mem_findFrom h)
    | none =>
      rw [findFrom_cons_of_none hm] at h
      exact Or.inr (matchesFrom_of_mem_findFrom h)

/-- The pattern matches the text at `r`: it prefers the end of `r` from the start of `r`. -/
def MatchesAt (p : Pattern) (text : Text) (r : ByteRange) : Prop :=
  ∃ a b e, text = a ++ b ∧ preferred text.length p (between a b) = some e ∧
    r = ⟨a.byteLength, e.offset⟩

theorem matchesAt_of_mem_findAll {p : Pattern} {text : Text} {r : ByteRange}
    (h : r ∈ p.findAll text) : MatchesAt p text r := by
  have h : r ∈ findFrom p text.length none [].getLast? (Text.byteLength []) text := h
  simpa [MatchesFrom, MatchesAt] using matchesFrom_of_mem_findFrom h

/-- **The matches without a scan**: a place is where a match starts iff the pattern matches there
and no match that starts earlier goes past the place. -/
theorem mem_findAll_iff {p : Pattern} (hp : p.nullable = false) {text : Text} {r : ByteRange} :
    r ∈ p.findAll text ↔ MatchesAt p text r ∧
      ∀ r' ∈ p.findAll text, r'.start < r.start → r'.stop ≤ r.start := by
  have h : r ∈ findFrom p text.length none [].getLast? (Text.byteLength []) text ↔ _ :=
    mem_findFrom_iff hp text [] none
  simpa [MatchesFrom, MatchesAt, findAll] using h

/-- Where the pattern matches there is a match, or the place is inside of one. -/
theorem mem_or_exists_of_matchesAt {p : Pattern} (hp : p.nullable = false) {text : Text}
    {r : ByteRange} (h : MatchesAt p text r) :
    r ∈ p.findAll text ∨ ∃ r' ∈ p.findAll text, r'.start < r.start ∧ r.start < r'.stop := by
  by_cases hr : r ∈ p.findAll text
  · exact Or.inl hr
  · refine Or.inr (Classical.byContradiction fun hno => hr ((mem_findAll_iff hp).mpr ⟨h, ?_⟩))
    exact fun r' hr' hlt => Nat.le_of_not_lt fun hgt => hno ⟨r', hr', hlt, hgt⟩

/-- From one place, the pattern matches in one way. -/
theorem MatchesAt.eq_of_start_eq {p : Pattern} {text : Text} {r r' : ByteRange}
    (h : MatchesAt p text r) (h' : MatchesAt p text r') (hs : r.start = r'.start) : r = r' := by
  obtain ⟨u, v, e, rfl, he, rfl⟩ := h
  obtain ⟨u', v', e', htext, he', rfl⟩ := h'
  obtain ⟨rfl, rfl⟩ := Text.append_inj htext hs
  rw [he] at he'
  rw [Option.some.inj he']

theorem MatchesAt.start_lt_stop {p : Pattern} (hp : p.nullable = false) {text : Text}
    {r : ByteRange} (h : MatchesAt p text r) : r.start < r.stop := by
  obtain ⟨a, b, e, -, he, rfl⟩ := h
  exact lt_of_mem_ends _ hp _ e (mem_of_preferred he)

theorem start_lt_stop_of_mem_findAll {p : Pattern} (hp : p.nullable = false) {text : Text}
    {r : ByteRange} (h : r ∈ p.findAll text) : r.start < r.stop :=
  (matchesAt_of_mem_findAll h).start_lt_stop hp

end Pattern

/-! ## Chosen from the left -/

/-- Ranges with the property, chosen from the offset `n` on without overlap: at each step the
leftmost one that starts at the offset or behind it, until there is none, and then the offset is its
end. -/
inductive ChosenFrom (P : ByteRange → Prop) : Nat → List ByteRange → Prop
  | done {n : Nat} : (∀ r, P r → r.start < n) → ChosenFrom P n []
  | next {n : Nat} {r : ByteRange} {rs : List ByteRange} : P r → n ≤ r.start →
      (∀ s, P s → n ≤ s.start → r.start ≤ s.start) → ChosenFrom P r.stop rs →
      ChosenFrom P n (r :: rs)

namespace ChosenFrom

variable {P : ByteRange → Prop} {n : Nat} {rs ss : List ByteRange}

/-- From one offset on, ranges can be chosen in one way, if no two of them start at one place. -/
theorem unique (hP : ∀ r s, P r → P s → r.start = s.start → r = s) (h : ChosenFrom P n rs)
    (h' : ChosenFrom P n ss) : rs = ss := by
  induction h generalizing ss with
  | done hno =>
    cases h' with
    | done _ => rfl
    | next hs hle _ _ => exact absurd (hno _ hs) (Nat.not_lt_of_le hle)
  | next hr hle hfirst _ ih =>
    cases h' with
    | done hno => exact absurd (hno _ hr) (Nat.not_lt_of_le hle)
    | next hs hle' hfirst' hrest =>
      obtain rfl := hP _ _ hr hs (Nat.le_antisymm (hfirst _ hs hle') (hfirst' _ hr hle))
      rw [ih hrest]

/-- The choice may begin earlier if there is nothing to choose before. -/
theorem of_le {m : Nat} (h : ChosenFrom P m rs) (hle : n ≤ m)
    (hnone : ∀ r, P r → n ≤ r.start → m ≤ r.start) : ChosenFrom P n rs := by
  cases h with
  | done hno =>
    exact done fun r hr => Nat.lt_of_not_le fun hr' =>
      absurd (hno r hr) (Nat.not_lt_of_le (hnone r hr hr'))
  | next hr hr' hfirst hrest =>
    exact next hr (Nat.le_trans hle hr') (fun s hs hs' => hfirst s hs (hnone s hs hs')) hrest

/-- Ranges in order and apart are chosen from the left if every other one starts inside of one of
them. -/
theorem of_pairwise (hfilled : ∀ r, P r → r.start < r.stop) : ∀ {rs : List ByteRange} {n : Nat},
    rs.Pairwise (fun r s => r.stop ≤ s.start) → (∀ r ∈ rs, P r ∧ n ≤ r.start) →
    (∀ r, P r → n ≤ r.start → r ∈ rs ∨ ∃ s ∈ rs, s.start < r.start ∧ r.start < s.stop) →
    ChosenFrom P n rs
  | [], n, _, _, hall => by
    refine done fun r hr => Nat.lt_of_not_le fun hle => ?_
    simpa using hall r hr hle
  | r :: rs, n, hp, hmem, hall => by
    obtain ⟨hap, hp⟩ := List.pairwise_cons.mp hp
    obtain ⟨hr, hle⟩ := hmem r List.mem_cons_self
    have hlt := hfilled r hr
    have hfirst : ∀ s ∈ r :: rs, r.start ≤ s.start := by
      intro s hs
      rcases List.mem_cons.mp hs with rfl | hs
      · exact Nat.le_refl _
      · exact Nat.le_trans (Nat.le_of_lt hlt) (hap s hs)
    refine next hr hle (fun s hs hsn => ?_)
      (of_pairwise hfilled hp (fun s hs => ?_) fun s hs hsn => ?_)
    · rcases hall s hs hsn with hs | ⟨s', hs', hlt', -⟩
      · exact hfirst s hs
      · exact Nat.le_trans (hfirst s' hs') (Nat.le_of_lt hlt')
    · exact ⟨(hmem s (List.mem_cons_of_mem _ hs)).1, hap s hs⟩
    · -- a range behind `r` is not `r`, and it does not start inside of it
      rcases hall s hs (by omega) with hs | ⟨s', hs', hinside⟩
      · rcases List.mem_cons.mp hs with rfl | hs
        · omega
        · exact Or.inl hs
      · rcases List.mem_cons.mp hs' with rfl | hs'
        · omega
        · exact Or.inr ⟨s', hs', hinside⟩

end ChosenFrom

namespace Pattern

/-- **The matches are chosen from the left** among the places where the pattern matches. -/
theorem chosenFrom_matchesAt_iff {p : Pattern} (hp : p.nullable = false) {text : Text}
    {rs : List ByteRange} : ChosenFrom (MatchesAt p text) 0 rs ↔ rs = p.findAll text := by
  have hchosen : ChosenFrom (MatchesAt p text) 0 (p.findAll text) :=
    ChosenFrom.of_pairwise (fun _ h => h.start_lt_stop hp) (pairwise_findAll p text)
      (fun _ h => ⟨matchesAt_of_mem_findAll h, Nat.zero_le _⟩)
      fun _ h _ => mem_or_exists_of_matchesAt hp h
  constructor
  · exact fun h => h.unique (fun _ _ hr hs => hr.eq_of_start_eq hs) hchosen
  · rintro rfl
    exact hchosen

/-- Patterns that match at the same places have the same matches. -/
theorem findAll_congr {p q : Pattern} (hp : p.nullable = false) (hq : q.nullable = false)
    {text : Text} (h : ∀ r, MatchesAt p text r ↔ MatchesAt q text r) :
    p.findAll text = q.findAll text := by
  have hchosen : ChosenFrom (MatchesAt p text) 0 (p.findAll text) :=
    (chosenFrom_matchesAt_iff hp).mpr rfl
  rw [funext fun r => propext (h r)] at hchosen
  exact (chosenFrom_matchesAt_iff hq).mp hchosen

end Pattern

end FaustLens
