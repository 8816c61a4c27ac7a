import FaustLens.Proofs.Claims
import FaustLens.Proofs.Pattern.Locality

/-!
# Which characters a match holds

Some facts about the text of a match can be read off the pattern: that it does not hold a character
(`avoids`), that it holds the character alone if at all (`lone`), that it does not begin with the
character (`beginsApart`), or that it does begin or end with it (`beginsWith`, `endsWith`). A match
that holds certain characters alone only does not go across the edges of a range that is fenced by
these characters (`Fenced`).

Results:
* `Text.CharAt.exists_split`: a part of a text that holds a byte of a character holds the character.
* `not_mem_of_avoids`, `eq_singleton_of_lone`, `eq_of_beginsApart`, `head?_of_beginsWith`,
  `getLast?_of_endsWith`: the analyses are sound.
* `MatchesAt.exists_parts`: a match of a pattern, as a part of the text.
* `matchesAt_iff_of_preferred`: where a pattern matches, if the text that it takes is known.
* `inside_of_fenced`: a match that meets a fenced range lies inside of it.
-/

namespace FaustLens

/-- The range of the text holds `w`, with `a` before it and `b` behind it. -/
structure Text.Parts (text : Text) (r : ByteRange) (a w b : Text) : Prop where
  text_eq : text = a ++ w ++ b
  range_eq : r = ⟨a.byteLength, (a ++ w).byteLength⟩

theorem Text.Parts.length_le {text a w b : Text} {r : ByteRange} (h : text.Parts r a w b) :
    (w ++ b).length ≤ text.length := by
  rw [h.text_eq, List.append_assoc]
  exact (List.suffix_append a (w ++ b)).length_le

/-- The byte at offset `b` is one of the character `x`, with `a` before it and `z` behind it. -/
structure Text.CharAt (text : Text) (b : Nat) (a : Text) (x : Char) (z : Text) : Prop where
  text_eq : text = a ++ x :: z
  le : a.byteLength ≤ b
  lt : b < (a ++ [x]).byteLength

namespace Text.CharAt

variable {text a z a' w z' : Text} {b : Nat} {x : Char} {r : ByteRange}

/-- A part that holds a byte of a character holds the character. -/
theorem exists_split (h : text.CharAt b a x z) (hr : text.Parts r a' w z') (hb : b ∈ r) :
    ∃ u v, w = u ++ x :: v ∧ a = a' ++ u ∧ z = v ++ z' := by
  obtain ⟨htext, hle, hlt⟩ := h
  obtain ⟨rfl, rfl⟩ := hr
  rw [List.append_assoc] at htext
  have hb' : a'.byteLength ≤ b ∧ b < (a' ++ w).byteLength := hb
  rw [byteLength_append] at hlt hb'
  by_cases hstart : a'.byteLength ≤ a.byteLength
  · obtain ⟨u, rfl, hrest⟩ := exists_middle htext hstart
    rw [byteLength_append] at hle
    obtain ⟨n, rfl, hrest'⟩ := exists_middle hrest.symm (by omega)
    cases n with
    | nil =>
      rw [List.append_nil] at hb'
      omega
    | cons y v =>
      obtain ⟨rfl, rfl⟩ := List.cons.inj hrest'
      exact ⟨u, v, rfl, rfl, rfl⟩
  · -- the part would begin inside the character
    obtain ⟨n, rfl, hrest⟩ := exists_middle htext.symm (Nat.le_of_not_le hstart)
    cases n with
    | nil =>
      rw [List.append_nil] at hstart
      exact absurd (Nat.le_refl _) hstart
    | cons y n =>
      obtain ⟨rfl, -⟩ := List.cons.inj hrest
      simp only [byteLength_append, byteLength_cons, byteLength_nil] at hlt hb'
      omega

/-- Every byte of a text is one of a character. -/
theorem exists_of_lt : ∀ {text : Text} {b : Nat}, b < text.byteLength →
    ∃ a x z, text.CharAt b a x z
  | [], b, h => absurd h (Nat.not_lt_zero b)
  | y :: text, b, h => by
    by_cases hlt : b < y.utf8Size
    · exact ⟨[], y, text, rfl, Nat.zero_le b, by simpa using hlt⟩
    · rw [byteLength_cons] at h
      have hrest : b - y.utf8Size < byteLength text := by omega
      obtain ⟨a, x, z, hat⟩ := exists_of_lt hrest
      obtain ⟨rfl, hle, hlt'⟩ := hat
      refine ⟨y :: a, x, z, rfl, ?_, ?_⟩
      · rw [byteLength_cons]
        omega
      · rw [List.cons_append, byteLength_cons]
        omega

/-- The bytes of a character are in the text. -/
theorem lt_byteLength (h : text.CharAt b a x z) : b < text.byteLength := by
  have hlt := h.lt
  rw [h.text_eq, byteLength_append]
  rw [byteLength_append] at hlt
  simp only [byteLength_cons, byteLength_nil] at hlt ⊢
  omega

/-- A part that holds a character holds its bytes. -/
theorem mem_of_split {u v : Text} (h : text.CharAt b (a' ++ u) x z)
    (hr : text.Parts r a' (u ++ x :: v) z') : b ∈ r := by
  have hle := h.le
  have hlt := h.lt
  rw [hr.range_eq, ByteRange.mem_def]
  simp only [byteLength_append, byteLength_cons, byteLength_nil] at hle hlt ⊢
  omega

end Text.CharAt

/-- The place `e` is behind `cur`, and the text between them has the property. -/
def Cursor.Over (P : Text → Prop) (cur e : Cursor) : Prop :=
  ∃ w, P w ∧ cur.rest = w ++ e.rest ∧ e = cur.skip w e.rest

namespace Cursor

variable {P : Text → Prop} {c d e : Cursor}

theorem over_refl (h : P []) (c : Cursor) : c.Over P c := ⟨[], h, rfl, rfl⟩

theorem Over.mono {Q : Text → Prop} (h : ∀ w, P w → Q w) (hc : c.Over P e) : c.Over Q e := by
  obtain ⟨w, hw, he⟩ := hc
  exact ⟨w, h w hw, he⟩

theorem Over.append {Q R : Text → Prop} (h : ∀ v w, P v → Q w → R (v ++ w)) (hcd : c.Over P d)
    (hde : d.Over Q e) : c.Over R e := by
  obtain ⟨v, hv, hd, hcd⟩ := hcd
  obtain ⟨w, hw, he, hde⟩ := hde
  refine ⟨v ++ w, h v w hv hw, by rw [hd, he, List.append_assoc], ?_⟩
  rw [hcd, skip_skip] at hde
  exact hde

theorem Over.cat {Q : Text → Prop} (hcd : c.Over P d) (hde : d.Over Q e) :
    c.Over (fun w => ∃ v u, w = v ++ u ∧ P v ∧ Q u) e :=
  hcd.append (fun v u hv hu => ⟨v, u, rfl, hv, hu⟩) hde

theorem Reaches.over (h : c.Reaches e) : c.Over (fun _ => True) e := by
  obtain ⟨w, hw⟩ := h
  exact ⟨w, trivial, hw⟩

theorem Over.of_between {a w b : Text} (h : (between a (w ++ b)).Over P (between (a ++ w) b)) :
    P w := by
  obtain ⟨v, hv, hrest, -⟩ := h
  rwa [List.append_cancel_right hrest]

end Cursor

namespace Pattern

open Cursor (Over)

variable {size : Nat} {x : Char}

/-- No set of the pattern contains the character. -/
def avoids (x : Char) : Pattern → Bool
  | empty => true
  | one set => !set.contains x
  | assert _ => true
  | capture _ p => avoids x p
  | cat a b => avoids x a && avoids x b
  | alt a b => avoids x a && avoids x b
  | repeated p _ _ _ => avoids x p

/-- A match that holds the character holds nothing else. -/
def lone (x : Char) : Pattern → Bool
  | empty => true
  | one _ => true
  | assert _ => true
  | capture _ p => lone x p
  | cat a b => avoids x a && avoids x b
  | alt a b => lone x a && lone x b
  | repeated p _ _ _ => avoids x p

/-- No match begins with the character. -/
def beginsApart (x : Char) : Pattern → Bool
  | empty => true
  | one set => !set.contains x
  | assert _ => true
  | capture _ p => beginsApart x p
  | cat a b => beginsApart x a && (!nullable a || beginsApart x b)
  | alt a b => beginsApart x a && beginsApart x b
  | repeated p _ _ _ => beginsApart x p

/-- Every match begins with the character. -/
def beginsWith (x : Char) : Pattern → Bool
  | empty => false
  | one set => set = .single x
  | assert _ => false
  | capture _ p => beginsWith x p
  | cat a _ => beginsWith x a
  | alt a b => beginsWith x a && beginsWith x b
  | repeated _ _ _ _ => false

/-- Every match ends with the character. -/
def endsWith (x : Char) : Pattern → Bool
  | empty => false
  | one set => set = .single x
  | assert _ => false
  | capture _ p => endsWith x p
  | cat _ b => endsWith x b
  | alt a b => endsWith x a && endsWith x b
  | repeated _ _ _ _ => false

theorem exists_of_mem_ends_one {set : CharSet} {cur e : Cursor} (h : e ∈ ends size (one set) cur) :
    ∃ c, set.contains c = true ∧ cur.rest = [c] ++ e.rest ∧ e = cur.skip [c] e.rest := by
  rw [ends] at h
  cases hr : cur.rest with
  | nil => simp [hr] at h
  | cons c rest =>
    rw [hr] at h
    simp only at h
    split at h
    · rename_i hc
      obtain rfl := List.mem_singleton.mp h
      exact ⟨c, hc, rfl, rfl⟩
    · exact absurd h List.not_mem_nil

theorem eq_of_mem_ends_assert {a : Assertion} {cur e : Cursor}
    (h : e ∈ ends size (assert a) cur) : e = cur := by
  rw [ends] at h
  split at h
  · exact List.mem_singleton.mp h
  · exact absurd h List.not_mem_nil

theorem length_le_of_mem_ends {p : Pattern} {cur e : Cursor} (hsize : cur.rest.length ≤ size)
    (h : e ∈ ends size p cur) : e.rest.length ≤ size :=
  Nat.le_trans (reaches_of_mem_ends size p cur e h).length_le hsize

theorem mem_ends_cat_iff {a b : Pattern} {cur e : Cursor} :
    e ∈ ends size (cat a b) cur ↔ ∃ d ∈ ends size a cur, e ∈ ends size b d := by
  rw [(sameOrder_cat size a b cur).mem_iff, List.mem_flatMap]

/-- An optional part is left out or taken once. -/
theorem mem_ends_optional_iff {p : Pattern} (hp : p.nullable = false) {greedy : Bool}
    {cur e : Cursor} (hsize : cur.rest.length ≤ size) :
    e ∈ ends size (repeated p 0 (some 1) greedy) cur ↔ e = cur ∨ e ∈ ends size p cur := by
  rw [(sameOrder_repeated hp 0 (some 1) greedy hsize).mem_iff]
  cases greedy <;> simp [rounds, loops, or_comm]

/-- A run of a character set takes members only, and at least one if one is needed. -/
theorem over_of_mem_ends_run {set : CharSet} {least : Nat} {most : Option Nat} {greedy : Bool}
    {cur e : Cursor} (hsize : cur.rest.length ≤ size)
    (h : e ∈ ends size (repeated (one set) least most greedy) cur) :
    cur.Over (fun w => (∀ c ∈ w, set.contains c = true) ∧ (least ≠ 0 → w ≠ [])) e := by
  have hall : cur.Over (fun w => ∀ c ∈ w, set.contains c = true) e := by
    refine rel_of_mem_repeated (R := Over fun w => ∀ c ∈ w, set.contains c = true)
      (fun c => Cursor.over_refl (by simp) c)
      (fun _ _ _ => Over.append fun v w hv hw => List.forall_mem_append.mpr ⟨hv, hw⟩) rfl
      (fun c e _ he => ?_) hsize h
    obtain ⟨x, hx, hw⟩ := exists_of_mem_ends_one he
    exact ⟨[x], by simpa using hx, hw⟩
  obtain ⟨w, hw, hrest, he⟩ := hall
  refine ⟨w, ⟨hw, fun hleast hnil => ?_⟩, hrest, he⟩
  have hmoves : (repeated (one set) least most greedy).nullable = false := by
    simp [nullable, hleast]
  have hlt := lt_of_mem_ends size hmoves cur e h
  rw [he, hnil] at hlt
  exact absurd hlt (Nat.lt_irrefl _)

/-- **No match holds a character that the pattern avoids.** -/
theorem not_mem_of_avoids : ∀ {p : Pattern}, p.steady = true → p.avoids x = true →
    ∀ {cur e : Cursor}, cur.rest.length ≤ size → e ∈ ends size p cur → cur.Over (x ∉ ·) e
  | empty, _, _, cur, e, _, h => by
    obtain rfl := List.mem_singleton.mp h
    exact Cursor.over_refl List.not_mem_nil e
  | one set, _, hx, cur, e, _, h => by
    obtain ⟨c, hc, he⟩ := exists_of_mem_ends_one h
    refine ⟨[c], fun hm => ?_, he⟩
    rw [List.mem_singleton.mp hm] at hx
    simp [avoids, hc] at hx
  | assert a, _, _, cur, e, _, h => by
    obtain rfl := eq_of_mem_ends_assert h
    exact Cursor.over_refl List.not_mem_nil e
  | capture _ p, hp, hx, _, _, hsize, h => not_mem_of_avoids (p := p) hp hx hsize h
  | cat a b, hp, hx, cur, e, hsize, h => by
    obtain ⟨ha, hb⟩ := Bool.and_eq_true_iff.mp hp
    obtain ⟨hxa, hxb⟩ := Bool.and_eq_true_iff.mp hx
    obtain ⟨d, hd, he⟩ := List.mem_flatMap.mp (mem_of_mem_distinct h)
    exact (not_mem_of_avoids ha hxa hsize hd).append (by simp +contextual)
      (not_mem_of_avoids hb hxb (length_le_of_mem_ends hsize hd) he)
  | alt a b, hp, hx, cur, e, hsize, h => by
    obtain ⟨ha, hb⟩ := Bool.and_eq_true_iff.mp hp
    obtain ⟨hxa, hxb⟩ := Bool.and_eq_true_iff.mp hx
    rcases List.mem_append.mp (mem_of_mem_distinct h) with h | h
    · exact not_mem_of_avoids ha hxa hsize h
    · exact not_mem_of_avoids hb hxb hsize h
  | repeated p least most greedy, hp, hx, cur, e, hsize, h => by
    obtain ⟨hp, hn⟩ := Bool.and_eq_true_iff.mp hp
    exact rel_of_mem_repeated (fun c => Cursor.over_refl List.not_mem_nil c)
      (fun _ _ _ => Over.append (by simp +contextual)) (by simpa using hn)
      (fun _ _ hc he => not_mem_of_avoids (p := p) hp hx hc he) hsize h

/-- **A match holds a lone character alone.** -/
theorem eq_singleton_of_lone : ∀ {p : Pattern}, p.steady = true → p.lone x = true →
    ∀ {cur e : Cursor}, cur.rest.length ≤ size → e ∈ ends size p cur →
      cur.Over (fun w => x ∈ w → w = [x]) e
  | empty, _, _, cur, e, _, h => by
    obtain rfl := List.mem_singleton.mp h
    exact Cursor.over_refl (fun hx => absurd hx List.not_mem_nil) e
  | one set, _, _, cur, e, _, h => by
    obtain ⟨c, -, he⟩ := exists_of_mem_ends_one h
    exact ⟨[c], fun hm => by rw [List.mem_singleton.mp hm], he⟩
  | assert a, _, _, cur, e, _, h => by
    obtain rfl := eq_of_mem_ends_assert h
    exact Cursor.over_refl (fun hx => absurd hx List.not_mem_nil) e
  | capture _ p, hp, hx, _, _, hsize, h => eq_singleton_of_lone (p := p) hp hx hsize h
  | alt a b, hp, hx, cur, e, hsize, h => by
    obtain ⟨ha, hb⟩ := Bool.and_eq_true_iff.mp hp
    obtain ⟨hxa, hxb⟩ := Bool.and_eq_true_iff.mp hx
    rcases List.mem_append.mp (mem_of_mem_distinct h) with h | h
    · exact eq_singleton_of_lone ha hxa hsize h
    · exact eq_singleton_of_lone hb hxb hsize h
  | cat a b, hp, hx, cur, e, hsize, h =>
    (not_mem_of_avoids (p := cat a b) hp hx hsize h).mono fun _ hw hm => absurd hm hw
  | repeated p least most greedy, hp, hx, cur, e, hsize, h =>
    (not_mem_of_avoids (p := repeated p least most greedy) hp hx hsize h).mono
      fun _ hw hm => absurd hm hw

/-- **No match begins with a character that the pattern begins apart from**: where the character
follows, the pattern matches the empty text at most. -/
theorem eq_of_beginsApart : ∀ {p : Pattern}, p.steady = true → p.beginsApart x = true →
    ∀ {cur e : Cursor}, cur.rest.length ≤ size → cur.rest.head? = some x → e ∈ ends size p cur →
      e = cur
  | empty, _, _, _, _, _, _, h => List.mem_singleton.mp h
  | one set, _, hx, cur, e, _, hhead, h => by
    obtain ⟨c, hc, hrest, -⟩ := exists_of_mem_ends_one h
    rw [hrest] at hhead
    rw [Option.some.inj hhead] at hc
    simp [beginsApart, hc] at hx
  | assert a, _, _, _, _, _, _, h => eq_of_mem_ends_assert h
  | capture _ p, hp, hx, _, _, hsize, hhead, h => eq_of_beginsApart (p := p) hp hx hsize hhead h
  | cat a b, hp, hx, cur, e, hsize, hhead, h => by
    obtain ⟨ha, hb⟩ := Bool.and_eq_true_iff.mp hp
    obtain ⟨hxa, hxb⟩ := Bool.and_eq_true_iff.mp hx
    obtain ⟨d, hd, he⟩ := List.mem_flatMap.mp (mem_of_mem_distinct h)
    obtain rfl := eq_of_beginsApart ha hxa hsize hhead hd
    cases hn : a.nullable with
    | false => exact absurd (lt_of_mem_ends size hn _ _ hd) (Nat.lt_irrefl _)
    | true =>
      rw [hn] at hxb
      exact eq_of_beginsApart hb hxb hsize hhead he
  | alt a b, hp, hx, cur, e, hsize, hhead, h => by
    obtain ⟨ha, hb⟩ := Bool.and_eq_true_iff.mp hp
    obtain ⟨hxa, hxb⟩ := Bool.and_eq_true_iff.mp hx
    rcases List.mem_append.mp (mem_of_mem_distinct h) with h | h
    · exact eq_of_beginsApart ha hxa hsize hhead h
    · exact eq_of_beginsApart hb hxb hsize hhead h
  | repeated p least most greedy, hp, hx, cur, e, hsize, hhead, h => by
    obtain ⟨hp, hn⟩ := Bool.and_eq_true_iff.mp hp
    refine rel_of_mem_repeated (R := fun c e => c.rest.head? = some x → e = c) (fun _ _ => rfl)
      (fun c d e hcd hde hc => ?_) (by simpa using hn)
      (fun _ _ hc he hhead => eq_of_beginsApart (p := p) hp hx hc hhead he) hsize h hhead
    obtain rfl := hcd hc
    exact hde hc

/-- A match of the set of one character is this character. -/
theorem over_of_mem_ends_single {cur e : Cursor} (h : e ∈ ends size (one (.single x)) cur) :
    cur.Over (· = [x]) e := by
  obtain ⟨c, hc, he⟩ := exists_of_mem_ends_one h
  rw [CharSet.contains_single, beq_iff_eq] at hc
  exact ⟨[c], by rw [hc], he⟩

theorem head?_of_beginsWith : ∀ {p : Pattern}, p.beginsWith x = true → ∀ {cur e : Cursor},
    e ∈ ends size p cur → cur.Over (fun w => w.head? = some x) e
  | one set, hx, cur, e, h => by
    obtain rfl := of_decide_eq_true hx
    exact (over_of_mem_ends_single h).mono fun w hw => by rw [hw]; rfl
  | capture _ p, hx, _, _, h => head?_of_beginsWith (p := p) hx h
  | cat a b, hx, cur, e, h => by
    obtain ⟨d, hd, he⟩ := List.mem_flatMap.mp (mem_of_mem_distinct h)
    refine (head?_of_beginsWith (p := a) hx hd).append (fun v w hv _ => ?_)
      (reaches_of_mem_ends size b d e he).over
    rw [List.head?_append, hv]
    rfl
  | alt a b, hx, cur, e, h => by
    obtain ⟨hxa, hxb⟩ := Bool.and_eq_true_iff.mp hx
    rcases List.mem_append.mp (mem_of_mem_distinct h) with h | h
    · exact head?_of_beginsWith hxa h
    · exact head?_of_beginsWith hxb h

theorem getLast?_of_endsWith : ∀ {p : Pattern}, p.endsWith x = true → ∀ {cur e : Cursor},
    e ∈ ends size p cur → cur.Over (fun w => w.getLast? = some x) e
  | one set, hx, cur, e, h => by
    obtain rfl := of_decide_eq_true hx
    exact (over_of_mem_ends_single h).mono fun w hw => by rw [hw]; rfl
  | capture _ p, hx, _, _, h => getLast?_of_endsWith (p := p) hx h
  | cat a b, hx, cur, e, h => by
    obtain ⟨d, hd, he⟩ := List.mem_flatMap.mp (mem_of_mem_distinct h)
    refine (reaches_of_mem_ends size a cur d hd).over.append (fun v w _ hw => ?_)
      (getLast?_of_endsWith (p := b) hx he)
    rw [List.getLast?_append, hw]
    rfl
  | alt a b, hx, cur, e, h => by
    obtain ⟨hxa, hxb⟩ := Bool.and_eq_true_iff.mp hx
    rcases List.mem_append.mp (mem_of_mem_distinct h) with h | h
    · exact getLast?_of_endsWith hxa h
    · exact getLast?_of_endsWith hxb h

/-! ## Matches as parts of the text -/

theorem MatchesAt.exists_parts {p : Pattern} {text : Text} {r : ByteRange}
    (h : MatchesAt p text r) : ∃ a w b, text.Parts r a w b ∧
      Cursor.between (a ++ w) b ∈ ends text.length p (Cursor.between a (w ++ b)) := by
  obtain ⟨a, b', e, rfl, he, rfl⟩ := h
  have he := mem_of_preferred he
  obtain ⟨w, b, rfl, rfl⟩ := Cursor.reaches_between_iff.mp (reaches_of_mem_ends _ _ _ _ he)
  exact ⟨a, w, b, ⟨(List.append_assoc a w b).symm, rfl⟩, he⟩

/-- **Where a pattern matches** whose preferred end is told by the text `take?` that it takes. -/
theorem matchesAt_iff_of_preferred {p : Pattern} (take? : Text → Text → Option Text)
    (htake : ∀ a b w, take? a b = some w → w <+: b)
    (hp : ∀ size a b, preferred size p (Cursor.between a b) =
      (take? a b).map fun w => Cursor.between (a ++ w) (b.drop w.length))
    {text : Text} {r : ByteRange} :
    MatchesAt p text r ↔ ∃ a w z, text.Parts r a w z ∧ take? a (w ++ z) = some w := by
  unfold MatchesAt
  simp only [hp, Option.map_eq_some_iff]
  constructor
  · rintro ⟨a, b, _, rfl, ⟨w, hw, rfl⟩, rfl⟩
    obtain ⟨z, rfl⟩ := htake a b w hw
    exact ⟨a, w, z, ⟨(List.append_assoc a w z).symm, rfl⟩, hw⟩
  · rintro ⟨a, w, z, ⟨rfl, rfl⟩, hw⟩
    exact ⟨a, w ++ z, _, List.append_assoc a w z, ⟨w, hw, rfl⟩, rfl⟩

/-- A pattern that begins apart from the next character, and cannot match the empty text, does not
match. -/
theorem preferred_eq_none_of_beginsApart {p : Pattern} (hp : p.steady = true) (hn : p.nullable = false)
    (hx : p.beginsApart x = true) {cur : Cursor} (hsize : cur.rest.length ≤ size)
    (hhead : cur.rest.head? = some x) : preferred size p cur = none := by
  cases he : preferred size p cur with
  | none => rfl
  | some e =>
    have he := mem_of_preferred he
    have hlt := lt_of_mem_ends size hn cur e he
    rw [eq_of_beginsApart hp hx hsize hhead he] at hlt
    exact absurd hlt (Nat.lt_irrefl _)

/-! ## Fences -/

/-- The range begins with one of the characters, and it ends with one of them or the text behind it
begins with one. -/
def Fenced (xs : List Char) (text : Text) (r : ByteRange) : Prop :=
  ∃ a w b, text.Parts r a w b ∧ (∃ x ∈ w.head?, x ∈ xs) ∧
    ((∃ x ∈ w.getLast?, x ∈ xs) ∨ ∀ x ∈ b.head?, x ∈ xs)

/-- A match that begins and ends with characters of the fence is fenced. -/
theorem fenced_of_matchesAt {p : Pattern} {xs : List Char} {y : Char} (hbegins : p.beginsWith x = true)
    (hends : p.endsWith y = true) (hx : x ∈ xs) (hy : y ∈ xs) {text : Text} {r : ByteRange}
    (h : MatchesAt p text r) : Fenced xs text r := by
  obtain ⟨a, w, b, hparts, he⟩ := h.exists_parts
  exact ⟨a, w, b, hparts, ⟨x, (head?_of_beginsWith hbegins he).of_between, hx⟩,
    Or.inl ⟨y, (getLast?_of_endsWith hends he).of_between, hy⟩⟩

/-- Two parts that share a byte: the second does not begin inside the first if the first holds the
character at the edge alone only. -/
theorem le_start_of_lone {xs : List Char} {a w b a' w' b' : Text}
    (htext : a ++ (w ++ b) = a' ++ (w' ++ b')) (hlone : ∀ x ∈ xs, x ∈ w → w = [x])
    (hhead : ∃ x ∈ w'.head?, x ∈ xs) (hlt : a'.byteLength < (a ++ w).byteLength) :
    a'.byteLength ≤ a.byteLength := by
  by_contra hgt
  obtain ⟨n, rfl, hrest⟩ := Text.exists_middle htext (Nat.le_of_not_le hgt)
  rw [Text.byteLength_append] at hgt
  rw [Text.byteLength_append, Text.byteLength_append] at hlt
  obtain ⟨n', rfl, hrest'⟩ := Text.exists_middle hrest.symm (by omega)
  rw [Text.byteLength_append] at hlt
  obtain ⟨x, hx, hxs⟩ := hhead
  cases n' with
  | nil =>
    rw [Text.byteLength_nil] at hlt
    omega
  | cons c n' =>
    have hcx : c = x := by
      have := congrArg List.head? hrest'
      rw [List.head?_append, Option.mem_def.mp hx] at this
      exact (Option.some.inj this).symm
    have hw := hlone x hxs (by rw [hcx]; simp)
    cases n with
    | nil => exact hgt (by simp)
    | cons d n =>
      have := congrArg List.length hw
      simp at this

theorem stop_le_of_lone {xs : List Char} {a w b a' w' b' : Text}
    (htext : a ++ (w ++ b) = a' ++ (w' ++ b')) (hlone : ∀ x ∈ xs, x ∈ w → w = [x])
    (hlast : (∃ x ∈ w'.getLast?, x ∈ xs) ∨ ∀ x ∈ b'.head?, x ∈ xs)
    (hle : a'.byteLength ≤ a.byteLength) (hlt : a.byteLength < (a' ++ w').byteLength) :
    (a ++ w).byteLength ≤ (a' ++ w').byteLength := by
  by_contra hgt
  obtain ⟨n, rfl, hrest⟩ := Text.exists_middle htext.symm hle
  rw [Text.byteLength_append, Text.byteLength_append] at hlt
  obtain ⟨n', rfl, hrest'⟩ := Text.exists_middle hrest.symm (by omega)
  have hn' : n'.byteLength < w.byteLength := by
    simp only [Text.byteLength_append] at hgt
    omega
  obtain ⟨n'', rfl, rfl⟩ := Text.exists_middle hrest'.symm (Nat.le_of_lt hn')
  cases n' with
  | nil =>
    rw [Text.byteLength_append, Text.byteLength_nil] at hlt
    omega
  | cons c n' =>
    cases n'' with
    | nil =>
      rw [List.append_nil] at hn'
      exact absurd hn' (Nat.lt_irrefl _)
    | cons d n'' =>
      obtain ⟨x, hxs, hxw⟩ : ∃ x ∈ xs, x ∈ c :: n' ++ d :: n'' := by
        rcases hlast with ⟨x, hx, hxs⟩ | hnext
        · rw [List.getLast?_append_of_ne_nil _ (by simp)] at hx
          exact ⟨x, hxs, List.mem_append_left _ (List.mem_of_getLast? hx)⟩
        · exact ⟨d, hnext d rfl, by simp⟩
      have := congrArg List.length (hlone x hxs hxw)
      simp at this

/-- **A match that meets a fenced range lies inside of it**, if the pattern holds the characters of
the fence alone only. -/
theorem inside_of_fenced {p : Pattern} (hp : p.steady = true) {xs : List Char}
    (hx : ∀ x ∈ xs, p.lone x = true) {text : Text} {m r : ByteRange} (hm : MatchesAt p text m)
    (hr : Fenced xs text r) (hmeets : m.Meets r) : m.Inside r := by
  obtain ⟨a, w, b, hparts, he⟩ := hm.exists_parts
  have hsize := hparts.length_le
  obtain ⟨rfl, rfl⟩ := hparts
  obtain ⟨a', w', b', ⟨htext, rfl⟩, hhead, hlast⟩ := hr
  rw [List.append_assoc, List.append_assoc] at htext
  have hlone : ∀ x ∈ xs, x ∈ w → w = [x] := fun x hxs =>
    (eq_singleton_of_lone hp (hx x hxs) hsize he).of_between
  have hmeets := ByteRange.meets_iff.mp hmeets
  have hstart := le_start_of_lone htext hlone hhead hmeets.2.2.2
  exact ⟨hstart, stop_le_of_lone htext hlone hlast hstart hmeets.2.2.1⟩

end Pattern

end FaustLens
