import FaustLens.Proofs.Pattern.FindAll

/-!
# What a match depends on

A pattern whose loops all move on (`steady`) looks at the text character by character and at most
one character ahead. If two texts are alike up to a `Seam` and in the character behind it, the
pattern finds the same ends in both as far as the seam, in the same order; only ends behind the seam
may differ. Neither does the bound on the length of the text matter.

Results:
* `agree_ends`: up to the seam, the ends in both texts agree.
* `exists_preferred_of_twins`, `preferred_eq_of_length_le`: what follows for the preferred end.
* `exists_matchesAt_of_head?_eq`: what follows for the matches.
-/

namespace FaustLens

namespace Pattern

/-- Every loop of the pattern is around a body that cannot match the empty text. -/
def steady : Pattern → Bool
  | empty => true
  | one _ => true
  | assert _ => true
  | capture _ p => steady p
  | cat a b => steady a && steady b
  | alt a b => steady a && steady b
  | repeated p _ _ _ => steady p && !nullable p

/-! ## Iterations -/

section Iterations

variable {R : Cursor → Cursor → Prop} {body : Cursor → List Cursor}

theorem rel_of_mem_rounds (hrefl : ∀ c, R c c) (htrans : ∀ c d e, R c d → R d e → R c e)
    (hbody : ∀ c e, e ∈ body c → R c e) :
    ∀ (n : Nat) {c e : Cursor}, e ∈ rounds body n c → R c e
  | 0, c, e, h => List.mem_singleton.mp h ▸ hrefl c
  | n + 1, c, e, h => by
    obtain ⟨d, hd, he⟩ := List.mem_flatMap.mp h
    exact htrans c d e (hbody c d hd) (rel_of_mem_rounds hrefl htrans hbody n he)

theorem rel_of_mem_loops (hrefl : ∀ c, R c c) (htrans : ∀ c d e, R c d → R d e → R c e)
    (hbody : ∀ c e, e ∈ body c → R c e) {greedy : Bool} :
    ∀ (n : Nat) {c e : Cursor}, e ∈ loops body greedy n c → R c e
  | 0, c, e, h => List.mem_singleton.mp h ▸ hrefl c
  | n + 1, c, e, h => by
    have h : e = c ∨ e ∈ (body c).flatMap (loops body greedy n) := by
      cases greedy with
      | true => exact (List.mem_append.mp h).symm.imp_left List.mem_singleton.mp
      | false => exact List.mem_cons.mp h
    rcases h with rfl | h
    · exact hrefl e
    · obtain ⟨d, hd, he⟩ := List.mem_flatMap.mp h
      exact htrans c d e (hbody c d hd) (rel_of_mem_loops hrefl htrans hbody n he)

/-- A preorder that holds along one iteration holds along the whole repetition. -/
theorem rel_of_mem_repeated {size : Nat} {p : Pattern} (hrefl : ∀ c, R c c)
    (htrans : ∀ c d e, R c d → R d e → R c e) (hp : p.nullable = false)
    (hbody : ∀ c e : Cursor, c.rest.length ≤ size → e ∈ ends size p c → R c e) {least : Nat}
    {most : Option Nat} {greedy : Bool} {cur e : Cursor} (hsize : cur.rest.length ≤ size)
    (h : e ∈ ends size (repeated p least most greedy) cur) : R cur e := by
  -- places behind `cur` have less text after them, so `size` is enough for them too
  let S : Cursor → Cursor → Prop := fun c e =>
    c.rest.length ≤ size → e.rest.length ≤ size ∧ R c e
  have hSrefl : ∀ c, S c c := fun c hc => ⟨hc, hrefl c⟩
  have hStrans : ∀ c d e, S c d → S d e → S c e := by
    intro c d e hcd hde hc
    obtain ⟨hd, hcd⟩ := hcd hc
    obtain ⟨he, hde⟩ := hde hd
    exact ⟨he, htrans c d e hcd hde⟩
  have hSbody : ∀ c e, e ∈ ends size p c → S c e := fun c e he hc =>
    ⟨Nat.le_trans (reaches_of_mem_ends size p c e he).length_le hc, hbody c e hc he⟩
  obtain ⟨d, hd, he⟩ := List.mem_flatMap.mp ((sameOrder_repeated hp _ _ _ hsize).mem_iff.mp h)
  have hcd := rel_of_mem_rounds hSrefl hStrans hSbody _ hd
  have hde := rel_of_mem_loops hSrefl hStrans hSbody _ he
  exact (hStrans cur d e hcd hde hsize).2

end Iterations

end Pattern

/-! ## Seams -/

/-- Two texts that are alike up to an offset, and in the character behind it. What follows may
differ otherwise. The sizes bound the lengths of the texts. -/
structure Seam where
  offset : Nat
  rest₁ : Text
  rest₂ : Text
  size₁ : Nat
  size₂ : Nat
  head_eq : rest₁.head? = rest₂.head?

namespace Seam

variable (s : Seam)

/-- The same place in both texts, up to the seam. -/
def Twins (c₁ c₂ : Cursor) : Prop :=
  ∃ prev offset w, c₁ = ⟨prev, offset, w ++ s.rest₁⟩ ∧ c₂ = ⟨prev, offset, w ++ s.rest₂⟩ ∧
    offset + w.byteLength = s.offset ∧ (w ++ s.rest₁).length ≤ s.size₁ ∧
    (w ++ s.rest₂).length ≤ s.size₂

/-- As far as the seam, the lists hold the same places in the same order, up to repetitions. -/
def Agree (l₁ l₂ : List Cursor) : Prop :=
  ∀ (β : Type) (k₁ k₂ : Cursor → Option β), (∀ c₁ c₂, s.Twins c₁ c₂ → k₁ c₁ = k₂ c₂) →
    (∀ c, s.offset < c.offset → k₁ c = none ∧ k₂ c = none) → l₁.findSome? k₁ = l₂.findSome? k₂

/-- No place of the list is before the seam or at it. -/
def Behind (l : List Cursor) : Prop := ∀ c ∈ l, s.offset < c.offset

variable {s} {c₁ c₂ : Cursor} {l₁ l₂ m₁ m₂ : List Cursor}

theorem Twins.head?_eq (h : s.Twins c₁ c₂) : c₁.rest.head? = c₂.rest.head? := by
  obtain ⟨prev, offset, w, rfl, rfl, -⟩ := h
  rw [List.head?_append, List.head?_append, s.head_eq]

theorem Twins.holds_eq (h : s.Twins c₁ c₂) (a : Assertion) : a.holds c₁ = a.holds c₂ := by
  have hhead := h.head?_eq
  have hempty : c₁.rest.isEmpty = c₂.rest.isEmpty := by
    have hnone : ∀ l : Text, l.isEmpty = l.head?.isNone := fun l => by cases l <;> rfl
    rw [hnone, hnone, hhead]
  obtain ⟨prev, offset, w, rfl, rfl, -⟩ := h
  cases a with
  | textStart => rfl
  | textEnd => exact hempty
  | lineStart crlf =>
    cases crlf with
    | false => rfl
    | true =>
      simp only [Assertion.holds]
      rw [hhead]
  | lineEnd crlf =>
    cases crlf <;>
    · simp only [Assertion.holds]
      rw [hhead]
  | wordEdge edge ascii =>
    simp only [Assertion.holds]
    rw [hhead]

theorem agree_nil : s.Agree [] [] := fun _ _ _ _ _ => rfl

theorem agree_singleton (h : s.Twins c₁ c₂) : s.Agree [c₁] [c₂] := by
  intro β k₁ k₂ hk _
  rw [List.findSome?_cons, List.findSome?_cons, hk c₁ c₂ h]
  rfl

theorem Behind.findSome?_eq_none {l : List Cursor} (h : s.Behind l) {β : Type}
    {k : Cursor → Option β} (hk : ∀ c, s.offset < c.offset → k c = none) :
    l.findSome? k = none := List.findSome?_eq_none_iff.mpr fun c hc => hk c (h c hc)

theorem agree_of_behind (h₁ : s.Behind l₁) (h₂ : s.Behind l₂) : s.Agree l₁ l₂ := by
  intro β k₁ k₂ _ hb
  rw [h₁.findSome?_eq_none fun c hc => (hb c hc).1, h₂.findSome?_eq_none fun c hc => (hb c hc).2]

namespace Agree

theorem append (h : s.Agree l₁ l₂) (h' : s.Agree m₁ m₂) : s.Agree (l₁ ++ m₁) (l₂ ++ m₂) := by
  intro β k₁ k₂ hk hb
  rw [List.findSome?_append, List.findSome?_append, h β k₁ k₂ hk hb, h' β k₁ k₂ hk hb]

theorem flatMap (h : s.Agree l₁ l₂) {f₁ f₂ : Cursor → List Cursor}
    (hf : ∀ c₁ c₂, s.Twins c₁ c₂ → s.Agree (f₁ c₁) (f₂ c₂))
    (hb₁ : ∀ c, s.offset < c.offset → s.Behind (f₁ c))
    (hb₂ : ∀ c, s.offset < c.offset → s.Behind (f₂ c)) :
    s.Agree (l₁.flatMap f₁) (l₂.flatMap f₂) := by
  intro β k₁ k₂ hk hb
  rw [SameOrder.findSome?_flatMap, SameOrder.findSome?_flatMap]
  refine h β _ _ (fun c₁ c₂ hc => hf c₁ c₂ hc β k₁ k₂ hk hb) fun c hc => ⟨?_, ?_⟩
  · exact (hb₁ c hc).findSome?_eq_none fun e he => (hb e he).1
  · exact (hb₂ c hc).findSome?_eq_none fun e he => (hb e he).2

theorem of_sameOrder (h : s.Agree m₁ m₂) (h₁ : SameOrder l₁ m₁) (h₂ : SameOrder l₂ m₂) :
    s.Agree l₁ l₂ := by
  intro β k₁ k₂ hk hb
  rw [h₁, h₂]
  exact h β k₁ k₂ hk hb

end Agree

end Seam

namespace Pattern

open Seam

variable {s : Seam}

theorem behind_ends (size : Nat) (p : Pattern) {c : Cursor} (hc : s.offset < c.offset) :
    s.Behind (ends size p c) := fun e he =>
  Nat.lt_of_lt_of_le hc (reaches_of_mem_ends size p c e he).offset_le

section Iterations

variable {body₁ body₂ : Cursor → List Cursor}

theorem behind_rounds (hbody : ∀ c e, e ∈ body₁ c → c.offset ≤ e.offset) (n : Nat) {c : Cursor}
    (hc : s.offset < c.offset) : s.Behind (rounds body₁ n c) := fun _ he =>
  Nat.lt_of_lt_of_le hc (rel_of_mem_rounds (R := fun c e => c.offset ≤ e.offset)
    (fun _ => Nat.le_refl _) (fun _ _ _ => Nat.le_trans) hbody n he)

theorem behind_loops (hbody : ∀ c e, e ∈ body₁ c → c.offset ≤ e.offset) (greedy : Bool) (n : Nat)
    {c : Cursor} (hc : s.offset < c.offset) : s.Behind (loops body₁ greedy n c) := fun _ he =>
  Nat.lt_of_lt_of_le hc (rel_of_mem_loops (R := fun c e => c.offset ≤ e.offset)
    (fun _ => Nat.le_refl _) (fun _ _ _ => Nat.le_trans) hbody n he)

variable (hbody : ∀ c₁ c₂, s.Twins c₁ c₂ → s.Agree (body₁ c₁) (body₂ c₂))
  (h₁ : ∀ c e, e ∈ body₁ c → c.offset ≤ e.offset) (h₂ : ∀ c e, e ∈ body₂ c → c.offset ≤ e.offset)

include hbody h₁ h₂

theorem agree_rounds : ∀ (n : Nat) {c₁ c₂ : Cursor}, s.Twins c₁ c₂ →
    s.Agree (rounds body₁ n c₁) (rounds body₂ n c₂)
  | 0, _, _, h => agree_singleton h
  | n + 1, c₁, c₂, h => (hbody c₁ c₂ h).flatMap (fun _ _ h => agree_rounds n h)
      (fun _ => behind_rounds h₁ n) fun _ => behind_rounds h₂ n

theorem agree_loops (greedy : Bool) : ∀ (n : Nat) {c₁ c₂ : Cursor}, s.Twins c₁ c₂ →
    s.Agree (loops body₁ greedy n c₁) (loops body₂ greedy n c₂)
  | 0, _, _, h => agree_singleton h
  | n + 1, c₁, c₂, h => by
    have hflat : s.Agree ((body₁ c₁).flatMap (loops body₁ greedy n))
        ((body₂ c₂).flatMap (loops body₂ greedy n)) :=
      (hbody c₁ c₂ h).flatMap (fun _ _ h => agree_loops greedy n h)
        (fun _ => behind_loops h₁ greedy n) fun _ => behind_loops h₂ greedy n
    cases greedy with
    | true => exact hflat.append (agree_singleton h)
    | false => exact (agree_singleton h).append hflat

end Iterations

/-- **Up to the seam the ends agree**: a match looks one character ahead and no further. -/
theorem agree_ends : ∀ {p : Pattern}, p.steady = true → ∀ {c₁ c₂ : Cursor}, s.Twins c₁ c₂ →
    s.Agree (ends s.size₁ p c₁) (ends s.size₂ p c₂)
  | empty, _, _, _, h => agree_singleton h
  | one set, _, c₁, c₂, h => by
    obtain ⟨prev, offset, w, rfl, rfl, hw, hs₁, hs₂⟩ := h
    cases w with
    | cons c w =>
      rw [Text.byteLength_cons, ← Nat.add_assoc] at hw
      rw [ends, ends]
      simp only [List.cons_append]
      split
      · refine agree_singleton ⟨some c, offset + c.utf8Size, w, rfl, rfl, hw, ?_, ?_⟩
        · exact Nat.le_trans (Nat.le_succ _) hs₁
        · exact Nat.le_trans (Nat.le_succ _) hs₂
      · exact agree_nil
    | nil =>
      -- the next character is behind the seam, and so is every end
      have hbehind : ∀ size rest, s.Behind (ends size (one set) ⟨prev, offset, rest⟩) :=
        fun size rest e he => by
          have := lt_of_mem_ends size (p := one set) rfl _ e he
          rwa [← hw]
      exact agree_of_behind (hbehind _ _) (hbehind _ _)
  | assert a, _, c₁, c₂, h => by
    rw [ends, ends, h.holds_eq]
    split
    · exact agree_singleton h
    · exact agree_nil
  | capture _ p, hp, _, _, h => agree_ends (p := p) hp h
  | cat a b, hp, c₁, c₂, h => by
    obtain ⟨ha, hb⟩ := Bool.and_eq_true_iff.mp hp
    refine Agree.of_sameOrder ?_ (sameOrder_cat _ a b c₁) (sameOrder_cat _ a b c₂)
    exact (agree_ends ha h).flatMap (fun _ _ => agree_ends hb) (fun _ => behind_ends _ b)
      fun _ => behind_ends _ b
  | alt a b, hp, c₁, c₂, h => by
    obtain ⟨ha, hb⟩ := Bool.and_eq_true_iff.mp hp
    refine Agree.of_sameOrder ?_ (sameOrder_alt _ a b c₁) (sameOrder_alt _ a b c₂)
    exact (agree_ends ha h).append (agree_ends hb h)
  | repeated p least most greedy, hp, c₁, c₂, h => by
    obtain ⟨hp, hn⟩ := Bool.and_eq_true_iff.mp hp
    have hn : p.nullable = false := by simpa using hn
    have hbody : ∀ c₁ c₂, s.Twins c₁ c₂ → s.Agree (ends s.size₁ p c₁) (ends s.size₂ p c₂) :=
      fun _ _ => agree_ends hp
    have hmove : ∀ size c e, e ∈ ends size p c → c.offset ≤ e.offset := fun size c e he =>
      (reaches_of_mem_ends size p c e he).offset_le
    have hshort : ∀ size c e, e ∈ ends size p c → e.rest.length < c.rest.length :=
      fun size c e he => (reaches_of_mem_ends size p c e he).length_lt (lt_of_mem_ends size hn c e he)
    obtain ⟨hs₁, hs₂⟩ : c₁.rest.length ≤ s.size₁ ∧ c₂.rest.length ≤ s.size₂ := by
      obtain ⟨prev, offset, w, rfl, rfl, -, hs₁, hs₂⟩ := h
      exact ⟨hs₁, hs₂⟩
    refine Agree.of_sameOrder ?_ (sameOrder_repeated hn least most greedy hs₁)
      (sameOrder_repeated hn least most greedy hs₂)
    refine (agree_rounds hbody (hmove _) (hmove _) least h).flatMap (fun d₁ d₂ hd => ?_)
      (fun _ => behind_loops (hmove _) greedy _) fun _ => behind_loops (hmove _) greedy _
    cases most with
    | some m => exact agree_loops hbody (hmove _) (hmove _) greedy _ hd
    | none =>
      obtain ⟨hd₁, hd₂⟩ : d₁.rest.length ≤ s.size₁ ∧ d₂.rest.length ≤ s.size₂ := by
        obtain ⟨prev, offset, w, rfl, rfl, -, hd₁, hd₂⟩ := hd
        exact ⟨hd₁, hd₂⟩
      -- the two bounds may differ, but either is enough
      have hmax := agree_loops hbody (hmove _) (hmove _) greedy (max s.size₁ s.size₂) hd
      rwa [loops_eq_of_length_le (hshort _) _ s.size₁ (Nat.le_trans hd₁ (Nat.le_max_left _ _)) hd₁,
        loops_eq_of_length_le (hshort _) _ s.size₂ (Nat.le_trans hd₂ (Nat.le_max_right _ _)) hd₂]
        at hmax

/-! ## The preferred end -/

/-- An end up to the seam that is preferred in one text is preferred in the other, unless an end
behind the seam is. -/
theorem exists_preferred_of_twins {p : Pattern} (hp : p.steady = true) {c₁ c₂ e₁ : Cursor}
    (h : s.Twins c₁ c₂) (he : preferred s.size₁ p c₁ = some e₁) (hle : e₁.offset ≤ s.offset) :
    ∃ e₂, preferred s.size₂ p c₂ = some e₂ ∧ (e₂.offset = e₁.offset ∨ s.offset < e₂.offset) := by
  let k : Cursor → Option Nat := fun e => if e.offset ≤ s.offset then some e.offset else none
  have hagree : (ends s.size₁ p c₁).findSome? k = (ends s.size₂ p c₂).findSome? k := by
    refine agree_ends hp h Nat k k ?_ fun c hc => ?_
    · rintro _ _ ⟨prev, offset, w, rfl, rfl, -⟩
      rfl
    · have hk : k c = none := if_neg (Nat.not_le_of_lt hc)
      exact ⟨hk, hk⟩
  obtain ⟨t₁, hl₁⟩ : ∃ t, ends s.size₁ p c₁ = e₁ :: t := List.head?_eq_some_iff.mp he
  rw [hl₁, List.findSome?_cons, show k e₁ = some e₁.offset from if_pos hle] at hagree
  unfold preferred
  cases hl₂ : ends s.size₂ p c₂ with
  | nil =>
    rw [hl₂] at hagree
    exact absurd hagree (by simp)
  | cons e₂ t₂ =>
    refine ⟨e₂, rfl, ?_⟩
    by_cases hle₂ : e₂.offset ≤ s.offset
    · rw [hl₂, List.findSome?_cons, show k e₂ = some e₂.offset from if_pos hle₂] at hagree
      exact Or.inl (Option.some.inj hagree).symm
    · exact Or.inr (Nat.lt_of_not_le hle₂)

/-- What the pattern matches in the common part of two texts that go on with the same character, it
matches in the other text too, unless it prefers an end behind the common part there. -/
theorem exists_matchesAt_of_head?_eq {p : Pattern} (hp : p.steady = true) {a rest₁ rest₂ : Text}
    (hhead : rest₁.head? = rest₂.head?) {r : ByteRange} (h : MatchesAt p (a ++ rest₁) r)
    (hstop : r.stop ≤ a.byteLength) : ∃ stop,
      MatchesAt p (a ++ rest₂) ⟨r.start, stop⟩ ∧ (stop = r.stop ∨ a.byteLength < stop) := by
  obtain ⟨v, b, e₁, htext, he₁, rfl⟩ := h
  have hle := (reaches_of_mem_ends _ p _ e₁ (mem_of_preferred he₁)).offset_le
  obtain ⟨w, rfl, rfl⟩ := Text.exists_middle htext.symm (Nat.le_trans hle hstop)
  let s : Seam := ⟨(v ++ w).byteLength, rest₁, rest₂, (v ++ w ++ rest₁).length,
    (v ++ w ++ rest₂).length, hhead⟩
  have hsize : ∀ rest : Text, (w ++ rest).length ≤ (v ++ w ++ rest).length := by
    intro rest
    rw [List.append_assoc]
    exact (List.suffix_append v _).length_le
  have htwins : s.Twins (Cursor.between v (w ++ rest₁)) (Cursor.between v (w ++ rest₂)) :=
    ⟨v.getLast?, v.byteLength, w, rfl, rfl, (Text.byteLength_append v w).symm, hsize _, hsize _⟩
  obtain ⟨e₂, he₂, hor⟩ := exists_preferred_of_twins hp htwins he₁ hstop
  exact ⟨e₂.offset, ⟨v, _, e₂, List.append_assoc _ _ _, he₂, rfl⟩, hor⟩

/-- **The bound on the length of the text has no effect.** -/
theorem preferred_eq_of_length_le {p : Pattern} (hp : p.steady = true) {size size' : Nat}
    {cur : Cursor} (h : cur.rest.length ≤ size) (h' : cur.rest.length ≤ size') :
    preferred size p cur = preferred size' p cur := by
  let s : Seam := ⟨cur.offset + cur.rest.byteLength, [], [], size, size', rfl⟩
  let k : Cursor → Option Cursor := fun e => if e.offset ≤ s.offset then some e else none
  have htwins : s.Twins cur cur := by
    have hnil : cur.rest ++ [] = cur.rest := List.append_nil _
    refine ⟨cur.prev, cur.offset, cur.rest, ?_, ?_, rfl, ?_, ?_⟩
    all_goals simp only [s, hnil, h, h']
  have hall : ∀ n, (ends n p cur).findSome? k = preferred n p cur := by
    intro n
    unfold preferred
    cases hl : ends n p cur with
    | nil => rfl
    | cons e t =>
      have hadd := (reaches_of_mem_ends n p cur e (hl ▸ List.mem_cons_self)).offset_add
      have hle : e.offset ≤ s.offset := Nat.le_trans (Nat.le_add_right _ _) (Nat.le_of_eq hadd)
      rw [List.findSome?_cons, show k e = some e from if_pos hle]
      rfl
  rw [← hall, ← hall]
  refine agree_ends hp htwins Cursor k k ?_ fun c hc => ?_
  · rintro _ _ ⟨prev, offset, w, rfl, rfl, -⟩
    rfl
  · have hk : k c = none := if_neg (Nat.not_le_of_lt hc)
    exact ⟨hk, hk⟩

end Pattern

end FaustLens
