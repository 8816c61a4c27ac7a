import FaustLens.Pattern.Match
import Mathlib.Logic.Basic

/-!
# Matching moves forward

A place reaches another if the text between them leads from the one to the other
(`Cursor.Reaches`). Whatever the pattern, a match that starts at a place ends at a place it reaches:
no end is past the text or inside a character. The offset tells the places apart that one place
reaches, so lists of ends may be compared by offset.

Results:
* `Reaches.eq_of_offset`: among the places that one place reaches, the offset is a name.
* `reaches_of_mem_ends`: every end of a pattern is reached, also through the search that loops
  around patterns of empty matches need.
* `lt_of_mem_ends`: a pattern that cannot match the empty text moves on.
-/

namespace FaustLens

namespace Text

theorem byteLength_pos {w : Text} (h : w ≠ []) : 0 < w.byteLength := by
  cases w with
  | nil => exact absurd rfl h
  | cons c w =>
    have := c.utf8Size_pos
    rw [byteLength_cons]
    omega

/-- The shorter of two beginnings of one text begins the longer one. -/
theorem exists_middle : ∀ {a b c d : Text}, a ++ b = c ++ d → a.byteLength ≤ c.byteLength →
    ∃ m, c = a ++ m ∧ b = m ++ d
  | [], b, c, d, h, _ => ⟨c, rfl, h⟩
  | x :: a, b, [], d, _, hle => by
    have := x.utf8Size_pos
    rw [byteLength_cons, byteLength_nil] at hle
    omega
  | x :: a, b, y :: c, d, h, hle => by
    rw [List.cons_append, List.cons_append] at h
    obtain ⟨rfl, htail⟩ := List.cons.inj h
    rw [byteLength_cons, byteLength_cons] at hle
    obtain ⟨m, rfl, hb⟩ := exists_middle htail (Nat.le_of_add_le_add_left hle)
    exact ⟨m, rfl, hb⟩

theorem append_inj {a b c d : Text} (h : a ++ b = c ++ d) (hlen : a.byteLength = c.byteLength) :
    a = c ∧ b = d := by
  obtain ⟨m, rfl, rfl⟩ := exists_middle h (Nat.le_of_eq hlen)
  cases m with
  | nil => simp
  | cons x m =>
    have := byteLength_pos (w := x :: m) (by simp)
    rw [byteLength_append] at hlen
    omega

/-- Two texts that stand at one place are the same if both hold members of a set only, and no member
follows either of them. -/
theorem eq_of_run {P : Char → Prop} : ∀ {v w y z : Text}, (∀ c ∈ v, P c) → (∀ c ∈ w, P c) →
    (∀ c ∈ y.head?, ¬ P c) → (∀ c ∈ z.head?, ¬ P c) → v ++ y = w ++ z → v = w ∧ y = z
  | [], [], _, _, _, _, _, _, h => ⟨rfl, h⟩
  | [], c :: w, y, z, _, hw, hy, _, h => by
    rw [List.nil_append] at h
    exact absurd (hw c List.mem_cons_self) (hy c (by rw [h]; rfl))
  | c :: v, [], y, z, hv, _, _, hz, h => by
    rw [List.nil_append] at h
    exact absurd (hv c List.mem_cons_self) (hz c (by rw [← h]; rfl))
  | c :: v, d :: w, y, z, hv, hw, hy, hz, h => by
    obtain ⟨rfl, htail⟩ := List.cons.inj h
    obtain ⟨rfl, rfl⟩ := eq_of_run (fun x hx => hv x (List.mem_cons_of_mem _ hx))
      (fun x hx => hw x (List.mem_cons_of_mem _ hx)) hy hz htail
    exact ⟨rfl, rfl⟩

end Text

namespace Cursor

/-- The place behind `w`, with `rest` after it. -/
def skip (cur : Cursor) (w rest : Text) : Cursor :=
  ⟨w.getLast?.or cur.prev, cur.offset + w.byteLength, rest⟩

/-- The text after `cur` leads to the place `e`. -/
def Reaches (cur e : Cursor) : Prop := ∃ w, cur.rest = w ++ e.rest ∧ e = cur.skip w e.rest

theorem skip_nil (cur : Cursor) : cur.skip [] cur.rest = cur := rfl

theorem skip_skip (cur : Cursor) (v w rest rest' : Text) :
    (cur.skip v rest').skip w rest = cur.skip (v ++ w) rest := by
  simp only [skip, Text.byteLength_append, List.getLast?_append, Option.or_assoc, Nat.add_assoc]

theorem reaches_refl (cur : Cursor) : cur.Reaches cur := ⟨[], rfl, rfl⟩

theorem reaches_past {cur : Cursor} {c : Char} {rest : Text} (h : cur.rest = c :: rest) :
    cur.Reaches (cur.past c rest) := ⟨[c], h, rfl⟩

namespace Reaches

variable {cur e e' : Cursor}

theorem trans (h : cur.Reaches e) (h' : e.Reaches e') : cur.Reaches e' := by
  obtain ⟨v, hv, hev⟩ := h
  obtain ⟨w, hw, hew⟩ := h'
  refine ⟨v ++ w, by rw [hv, hw, List.append_assoc], ?_⟩
  rw [hev, skip_skip] at hew
  exact hew

theorem offset_le (h : cur.Reaches e) : cur.offset ≤ e.offset := by
  obtain ⟨w, -, he⟩ := h
  rw [he]
  exact Nat.le_add_right _ _

/-- **The offset is a name** for the places that one place reaches. -/
theorem eq_of_offset (h : cur.Reaches e) (h' : cur.Reaches e') (ho : e.offset = e'.offset) :
    e = e' := by
  obtain ⟨v, hv, hev⟩ := h
  obtain ⟨w, hw, hew⟩ := h'
  have hlen : v.byteLength = w.byteLength := by
    rw [hev, hew] at ho
    exact Nat.add_left_cancel ho
  obtain ⟨rfl, hrest⟩ := Text.append_inj (hv.symm.trans hw) hlen
  rw [hev, hew, hrest]

/-- Reaching another place takes at least one character. -/
theorem eq_or_lt (h : cur.Reaches e) :
    e = cur ∨ (cur.offset < e.offset ∧ e.rest.length < cur.rest.length) := by
  obtain ⟨w, hw, he⟩ := h
  cases w with
  | nil =>
    rw [List.nil_append] at hw
    exact Or.inl (by rw [he, ← hw, skip_nil])
  | cons c w =>
    have hpos := Text.byteLength_pos (w := c :: w) (by simp)
    refine Or.inr ⟨?_, ?_⟩
    · rw [he]
      exact Nat.lt_add_of_pos_right hpos
    · rw [hw, List.length_append, List.length_cons]
      omega

theorem length_lt (h : cur.Reaches e) (hlt : cur.offset < e.offset) :
    e.rest.length < cur.rest.length := by
  rcases h.eq_or_lt with rfl | h
  · exact absurd hlt (Nat.lt_irrefl _)
  · exact h.2

theorem length_le (h : cur.Reaches e) : e.rest.length ≤ cur.rest.length := by
  rcases h.eq_or_lt with rfl | h
  · exact Nat.le_refl _
  · exact Nat.le_of_lt h.2

/-- The end of a place's text is the end of the text of any place it reaches. -/
theorem offset_add (h : cur.Reaches e) :
    e.offset + e.rest.byteLength = cur.offset + cur.rest.byteLength := by
  obtain ⟨w, hw, he⟩ := h
  have ho : e.offset = cur.offset + w.byteLength := by rw [he]; rfl
  rw [hw, Text.byteLength_append, ho, Nat.add_assoc]

end Reaches

end Cursor

/-! ## Searches

What a search finds is found by moving forward, so a property of places that moving forward keeps
holds of all ends if it holds at the start. -/

/-- Moving forward keeps the property. -/
def Cursor.Kept (P : Cursor → Prop) : Prop := ∀ c e : Cursor, P c → c.Reaches e → P e

theorem Cursor.kept_reaches (cur : Cursor) : Kept cur.Reaches := fun _ _ h h' => h.trans h'

theorem Cursor.kept_offset_lt (n : Nat) : Kept fun c => n < c.offset :=
  fun _ _ h h' => Nat.lt_of_lt_of_le h h'.offset_le

/-- All ends found so far have the property. -/
def Search.Within (P : Cursor → Prop) (s : Search) : Prop := ∀ e ∈ s.found, P e

section Searches

variable {P : Cursor → Prop}

theorem Search.within_init (P : Cursor → Prop) : Search.init.Within P :=
  fun _ h => absurd h List.not_mem_nil

theorem Search.within_emit {e : Cursor} {s : Search} (hs : s.Within P) (he : P e) :
    (s.emit e).Within P := by
  intro x hx
  rcases List.mem_cons.mp hx with rfl | hx
  · exact he
  · exact hs x hx

theorem Search.within_fork {s : Search} (hs : s.Within P) (k : Nat) (greedy : Bool)
    {first second : Search → Search} (h₁ : ∀ s : Search, s.Within P → (first s).Within P)
    (h₂ : ∀ s : Search, s.Within P → (second s).Within P) :
    (s.fork k greedy first second).Within P := by
  have hs' : Search.Within P ⟨s.made.insert k, s.found⟩ := hs
  unfold fork
  split
  · exact hs
  · split
    · exact h₂ _ (h₁ _ hs')
    · exact h₁ _ (h₂ _ hs')

namespace Pattern

/-- From a place with the property, the walk finds places with the property only. -/
def Forward (P : Cursor → Prop) (w : Walk) : Prop :=
  ∀ (e : Cursor) (s : Search), P e → s.Within P → (w e s).Within P

theorem forward_choose (total : Nat) (greedy : Bool) (id : Nat) {first second : Walk}
    (h₁ : Forward P first) (h₂ : Forward P second) :
    Forward P (walk.choose total greedy id first second) :=
  fun e _ he hs => Search.within_fork hs _ greedy (fun s => h₁ e s he) fun s => h₂ e s he

theorem forward_turns {step : Nat → Walk → Walk} (width : Nat)
    (hstep : ∀ id next, Forward P next → Forward P (step id next)) :
    ∀ (n id : Nat) {next : Walk}, Forward P next → Forward P (turns step width n id next)
  | 0, _, _, h => h
  | n + 1, id, _, h => hstep id _ (forward_turns width hstep n (id + width) h)

theorem forward_atMost {choose : Nat → Walk → Walk → Walk} {step : Nat → Walk → Walk}
    (width : Nat)
    (hchoose : ∀ id first second, Forward P first → Forward P second →
      Forward P (choose id first second))
    (hstep : ∀ id next, Forward P next → Forward P (step id next)) :
    ∀ (n id : Nat) {next : Walk}, Forward P next → Forward P (atMost choose step width n id next)
  | 0, _, _, h => h
  | n + 1, id, _, h =>
    hchoose id _ _ (hstep _ _ (forward_atMost width hchoose hstep n (id + 1 + width) h)) h

theorem forward_again {choose : Walk → Walk → Walk} {step : Walk → Walk}
    (hchoose : ∀ first second, Forward P first → Forward P second →
      Forward P (choose first second))
    (hstep : ∀ next, Forward P next → Forward P (step next)) :
    ∀ (n : Nat) {next : Walk}, Forward P next → Forward P (again choose step n next)
  | 0, _, h => h
  | n + 1, _, h => hchoose _ _ (hstep _ (forward_again hchoose hstep n h)) h

theorem forward_walk (hP : Cursor.Kept P) (size total : Nat) : ∀ (p : Pattern) (id : Nat)
    {next : Walk}, Forward P next → Forward P (walk size total p id next)
  | empty, _, _, h => h
  | one set, _, next, h => by
    intro e s he hs
    rw [walk]
    cases hr : e.rest with
    | nil => exact hs
    | cons c rest =>
      simp only
      split
      · exact h _ s (hP _ _ he (Cursor.reaches_past hr)) hs
      · exact hs
  | assert a, _, next, h => by
    intro e s he hs
    rw [walk]
    split
    · exact h e s he hs
    · exact hs
  | capture _ p, id, _, h => forward_walk hP size total p id h
  | cat a b, id, _, h => forward_walk hP size total a id (forward_walk hP size total b _ h)
  | alt a b, id, _, h =>
    forward_choose total true id (forward_walk hP size total a _ h)
      (forward_walk hP size total b _ h)
  | repeated p least (some m) greedy, id, _, h =>
    forward_turns _ (fun id _ => forward_walk hP size total p id) least id
      (forward_atMost _ (fun id _ _ => forward_choose total greedy id)
        (fun id _ => forward_walk hP size total p id) _ _ h)
  | repeated p 0 none greedy, id, next, h => by
    have hloop : Forward P (again (walk.choose total greedy (id + 1))
        (walk size total p (id + 2)) (size + 2) next) :=
      forward_again (fun _ _ => forward_choose total greedy _)
        (fun _ => forward_walk hP size total p _) _ h
    intro e s he hs
    rw [walk]
    split
    · exact forward_choose total greedy id (forward_walk hP size total p _ hloop) h e s he hs
    · exact hloop e s he hs
  | repeated p (n + 1) none greedy, id, next, h => by
    have hlast : ∀ next, Forward P next →
        Forward P (walk size total p (id + 2 + n * choices p) next) :=
      fun _ => forward_walk hP size total p _
    have hloop := forward_again (fun _ _ => forward_choose total greedy (id + 1)) hlast
      (size + 2) h
    exact forward_turns _ (fun id _ => forward_walk hP size total p id) n (id + 2)
      (hlast _ hloop)

theorem kept_of_mem_searchEnds (hP : Cursor.Kept P) {size : Nat} {p : Pattern} {cur e : Cursor}
    (hcur : P cur) (h : e ∈ searchEnds size p cur) : P e := by
  have hw : (walk size p.choices p 0 (fun e s => s.emit e) cur Search.init).Within P :=
    forward_walk hP size _ p 0 (fun _ _ he hs => Search.within_emit hs he) cur _ hcur
      (Search.within_init P)
  exact hw e (List.mem_reverse.mp (distinctFrom_subset ∅ _ h))

/-! ## Ends -/

theorem mem_of_mem_distinct {e : Cursor} {curs : List Cursor} (h : e ∈ distinct curs) :
    e ∈ curs := distinctFrom_subset ∅ curs h

theorem reaches_of_mem_runEnds {set : CharSet} {e : Cursor} :
    ∀ {cur : Cursor}, e ∈ runEnds set cur → cur.Reaches e := by
  suffices h : ∀ (rest : Text) (prev : Option Char) (offset : Nat),
      e ∈ runEnds.go set offset rest → (⟨prev, offset, rest⟩ : Cursor).Reaches e from
    fun {cur} he => h cur.rest cur.prev cur.offset he
  intro rest
  induction rest with
  | nil => exact fun _ _ he => absurd he (by simp [runEnds.go])
  | cons c rest ih =>
    intro prev offset he
    rw [runEnds.go] at he
    have hpast : (⟨prev, offset, c :: rest⟩ : Cursor).Reaches
        ⟨some c, offset + c.utf8Size, rest⟩ := Cursor.reaches_past rfl
    split at he
    · rcases List.mem_cons.mp he with rfl | he
      · exact hpast
      · exact hpast.trans (ih _ _ he)
    · exact absurd he List.not_mem_nil

theorem within_foldl {found : Search → Cursor → Search} : ∀ (es : List Cursor) {s : Search},
    (∀ e ∈ es, ∀ s : Search, s.Within P → (found s e).Within P) → s.Within P →
      (es.foldl found s).Within P
  | [], _, _, hs => hs
  | e :: es, s, h, hs =>
    within_foldl es (fun x hx => h x (List.mem_cons_of_mem _ hx)) (h e List.mem_cons_self s hs)

theorem within_explore (hP : Cursor.Kept P) {body : Cursor → List Cursor} (greedy : Bool)
    (key : Nat → Cursor → Nat) (hbody : ∀ c e, e ∈ body c → c.Reaches e) :
    ∀ (n : Nat) (c : Cursor) (s : Search), P c → s.Within P →
      (explore body greedy key n c s).Within P
  | 0, c, s, hc, hs => Search.within_emit hs hc
  | n + 1, c, s, hc, hs => by
    refine Search.within_fork hs _ greedy (fun s hs => ?_) fun s hs => Search.within_emit hs hc
    exact within_foldl _ (fun e he s hs =>
      within_explore hP greedy key hbody n e s (hP c e hc (hbody c e he)) hs) hs

/-- Further iterations of a single character: a run, cut off at the limit. -/
theorem furtherEnds_one (size : Nat) (set : CharSet) (body : Cursor → List Cursor)
    (limit : Option Nat) (greedy : Bool) (starts : List Cursor) :
    furtherEnds size (one set) body limit greedy starts = starts.flatMap fun c =>
      if greedy then (c :: (runEnds set c).take (limit.getD (runEnds set c).length)).reverse
      else c :: (runEnds set c).take (limit.getD (runEnds set c).length) := by
  cases limit <;> simp [furtherEnds]

/-- The number of a choice in an exploration: without a limit only the place counts. -/
def choiceKey : Option Nat → Nat → Cursor → Nat
  | none => fun _ c => c.offset
  | some m => fun n c => c.offset * m + n

/-- Further iterations of any other pattern: an exploration, without repeated places. -/
theorem furtherEnds_of_ne_one (size : Nat) {p : Pattern} (hp : ∀ set, p ≠ one set)
    (body : Cursor → List Cursor) (limit : Option Nat) (greedy : Bool) (starts : List Cursor) :
    furtherEnds size p body limit greedy starts =
      distinct (starts.foldl (fun s c => explore body greedy (choiceKey limit) (limit.getD size) c s)
        Search.init).found.reverse := by
  cases p with
  | one set => exact absurd rfl (hp set)
  | _ => cases limit <;> rfl

theorem kept_of_mem_furtherEnds (hP : Cursor.Kept P) {size : Nat} {p : Pattern}
    {body : Cursor → List Cursor} {limit : Option Nat} {greedy : Bool} {starts : List Cursor}
    {e : Cursor} (hbody : ∀ c e, e ∈ body c → c.Reaches e) (hstarts : ∀ c ∈ starts, P c)
    (h : e ∈ furtherEnds size p body limit greedy starts) : P e := by
  by_cases hp : ∃ set, p = one set
  · obtain ⟨set, rfl⟩ := hp
    rw [furtherEnds_one] at h
    obtain ⟨c, hc, he⟩ := List.mem_flatMap.mp h
    have hmem : e ∈ c :: (runEnds set c).take (limit.getD (runEnds set c).length) := by
      cases greedy with
      | false => exact he
      | true => exact List.mem_reverse.mp he
    rcases List.mem_cons.mp hmem with rfl | hmem
    · exact hstarts _ hc
    · exact hP c e (hstarts c hc) (reaches_of_mem_runEnds (List.mem_of_mem_take hmem))
  · rw [furtherEnds_of_ne_one size fun set hs => hp ⟨set, hs⟩] at h
    exact within_foldl starts (fun c hc s hs => within_explore hP greedy _ hbody _ c s (hstarts c hc) hs)
      (Search.within_init P) e (List.mem_reverse.mp (mem_of_mem_distinct h))

theorem kept_of_mem_iterate (hP : Cursor.Kept P) {step : Cursor → List Cursor}
    (hstep : ∀ c e, e ∈ step c → c.Reaches e) : ∀ (n : Nat) {curs : List Cursor},
    (∀ c ∈ curs, P c) → ∀ e ∈ iterate step n curs, P e
  | 0, _, h, e, he => h e he
  | _ + 1, [], _, e, he => absurd he (by simp [iterate])
  | n + 1, c :: curs, h, e, he => by
    rw [iterate] at he
    · refine kept_of_mem_iterate hP hstep n (fun x hx => ?_) e he
      obtain ⟨y, hy, hxy⟩ := List.mem_flatMap.mp (mem_of_mem_distinct hx)
      exact hP y x (h y hy) (hstep y x hxy)
    · simp

theorem ends_repeated_of_ordinary {p : Pattern} {most : Option Nat}
    (h : (p.nullable && most.isNone) = false) (size least : Nat) (greedy : Bool) (cur : Cursor) :
    ends size (repeated p least most greedy) cur =
      furtherEnds size p (ends size p) (most.map (· - least)) greedy
        (iterate (ends size p) least [cur]) := by
  simp [ends, h]

theorem ends_repeated_of_nullable {p : Pattern} {most : Option Nat}
    (h : (p.nullable && most.isNone) = true) (size least : Nat) (greedy : Bool) (cur : Cursor) :
    ends size (repeated p least most greedy) cur =
      match least with
      | 0 => searchEnds size (repeated p 0 none greedy) cur
      | n + 1 => distinct ((iterate (ends size p) n [cur]).flatMap
          (searchEnds size (repeated p 1 none greedy))) := by
  cases least <;> simp [ends, h]

end Pattern

end Searches

namespace Pattern

/-- **Matching moves forward**: every end of a pattern is reached from where the match starts. -/
theorem reaches_of_mem_ends (size : Nat) : ∀ (p : Pattern) (cur e : Cursor),
    e ∈ ends size p cur → cur.Reaches e
  | empty, cur, e, h => by
    rw [ends, List.mem_singleton] at h
    exact h ▸ Cursor.reaches_refl cur
  | one s, cur, e, h => by
    rw [ends] at h
    cases hr : cur.rest with
    | nil => simp [hr] at h
    | cons c rest =>
      rw [hr] at h
      simp only at h
      split at h
      · rw [List.mem_singleton] at h
        exact h ▸ Cursor.reaches_past hr
      · exact absurd h List.not_mem_nil
  | assert a, cur, e, h => by
    rw [ends] at h
    split at h
    · rw [List.mem_singleton] at h
      exact h ▸ Cursor.reaches_refl cur
    · exact absurd h List.not_mem_nil
  | capture _ p, cur, e, h => reaches_of_mem_ends size p cur e h
  | cat a b, cur, e, h => by
    obtain ⟨c, hc, he⟩ := List.mem_flatMap.mp (mem_of_mem_distinct h)
    exact (reaches_of_mem_ends size a cur c hc).trans (reaches_of_mem_ends size b c e he)
  | alt a b, cur, e, h => by
    rcases List.mem_append.mp (mem_of_mem_distinct h) with h | h
    · exact reaches_of_mem_ends size a cur e h
    · exact reaches_of_mem_ends size b cur e h
  | repeated p least most greedy, cur, e, h => by
    have hP := Cursor.kept_reaches cur
    have hstep := reaches_of_mem_ends size p
    have hiter : ∀ n, ∀ c ∈ iterate (ends size p) n [cur], cur.Reaches c := fun n =>
      kept_of_mem_iterate hP hstep n fun c hc =>
        List.mem_singleton.mp hc ▸ Cursor.reaches_refl cur
    cases hn : p.nullable && most.isNone with
    | false =>
      rw [ends_repeated_of_ordinary hn] at h
      exact kept_of_mem_furtherEnds hP hstep (hiter least) h
    | true =>
      rw [ends_repeated_of_nullable hn] at h
      cases least with
      | zero => exact kept_of_mem_searchEnds hP (Cursor.reaches_refl cur) h
      | succ n =>
        obtain ⟨c, hc, he⟩ := List.mem_flatMap.mp (mem_of_mem_distinct h)
        exact kept_of_mem_searchEnds hP (hiter n c hc) he

/-- **A pattern that cannot match the empty text moves on.** -/
theorem lt_of_mem_ends (size : Nat) : ∀ {p : Pattern}, p.nullable = false → ∀ (cur e : Cursor),
    e ∈ ends size p cur → cur.offset < e.offset
  | empty, hp, _, _, _ => absurd hp (by simp [nullable])
  | one s, _, cur, e, h => by
    rw [ends] at h
    cases hr : cur.rest with
    | nil => simp [hr] at h
    | cons c rest =>
      rw [hr] at h
      simp only at h
      split at h
      · rw [List.mem_singleton] at h
        rw [h]
        exact Nat.lt_add_of_pos_right c.utf8Size_pos
      · exact absurd h List.not_mem_nil
  | assert a, hp, _, _, _ => absurd hp (by simp [nullable])
  | capture _ p, hp, cur, e, h => lt_of_mem_ends size (p := p) hp cur e h
  | cat a b, hp, cur, e, h => by
    obtain ⟨c, hc, he⟩ := List.mem_flatMap.mp (mem_of_mem_distinct h)
    have hle := (reaches_of_mem_ends size a cur c hc).offset_le
    have hle' := (reaches_of_mem_ends size b c e he).offset_le
    rcases Bool.and_eq_false_iff.mp hp with ha | hb
    · exact Nat.lt_of_lt_of_le (lt_of_mem_ends size ha cur c hc) hle'
    · exact Nat.lt_of_le_of_lt hle (lt_of_mem_ends size hb c e he)
  | alt a b, hp, cur, e, h => by
    obtain ⟨ha, hb⟩ := Bool.or_eq_false_iff.mp hp
    rcases List.mem_append.mp (mem_of_mem_distinct h) with h | h
    · exact lt_of_mem_ends size ha cur e h
    · exact lt_of_mem_ends size hb cur e h
  | repeated p least most greedy, hp, cur, e, h => by
    obtain ⟨hl, hn⟩ := Bool.or_eq_false_iff.mp hp
    obtain ⟨n, rfl⟩ : ∃ n, least = n + 1 := ⟨least - 1, by simp at hl; omega⟩
    have hP := Cursor.kept_offset_lt cur.offset
    have hstep := reaches_of_mem_ends size p
    rw [ends_repeated_of_not_nullable hn] at h
    -- the first iteration is not optional, and it moves on
    refine kept_of_mem_furtherEnds hP hstep (kept_of_mem_iterate hP hstep n fun c hc => ?_) h
    obtain ⟨x, hx, hxc⟩ := List.mem_flatMap.mp (mem_of_mem_distinct hc)
    rw [List.mem_singleton.mp hx] at hxc
    exact lt_of_mem_ends size hn cur c hxc

end Pattern

end FaustLens
