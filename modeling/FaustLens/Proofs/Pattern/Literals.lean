import FaustLens.Proofs.Pattern.Append
import FaustLens.Proofs.Pattern.Words

/-!
# Choices between literals

A pattern that chooses between texts matches wherever one of them follows, and prefers the first of
its list that does. Which of these places are matches depends on where the earlier matches end. At a
free place, one that no match goes across, the preferred text is a match, and the place behind it is
free again. So the first byte of every place where a text follows is in some match, and where no
text of the list goes across a place, the place is free.

Results:
* `matchesAt_iff_of_spellings`: where a choice between texts matches.
* `exists_mem_findAll_of_spelling`: the first byte of a text that follows is in a match.
* `exists_spelling_of_mem`: a match that holds a character is a text of the list that does.
* `freeAt_of_pairs`, `freeAt_behind`: when a place is free.
* `exists_mem_findAll_iff_of_pairs`: which characters the matches hold.
-/

namespace FaustLens.Pattern

open Cursor (between)

variable {size : Nat} {p : Pattern} {ws : List Text} {text a b w z : Text} {r : ByteRange}

/-! ## The preferred text -/

/-- The first of the texts that stands at the beginning of `b`. -/
def firstOf? (ws : List Text) (b : Text) : Option Text := ws.find? (·.isPrefixOf b)

theorem mem_of_firstOf? (h : firstOf? ws b = some w) : w ∈ ws := List.mem_of_find?_eq_some h

theorem exists_of_firstOf? (h : firstOf? ws b = some w) : ∃ z, b = w ++ z := by
  obtain ⟨hw, -⟩ := List.find?_eq_some_iff_append.mp h
  obtain ⟨z, hz⟩ := List.isPrefixOf_iff_prefix.mp hw
  exact ⟨z, hz.symm⟩

theorem isSome_firstOf? (hw : w ∈ ws) : (firstOf? ws (w ++ z)).isSome = true :=
  List.find?_isSome.mpr ⟨w, hw, List.isPrefixOf_iff_prefix.mpr (List.prefix_append w z)⟩

/-- What is found first among the members with a property is told by the first such member. -/
theorem findSome?_ite {α β : Type} (P : α → Prop) [DecidablePred P] (f : α → β) (l : List α) :
    l.findSome? (fun x => if P x then some (f x) else none) =
      (l.find? fun x => decide (P x)).map f := by
  rw [List.find?_eq_findSome?_guard, List.map_findSome?]
  congr 1
  funext x
  by_cases hx : P x <;> simp [Option.guard, hx]

/-- The preferred end of a choice between texts is behind the first of them that follows. -/
theorem preferred_of_spellings (hp : p.spellings = some ws) (size : Nat) (a b : Text) :
    preferred size p (between a b) =
      (firstOf? ws b).map fun w => between (a ++ w) (b.drop w.length) := by
  have hprefix : (fun w : Text => decide (w <+: b)) = (·.isPrefixOf b) := by
    funext w
    rw [Bool.eq_iff_iff, decide_eq_true_iff, List.isPrefixOf_iff_prefix]
  rw [preferred_eq_findSome?, findSome?_ends_of_spellings hp, firstOf?, ← hprefix, ← findSome?_ite]
  simp only [Option.bind_fun_some, Cursor.after?_between]

/-- **Where a choice between texts matches**: at the first of them that follows. -/
theorem matchesAt_iff_of_spellings (hp : p.spellings = some ws) :
    MatchesAt p text r ↔ ∃ a w z, text.Parts r a w z ∧ firstOf? ws (w ++ z) = some w :=
  matchesAt_iff_of_preferred (fun _ b => firstOf? ws b)
    (fun _ _ _ hw => (exists_of_firstOf? hw).imp fun _ => Eq.symm) (preferred_of_spellings hp)

/-! ## The matches -/

theorem mem_findAll_of_freeAt (hn : p.nullable = false) (h : MatchesAt p text r)
    (hfree : p.FreeAt text r.start) : r ∈ p.findAll text := (mem_findAll_iff hn).mpr ⟨h, hfree⟩

/-- The place behind a match is free. -/
theorem freeAt_stop (hr : r ∈ p.findAll text) : p.FreeAt text r.stop := by
  intro s hs hlt
  have hle := (bounds_of_mem_findAll hr).1
  rcases eq_or_apart_of_mem_findAll hs hr with rfl | hap | hap
  · exact Nat.le_refl _
  · exact Nat.le_trans hap hle
  · exact absurd hlt (Nat.not_lt_of_le hap)

/-- At a free place the preferred text is a match. -/
theorem mem_findAll_of_firstOf? (hn : p.nullable = false) (hp : p.spellings = some ws)
    (hfree : p.FreeAt text a.byteLength) (htext : text = a ++ (w ++ z))
    (hw : firstOf? ws (w ++ z) = some w) :
    (⟨a.byteLength, (a ++ w).byteLength⟩ : ByteRange) ∈ p.findAll text := by
  refine mem_findAll_of_freeAt hn
    ((matchesAt_iff_of_spellings hp).mpr ⟨a, w, z, ⟨?_, rfl⟩, hw⟩) hfree
  rw [htext, List.append_assoc]

/-- **A free place is followed by a free place**, behind the text that is preferred there. -/
theorem freeAt_behind (hn : p.nullable = false) (hp : p.spellings = some ws)
    (hfree : p.FreeAt text a.byteLength) (htext : text = a ++ (w ++ z))
    (hw : firstOf? ws (w ++ z) = some w) : p.FreeAt text (a ++ w).byteLength :=
  freeAt_stop (mem_findAll_of_firstOf? hn hp hfree htext hw)

/-- A place inside the text that is preferred at a free place is not free. -/
theorem not_freeAt_inside {c d : Char} (hn : p.nullable = false) (hp : p.spellings = some ws)
    (hfree : p.FreeAt text a.byteLength) (htext : text = a ++ c :: d :: z)
    (hw : firstOf? ws (c :: d :: z) = some [c, d]) : ¬ p.FreeAt text (a ++ [c]).byteLength := by
  intro hinside
  have hm : (⟨a.byteLength, (a ++ [c, d]).byteLength⟩ : ByteRange) ∈ p.findAll text :=
    mem_findAll_of_firstOf? (w := [c, d]) hn hp hfree htext hw
  have hc := c.utf8Size_pos
  have hd := d.utf8Size_pos
  have hstart : a.byteLength < (a ++ [c]).byteLength := by
    simp only [Text.byteLength_append, Text.byteLength_cons, Text.byteLength_nil]
    omega
  have hstop := hinside _ hm hstart
  simp only [Text.byteLength_append, Text.byteLength_cons, Text.byteLength_nil] at hstop
  omega

/-- **The first byte of a text that follows is in a match**, though perhaps in one of another
text. -/
theorem exists_mem_findAll_of_spelling (hn : p.nullable = false) (hp : p.spellings = some ws)
    (hw : w ∈ ws) (htext : text = a ++ w ++ z) : ∃ m ∈ p.findAll text, a.byteLength ∈ m := by
  obtain ⟨v, hv⟩ := Option.isSome_iff_exists.mp (isSome_firstOf? (z := z) hw)
  obtain ⟨z', hz'⟩ := exists_of_firstOf? hv
  have hm : MatchesAt p text ⟨a.byteLength, (a ++ v).byteLength⟩ := by
    refine (matchesAt_iff_of_spellings hp).mpr ⟨a, v, z', ⟨?_, rfl⟩, hz' ▸ hv⟩
    rw [htext, List.append_assoc, hz', List.append_assoc]
  rcases mem_or_exists_of_matchesAt hn hm with hm | ⟨m, hm, hlt, hgt⟩
  · exact ⟨_, hm, Nat.le_refl _, start_lt_stop_of_mem_findAll hn hm⟩
  · exact ⟨m, hm, Nat.le_of_lt hlt, hgt⟩

/-- **A match that holds a character** is a text of the list that does, and it starts at a free
place. -/
theorem exists_spelling_of_mem (hn : p.nullable = false) (hp : p.spellings = some ws) {n : Nat}
    {x : Char} (hr : r ∈ p.findAll text) (hb : n ∈ r) (hat : text.CharAt n a x z) :
    ∃ a' u v z', a = a' ++ u ∧ z = v ++ z' ∧ firstOf? ws (u ++ x :: z) = some (u ++ x :: v) ∧
      r.start = a'.byteLength ∧ p.FreeAt text a'.byteLength := by
  obtain ⟨hm, hfree⟩ := (mem_findAll_iff hn).mp hr
  obtain ⟨a', w, z', hparts, hw⟩ := (matchesAt_iff_of_spellings hp).mp hm
  obtain ⟨u, v, rfl, rfl, rfl⟩ := hat.exists_split hparts hb
  have hstart : r.start = a'.byteLength := by rw [hparts.range_eq]
  refine ⟨a', u, v, z', rfl, rfl, ?_, hstart, hstart ▸ hfree⟩
  rwa [List.append_assoc] at hw

/-- **When a place is free**, if no text of the list has more than two characters: the characters on
both sides must not be a text that is preferred there. -/
theorem freeAt_of_pairs (hn : p.nullable = false) (hp : p.spellings = some ws)
    (hshort : ∀ w ∈ ws, w.length ≤ 2) (htext : text = a ++ b)
    (hapart : ∀ c ∈ a.getLast?, ∀ d ∈ b.head?, firstOf? ws (c :: b) ≠ some [c, d]) :
    p.FreeAt text a.byteLength := by
  intro r hr hlt
  by_contra hgt
  obtain ⟨a', w, z, hparts, hw⟩ :=
    (matchesAt_iff_of_spellings hp).mp ((mem_findAll_iff hn).mp hr).1
  have htext' : a' ++ (w ++ z) = a ++ b := by rw [← List.append_assoc, ← hparts.text_eq, htext]
  rw [hparts.range_eq] at hlt hgt
  simp only [Text.byteLength_append] at hgt
  obtain ⟨u, rfl, hrest⟩ := Text.exists_middle htext' (Nat.le_of_lt hlt)
  rw [Text.byteLength_append] at hlt hgt
  obtain ⟨v, rfl, rfl⟩ := Text.exists_middle hrest.symm (by omega)
  -- both sides of the place hold exactly one character of the text
  have hlen := hshort _ (mem_of_firstOf? hw)
  rw [List.length_append] at hlen
  cases u with
  | nil => simp at hlt
  | cons c u =>
    cases v with
    | nil => simp at hgt
    | cons d v =>
      simp only [List.length_cons] at hlen
      obtain rfl := List.eq_nil_of_length_eq_zero (show u.length = 0 by omega)
      obtain rfl := List.eq_nil_of_length_eq_zero (show v.length = 0 by omega)
      refine hapart c (by simp) d rfl ?_
      exact hw

/-- **Which characters the matches hold**, if no text of the list has more than two: a character
alone, the first or the second of two, where the place before them is free. -/
theorem exists_mem_findAll_iff_of_pairs (hn : p.nullable = false) (hp : p.spellings = some ws)
    (hshort : ∀ w ∈ ws, w.length ≤ 2) {n : Nat} {x : Char} (hat : text.CharAt n a x z) :
    (∃ m ∈ p.findAll text, n ∈ m) ↔
      (firstOf? ws (x :: z) = some [x] ∧ p.FreeAt text a.byteLength) ∨
      (∃ y z', z = y :: z' ∧ firstOf? ws (x :: z) = some [x, y] ∧ p.FreeAt text a.byteLength) ∨
      ∃ (a' : Text) (y : Char), a = a' ++ [y] ∧ firstOf? ws (y :: x :: z) = some [y, x] ∧
        p.FreeAt text a'.byteLength := by
  constructor
  · rintro ⟨m, hm, hb⟩
    obtain ⟨a', u, v, z', rfl, rfl, hfirst, -, hfree⟩ := exists_spelling_of_mem hn hp hm hb hat
    have hlen := hshort _ (mem_of_firstOf? hfirst)
    rw [List.length_append, List.length_cons] at hlen
    cases u with
    | nil =>
      rw [List.append_nil]
      cases v with
      | nil => exact Or.inl ⟨hfirst, hfree⟩
      | cons y v =>
        simp only [List.length_nil, List.length_cons] at hlen
        obtain rfl := List.eq_nil_of_length_eq_zero (show v.length = 0 by omega)
        exact Or.inr (Or.inl ⟨y, z', rfl, hfirst, hfree⟩)
    | cons y u =>
      simp only [List.length_cons] at hlen
      obtain rfl := List.eq_nil_of_length_eq_zero (show u.length = 0 by omega)
      obtain rfl := List.eq_nil_of_length_eq_zero (show v.length = 0 by omega)
      exact Or.inr (Or.inr ⟨a', y, rfl, hfirst, hfree⟩)
  · have hheld : ∀ {a' u v z' : Text}, a = a' ++ u → z = v ++ z' →
        firstOf? ws (u ++ x :: z) = some (u ++ x :: v) → p.FreeAt text a'.byteLength →
        ∃ m ∈ p.findAll text, n ∈ m := by
      rintro a' u v z' rfl rfl hfirst hfree
      have htext : text = a' ++ (u ++ x :: v ++ z') := by rw [hat.text_eq]; simp
      refine ⟨_, mem_findAll_of_firstOf? hn hp hfree htext (by simpa using hfirst), ?_⟩
      exact hat.mem_of_split ⟨by rw [htext, List.append_assoc a'], rfl⟩
    rintro (⟨hfirst, hfree⟩ | ⟨y, z', rfl, hfirst, hfree⟩ | ⟨a', y, rfl, hfirst, hfree⟩)
    · exact hheld (u := []) (v := []) (by simp) rfl hfirst hfree
    · exact hheld (u := []) (v := [y]) (by simp) rfl hfirst hfree
    · exact hheld (u := [y]) (v := []) rfl rfl hfirst hfree

end FaustLens.Pattern
