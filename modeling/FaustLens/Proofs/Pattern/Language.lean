import FaustLens.Proofs.Pattern.Contents
import FaustLens.Proofs.Pattern.Preferred

/-!
# The language of a pattern

A pattern without assertions has a language: from any place it may match the texts of the language
that follow, whatever stands before the place (`Reads`). The language of a sequence, an option or a
run is made from those of its parts. A pattern between two word boundaries matches the texts of a
language that no word character touches (`Detached`), if all of them begin and end with word
characters (`Solid`) and no two of them can stand at one place (`Solid.unique`).

Results:
* `Reads.cat`, `Reads.optional`, `reads_run`: languages from the languages of the parts.
* `matchesAt_iff_of_bounded`: where a pattern between word boundaries matches.
-/

namespace FaustLens

theorem Cursor.over_between_iff {P : Text → Prop} {a b : Text} {e : Cursor} :
    (between a b).Over P e ↔ ∃ w z, P w ∧ b = w ++ z ∧ e = between (a ++ w) z := by
  constructor
  · rintro ⟨w, hw, hrest, he⟩
    rw [skip_between] at he
    exact ⟨w, e.rest, hw, hrest, he⟩
  · rintro ⟨w, z, hw, rfl, rfl⟩
    exact ⟨w, hw, rfl, (skip_between a w z (w ++ z)).symm⟩

/-- A word character stands on exactly one side of the place. -/
def Cursor.AtEdge (cur : Cursor) : Prop :=
  cur.prev.any Unicode.isWord ≠ cur.rest.head?.any Unicode.isWord

instance (cur : Cursor) : Decidable cur.AtEdge := inferInstanceAs (Decidable (_ ≠ _))

/-- The range of the text holds `w`, with `a` before it and `z` behind it, and no word character is
next to it. -/
structure Detached (text : Text) (r : ByteRange) (a w z : Text) : Prop extends
    Text.Parts text r a w z where
  start : ∀ c ∈ a.getLast?, Unicode.isWord c = false
  stop : ∀ c ∈ z.head?, Unicode.isWord c = false

namespace Pattern

open Cursor (Over between)

variable {size : Nat} {p q : Pattern} {P Q : Text → Prop}

/-! ## Languages -/

/-- From any place, the pattern may match the texts of the language that follow. -/
def Reads (size : Nat) (p : Pattern) (P : Text → Prop) : Prop :=
  ∀ cur e : Cursor, cur.rest.length ≤ size → (e ∈ ends size p cur ↔ cur.Over P e)

theorem Reads.congr (hp : Reads size p P) (h : ∀ w, P w ↔ Q w) : Reads size p Q := by
  intro cur e hsize
  rw [hp cur e hsize]
  exact ⟨Over.mono fun w => (h w).mp, Over.mono fun w => (h w).mpr⟩

theorem reads_one (set : CharSet) :
    Reads size (one set) fun w => ∃ c, w = [c] ∧ set.contains c = true := by
  intro cur e _
  constructor
  · intro h
    obtain ⟨c, hc, hw⟩ := exists_of_mem_ends_one h
    exact ⟨[c], ⟨c, rfl, hc⟩, hw⟩
  · rintro ⟨_, ⟨c, rfl, hc⟩, hrest, he⟩
    have hrest : cur.rest = c :: e.rest := hrest
    rw [ends, hrest]
    simp only [hc, if_true, List.mem_singleton]
    exact he

theorem reads_single (x : Char) : Reads size (one (.single x)) (· = [x]) := by
  refine (reads_one _).congr fun w => ?_
  constructor
  · rintro ⟨c, rfl, hc⟩
    rw [CharSet.contains_single, beq_iff_eq] at hc
    rw [hc]
  · rintro rfl
    exact ⟨x, rfl, by rw [CharSet.contains_single, beq_self_eq_true]⟩

theorem Reads.cat (hp : Reads size p P) (hq : Reads size q Q) :
    Reads size (cat p q) fun w => ∃ v u, w = v ++ u ∧ P v ∧ Q u := by
  intro cur e hsize
  rw [mem_ends_cat_iff]
  constructor
  · rintro ⟨d, hd, he⟩
    have hdsize := length_le_of_mem_ends hsize hd
    exact ((hp cur d hsize).mp hd).cat ((hq d e hdsize).mp he)
  · rintro ⟨_, ⟨v, u, rfl, hv, hu⟩, hrest, he⟩
    have hvu : cur.Over P (cur.skip v (u ++ e.rest)) :=
      ⟨v, hv, by rw [hrest, List.append_assoc]; rfl, rfl⟩
    have hd := (hp cur _ hsize).mpr hvu
    refine ⟨_, hd, (hq _ e (length_le_of_mem_ends hsize hd)).mpr ⟨u, hu, rfl, ?_⟩⟩
    rw [Cursor.skip_skip]
    exact he

theorem Reads.optional (hp : Reads size p P) (hn : p.nullable = false) (greedy : Bool) :
    Reads size (repeated p 0 (some 1) greedy) fun w => w = [] ∨ P w := by
  intro cur e hsize
  rw [mem_ends_optional_iff hn hsize, hp cur e hsize]
  constructor
  · rintro (rfl | h)
    · exact Cursor.over_refl (Or.inl rfl) e
    · exact h.mono fun _ => Or.inr
  · rintro ⟨w, rfl | hw, hrest, he⟩
    · rw [List.nil_append] at hrest
      rw [← hrest, Cursor.skip_nil] at he
      exact Or.inl he
    · exact Or.inr ⟨w, hw, hrest, he⟩

theorem mem_runEnds_iff (set : CharSet) {e : Cursor} :
    ∀ (rest : Text) (prev : Option Char) (offset : Nat),
      e ∈ (⟨prev, offset, rest⟩ :: runEnds set ⟨prev, offset, rest⟩ : List Cursor) ↔
        (⟨prev, offset, rest⟩ : Cursor).Over (fun w => ∀ c ∈ w, set.contains c = true) e
  | [], prev, offset => by
    have hrun : runEnds set ⟨prev, offset, []⟩ = [] := rfl
    rw [hrun, List.mem_singleton]
    constructor
    · rintro rfl
      exact Cursor.over_refl (by simp) _
    · rintro ⟨w, -, hrest, he⟩
      obtain ⟨rfl, hnil⟩ := List.append_eq_nil_iff.mp hrest.symm
      rw [he, hnil]
      rfl
  | c :: rest, prev, offset => by
    have hrun : runEnds set ⟨prev, offset, c :: rest⟩ =
        if set.contains c then
          ⟨some c, offset + c.utf8Size, rest⟩ :: runEnds set ⟨some c, offset + c.utf8Size, rest⟩
        else [] := rfl
    have hskip : ∀ w z, (⟨prev, offset, c :: rest⟩ : Cursor).skip (c :: w) z =
        (⟨some c, offset + c.utf8Size, rest⟩ : Cursor).skip w z := fun w z =>
      (Cursor.skip_skip ⟨prev, offset, c :: rest⟩ [c] w z rest).symm
    rw [List.mem_cons, hrun]
    constructor
    · rintro (rfl | h)
      · exact Cursor.over_refl (by simp) _
      · split at h
        · rename_i hc
          obtain ⟨w, hw, hrest, he⟩ := (mem_runEnds_iff set rest _ _).mp h
          have hrest : rest = w ++ e.rest := hrest
          refine ⟨c :: w, List.forall_mem_cons.mpr ⟨hc, hw⟩, congrArg (c :: ·) hrest, ?_⟩
          rw [hskip]
          exact he
        · exact absurd h List.not_mem_nil
    · rintro ⟨w, hw, hrest, he⟩
      cases w with
      | nil =>
        left
        rw [he, ← (show c :: rest = e.rest from hrest)]
        rfl
      | cons d w =>
        obtain ⟨rfl, htail⟩ := List.cons.inj hrest
        obtain ⟨hc, hw⟩ := List.forall_mem_cons.mp hw
        rw [hskip] at he
        rw [if_pos hc]
        exact Or.inr ((mem_runEnds_iff set rest _ _).mpr ⟨w, hw, htail, he⟩)

/-- A greedy run of a character set reads the texts of members. -/
theorem reads_run (set : CharSet) : Reads size (repeated (one set) 1 none true) fun w =>
    (∀ c ∈ w, set.contains c = true) ∧ w ≠ [] := by
  intro cur e hsize
  constructor
  · intro h
    exact (over_of_mem_ends_run hsize h).mono fun _ hw => ⟨hw.1, hw.2 (by simp)⟩
  · rintro ⟨w, ⟨hw, hne⟩, hrest, he⟩
    obtain ⟨c, w, rfl⟩ := List.exists_cons_of_ne_nil hne
    obtain ⟨hc, hw⟩ := List.forall_mem_cons.mp hw
    rw [ends_run_one]
    have hone : cur.skip [c] (w ++ e.rest) ∈ ends size (one set) cur :=
      (reads_one set _ _ hsize).mpr ⟨[c], ⟨c, rfl, hc⟩, hrest, rfl⟩
    refine List.mem_flatMap.mpr ⟨_, hone, ?_⟩
    rw [ends_run, List.mem_reverse]
    refine (mem_runEnds_iff set _ _ _).mpr ⟨w, hw, rfl, ?_⟩
    exact he.trans (Cursor.skip_skip cur [c] w e.rest (w ++ e.rest)).symm

/-! ## Between word boundaries -/

/-- The assertion of a word boundary. -/
def boundary : Pattern := assert (.wordEdge .boundary false)

theorem ends_boundary (size : Nat) (cur : Cursor) :
    ends size boundary cur = if cur.AtEdge then [cur] else [] := by
  rw [boundary, ends]
  exact if_congr bne_iff_ne rfl rfl

theorem mem_ends_boundary {cur e : Cursor} :
    e ∈ ends size boundary cur ↔ e = cur ∧ cur.AtEdge := by
  rw [ends_boundary]
  split
  · rename_i h
    simp [h]
  · rename_i h
    simp [h]

theorem findSome?_ends_boundary {β : Type} (cur : Cursor) (k : Cursor → Option β) :
    (ends size boundary cur).findSome? k = if cur.AtEdge then k cur else none := by
  rw [ends_boundary]
  split
  · exact List.findSome?_singleton
  · rfl

/-- The pattern reads the texts of the language between two word boundaries. -/
def Bounded (size : Nat) (p : Pattern) (P : Text → Prop) : Prop :=
  ∀ cur e : Cursor, cur.rest.length ≤ size → (e ∈ ends size p cur ↔
    cur.AtEdge ∧ cur.Over P e ∧ e.AtEdge)

theorem Reads.bounded (hp : Reads size p P) :
    Bounded size (.cat (.cat boundary p) boundary) P := by
  intro cur e hsize
  simp only [mem_ends_cat_iff, mem_ends_boundary]
  constructor
  · rintro ⟨_, ⟨_, ⟨rfl, hfront⟩, hd⟩, rfl, hback⟩
    exact ⟨hfront, (hp _ _ hsize).mp hd, hback⟩
  · rintro ⟨hfront, hover, hback⟩
    exact ⟨e, ⟨cur, ⟨rfl, hfront⟩, (hp _ _ hsize).mpr hover⟩, rfl, hback⟩

/-- The texts of the language begin and end with word characters, and no two of them can stand at
one place, each without a word character behind it. -/
structure Solid (P : Text → Prop) : Prop where
  head : ∀ {w}, P w → ∃ c ∈ w.head?, Unicode.isWord c = true
  last : ∀ {w}, P w → ∃ c ∈ w.getLast?, Unicode.isWord c = true
  unique : ∀ {v w y z : Text}, P v → P w → (∀ c ∈ y.head?, Unicode.isWord c = false) →
    (∀ c ∈ z.head?, Unicode.isWord c = false) → v ++ y = w ++ z → v = w

/-- There is a boundary before a text that begins with a word character iff no word character stands
before it. -/
theorem atEdge_before {a w z : Text} (hw : ∃ c ∈ w.head?, Unicode.isWord c = true) :
    (between a (w ++ z)).AtEdge ↔ ∀ c ∈ a.getLast?, Unicode.isWord c = false := by
  obtain ⟨c, hc, hword⟩ := hw
  have hhead : (w ++ z).head? = some c := by rw [List.head?_append, Option.mem_def.mp hc]; rfl
  unfold Cursor.AtEdge
  simp only [between, hhead, Option.any_some, hword]
  cases a.getLast? <;> simp

/-- There is a boundary behind a text that ends with a word character iff no word character
follows. -/
theorem atEdge_behind {a w z : Text} (hw : ∃ c ∈ w.getLast?, Unicode.isWord c = true) :
    (between (a ++ w) z).AtEdge ↔ ∀ c ∈ z.head?, Unicode.isWord c = false := by
  obtain ⟨c, hc, hword⟩ := hw
  have hlast : (a ++ w).getLast? = some c := by
    rw [List.getLast?_append, Option.mem_def.mp hc]
    rfl
  unfold Cursor.AtEdge
  simp only [between, hlast, Option.any_some, hword]
  cases z.head? <;> simp

/-- If all ends of a pattern are one, this one is preferred. -/
theorem preferred_eq_some_iff_of_unique {cur e : Cursor}
    (h : ∀ d ∈ ends size p cur, ∀ d' ∈ ends size p cur, d = d') :
    preferred size p cur = some e ↔ e ∈ ends size p cur := by
  constructor
  · exact mem_of_preferred
  · intro he
    obtain ⟨d, hd⟩ : ∃ d, preferred size p cur = some d :=
      Option.isSome_iff_exists.mp (List.isSome_head?.mpr (List.ne_nil_of_mem he))
    rw [hd, h d (mem_of_preferred hd) e he]

/-- **Where a pattern between word boundaries matches**: at the texts of its language that no word
character touches. -/
theorem matchesAt_iff_of_bounded (hp : ∀ size, Bounded size p P) (hP : Solid P) {text : Text}
    {r : ByteRange} : MatchesAt p text r ↔ ∃ a w z, Detached text r a w z ∧ P w := by
  have hends : ∀ {size : Nat} {a b : Text} {e : Cursor}, b.length ≤ size →
      (e ∈ ends size p (between a b) ↔ ∃ w z, b = w ++ z ∧ P w ∧
        (∀ c ∈ a.getLast?, Unicode.isWord c = false) ∧
        (∀ c ∈ z.head?, Unicode.isWord c = false) ∧ e = between (a ++ w) z) := by
    intro size a b e hsize
    rw [hp size _ _ hsize, Cursor.over_between_iff]
    constructor
    · rintro ⟨hfront, ⟨w, z, hw, rfl, rfl⟩, hback⟩
      exact ⟨w, z, rfl, hw, (atEdge_before (hP.head hw)).mp hfront,
        (atEdge_behind (hP.last hw)).mp hback, rfl⟩
    · rintro ⟨w, z, rfl, hw, hstart, hstop, rfl⟩
      exact ⟨(atEdge_before (hP.head hw)).mpr hstart, ⟨w, z, hw, rfl, rfl⟩,
        (atEdge_behind (hP.last hw)).mpr hstop⟩
  have hunique : ∀ {size : Nat} {a b : Text}, b.length ≤ size →
      ∀ d ∈ ends size p (between a b), ∀ d' ∈ ends size p (between a b), d = d' := by
    intro size a b hsize d hd d' hd'
    obtain ⟨w, z, rfl, hw, -, hstop, rfl⟩ := (hends hsize).mp hd
    obtain ⟨w', z', htext, hw', -, hstop', rfl⟩ := (hends hsize).mp hd'
    obtain rfl := hP.unique hw hw' hstop hstop' htext
    rw [List.append_cancel_left htext]
  have hsize : ∀ a b : Text, b.length ≤ (a ++ b).length := fun a b =>
    (List.suffix_append a b).length_le
  constructor
  · rintro ⟨a, b, e, rfl, he, rfl⟩
    obtain ⟨w, z, rfl, hw, hstart, hstop, rfl⟩ := (hends (hsize a b)).mp (mem_of_preferred he)
    exact ⟨a, w, z, ⟨⟨(List.append_assoc a w z).symm, rfl⟩, hstart, hstop⟩, hw⟩
  · rintro ⟨a, w, z, ⟨⟨rfl, rfl⟩, hstart, hstop⟩, hw⟩
    rw [List.append_assoc]
    exact ⟨a, w ++ z, _, rfl, (preferred_eq_some_iff_of_unique (hunique (hsize a _))).mpr
      ((hends (hsize a _)).mpr ⟨w, z, rfl, hw, hstart, hstop, rfl⟩), rfl⟩

end Pattern

end FaustLens
