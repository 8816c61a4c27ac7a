import FaustLens.Proofs.Pattern.FindAll

/-!
# The preferred end, part by part

What is found first among the ends of a pattern is told by its parts: behind the first part the
search goes on with the second. For patterns that are written out this gives the preferred end step
by step.

Results:
* `findSome?_ends_one`, `findSome?_ends_cat`, `findSome?_ends_alt`: what is found first.
* `preferred_run`, `exists_findSome?_ends_run`: a greedy run of a character set takes all members
  that follow, also if something comes behind it that cannot begin with a member.
* `matchesAt_iff_of_close`: where a pattern matches that begins with a mark.
-/

namespace FaustLens

theorem CharSet.contains_compl_single (x c : Char) :
    (compl (single x)).contains c = true ↔ c ≠ x := by
  have hset : (compl (single x)).contains c = !(single x).contains c := rfl
  rw [hset, contains_single, Bool.not_eq_true', beq_eq_false_iff_ne]
  exact ne_comm

namespace Pattern

variable {size : Nat} {cur : Cursor} {β : Type}

theorem preferred_eq_findSome? (size : Nat) (p : Pattern) (cur : Cursor) :
    preferred size p cur = (ends size p cur).findSome? some := by
  unfold preferred
  cases ends size p cur <;> rfl

/-- The offset of the preferred end is the first offset among the ends. -/
theorem offset_preferred_eq_findSome? (size : Nat) (p : Pattern) (cur : Cursor) :
    (preferred size p cur).map Cursor.offset =
      (ends size p cur).findSome? fun e => some e.offset := by
  unfold preferred
  cases ends size p cur <;> rfl

theorem findSome?_ends_one (set : CharSet) (k : Cursor → Option β) :
    (ends size (one set) cur).findSome? k =
      match cur.rest with
      | c :: rest => if set.contains c then k (cur.past c rest) else none
      | [] => none := by
  rw [ends]
  cases cur.rest with
  | nil => rfl
  | cons c rest =>
    simp only
    split
    · rw [List.findSome?_cons]
      cases k (cur.past c rest) <;> rfl
    · rfl

/-- The offset behind the character that a pattern of one character asks for. -/
theorem findSome?_ends_single (size : Nat) (x : Char) (cur : Cursor) :
    (ends size (one (.single x)) cur).findSome? (fun e => some e.offset) =
      if cur.rest.head? = some x then some (cur.offset + x.utf8Size) else none := by
  rw [findSome?_ends_one]
  cases cur.rest with
  | nil => rfl
  | cons c rest =>
    simp only [CharSet.contains_single, List.head?_cons, Option.some_inj, beq_iff_eq]
    by_cases hc : c = x
    · subst hc
      simp [Cursor.past]
    · rw [if_neg hc, if_neg (Ne.symm hc)]

theorem findSome?_ends_cat (a b : Pattern) (k : Cursor → Option β) :
    (ends size (cat a b) cur).findSome? k =
      (ends size a cur).findSome? fun d => (ends size b d).findSome? k := by
  rw [sameOrder_cat size a b cur β k, SameOrder.findSome?_flatMap]

theorem findSome?_ends_alt (a b : Pattern) (k : Cursor → Option β) :
    (ends size (alt a b) cur).findSome? k =
      ((ends size a cur).findSome? k).or ((ends size b cur).findSome? k) := by
  rw [sameOrder_alt size a b cur β k, List.findSome?_append]

/-- A run of a character set ends, at the latest, behind the members that follow. -/
theorem getLast?_runEnds (set : CharSet) : ∀ (rest : Text) (prev : Option Char) (offset : Nat),
    (⟨prev, offset, rest⟩ :: runEnds set ⟨prev, offset, rest⟩).getLast? =
      some ((⟨prev, offset, rest⟩ : Cursor).skip (rest.takeWhile set.contains)
        (rest.dropWhile set.contains))
  | [], _, _ => rfl
  | c :: rest, prev, offset => by
    have hrun : runEnds set ⟨prev, offset, c :: rest⟩ =
        if set.contains c then
          ⟨some c, offset + c.utf8Size, rest⟩ :: runEnds set ⟨some c, offset + c.utf8Size, rest⟩
        else [] := rfl
    rw [hrun, List.takeWhile_cons, List.dropWhile_cons]
    split
    · rw [List.getLast?_cons_cons, getLast?_runEnds set rest]
      exact congrArg some (Cursor.skip_skip ⟨prev, offset, c :: rest⟩ [c] _ _ rest)
    · rfl

/-- The ends of a greedy run, the longest first. -/
theorem ends_run (size : Nat) (set : CharSet) (cur : Cursor) :
    ends size (repeated (one set) 0 none true) cur = (cur :: runEnds set cur).reverse := by
  rw [ends_repeated_of_not_nullable rfl, furtherEnds_one]
  simp [iterate]

/-- The same if at least one member is needed. -/
theorem ends_run_one (size : Nat) (set : CharSet) (cur : Cursor) :
    ends size (repeated (one set) 1 none true) cur =
      (ends size (one set) cur).flatMap (ends size (repeated (one set) 0 none true)) := by
  have hdistinct : distinct (ends size (one set) cur) = ends size (one set) cur := by
    rw [ends]
    cases cur.rest with
    | nil => rfl
    | cons c rest =>
      simp only
      split <;> simp [distinct, distinctFrom]
  have hrun : ends size (repeated (one set) 0 none true) = fun c => (c :: runEnds set c).reverse :=
    funext fun c => ends_run size set c
  rw [ends_repeated_of_not_nullable rfl, furtherEnds_one, hrun]
  simp [iterate, hdistinct]

/-- **A greedy run gives nothing back** if what comes behind it cannot begin with a member of the
set: it takes all members that follow. -/
theorem exists_findSome?_ends_run (size : Nat) {set : CharSet} {k : Cursor → Option β} {m : Nat}
    (hk : ∀ (c : Cursor) (x : Char), c.rest.length ≤ m → c.rest.head? = some x →
      set.contains x = true → k c = none) :
    ∀ (rest : Text) (prev : Option Char) (offset : Nat), rest.length ≤ m →
      ∃ w z : Text, rest = w ++ z ∧ (∀ c ∈ w, set.contains c = true) ∧
        (∀ c ∈ z.head?, set.contains c = false) ∧
        (ends size (repeated (one set) 0 none true) ⟨prev, offset, rest⟩).findSome? k =
          k ((⟨prev, offset, rest⟩ : Cursor).skip w z)
  | [], prev, offset, _ => by
    refine ⟨[], [], rfl, by simp, by simp, ?_⟩
    rw [ends_run]
    exact List.findSome?_singleton
  | c :: rest, prev, offset, hm => by
    have hrun : runEnds set ⟨prev, offset, c :: rest⟩ =
        if set.contains c then
          ⟨some c, offset + c.utf8Size, rest⟩ :: runEnds set ⟨some c, offset + c.utf8Size, rest⟩
        else [] := rfl
    cases hc : set.contains c with
    | true =>
      have hstop : k ⟨prev, offset, c :: rest⟩ = none := hk _ c hm rfl hc
      obtain ⟨w, z, hrest, hw, hz, htail⟩ :=
        exists_findSome?_ends_run size hk rest (some c) (offset + c.utf8Size) (Nat.le_of_succ_le hm)
      refine ⟨c :: w, z, by rw [hrest, List.cons_append], ?_, hz, ?_⟩
      · exact List.forall_mem_cons.mpr ⟨hc, hw⟩
      · rw [ends_run] at htail
        rw [ends_run, hrun, if_pos hc, List.reverse_cons, List.findSome?_append, htail,
          List.findSome?_singleton, hstop, Option.or_none]
        exact congrArg k (Cursor.skip_skip ⟨prev, offset, c :: rest⟩ [c] w z rest)
    | false =>
      refine ⟨[], c :: rest, rfl, by simp, by simpa using hc, ?_⟩
      rw [ends_run, hrun, hc]
      exact List.findSome?_singleton

/-- **A greedy run takes all members that follow.** -/
theorem preferred_run (size : Nat) (set : CharSet) (cur : Cursor) :
    preferred size (repeated (one set) 0 none true) cur =
      some (cur.skip (cur.rest.takeWhile set.contains) (cur.rest.dropWhile set.contains)) := by
  unfold preferred
  rw [ends_run, List.head?_reverse]
  exact getLast?_runEnds set cur.rest cur.prev cur.offset

/-! ## Patterns that begin with a mark -/

/-- **Where a pattern matches that begins with a mark**, if `close` tells how far its matches go
behind the mark. -/
theorem matchesAt_iff_of_close {p : Pattern} (mark : Text) {close : Text → Option Nat}
    (hbegins : ∀ (size : Nat) (a b : Text) (e : Cursor),
      preferred size p (Cursor.between a b) = some e → ∃ rest, b = mark ++ rest)
    (hclose : ∀ (size : Nat) (a rest : Text), rest.length ≤ size →
      (preferred size p (Cursor.between a (mark ++ rest))).map Cursor.offset =
        (close rest).map (a.byteLength + mark.byteLength + ·)) {text : Text} {r : ByteRange} :
    MatchesAt p text r ↔ ∃ a rest n, text = a ++ (mark ++ rest) ∧ close rest = some n ∧
      r = ⟨a.byteLength, a.byteLength + mark.byteLength + n⟩ := by
  have hsize : ∀ a rest : Text, rest.length ≤ (a ++ (mark ++ rest)).length := fun a rest =>
    ((List.suffix_append mark rest).trans (List.suffix_append a _)).length_le
  constructor
  · rintro ⟨a, b, e, rfl, he, rfl⟩
    obtain ⟨rest, rfl⟩ := hbegins _ a b e he
    have hoffset := hclose _ a rest (hsize a rest)
    rw [he, Option.map_some] at hoffset
    obtain ⟨n, hn, hoff⟩ := Option.map_eq_some_iff.mp hoffset.symm
    exact ⟨a, rest, n, rfl, hn, by rw [hoff]⟩
  · rintro ⟨a, rest, n, rfl, hn, rfl⟩
    have hoffset := hclose _ a rest (hsize a rest)
    rw [hn, Option.map_some] at hoffset
    obtain ⟨e, he, hoff⟩ := Option.map_eq_some_iff.mp hoffset
    exact ⟨a, _, e, rfl, he, by rw [hoff]⟩

end Pattern

end FaustLens
