import FaustLens.Proofs.Faust.Rules
import FaustLens.Proofs.Pattern.Append
import FaustLens.Proofs.Pattern.Preferred

/-!
# Block comments

The pattern of block comments (`block_comment` in `faust_rules`, `syntax::faust`) is written without
lazy repetition: a run without stars, a run of stars, and again, as long as the next character is
neither a slash nor a star. Nothing in it can give a character back, because what comes behind a run
cannot begin with a member of it. So it stops at the first `*/` behind the opening mark
(`commentEnd`), and if there is none it does not match.

Results:
* `offset_preferred_blockPattern`: the pattern prefers the first closing mark.
* `matchesAt_blockPattern_iff`: where the pattern matches.
* `splitsAt_blockPattern`: block comments on both sides of a line break.
-/

namespace FaustLens.Faust

open Cursor (between)
open Pattern

/-! ## The first closing mark -/

/-- The number of bytes of the text behind an opening mark up to the first `*/` and including it, if
there is one. -/
def commentEnd : Text → Option Nat
  | [] => none
  | [_] => none
  | c :: d :: rest =>
    if c = '*' ∧ d = '/' then some 2 else (commentEnd (d :: rest)).map (c.utf8Size + ·)

/-- The same for the text behind a star: a slash closes the comment at once. -/
def behindStar (rest : Text) : Option Nat :=
  if rest.head? = some '/' then some 1 else commentEnd rest

theorem commentEnd_cons {c : Char} (hc : c ≠ '*') (rest : Text) :
    commentEnd (c :: rest) = (commentEnd rest).map (c.utf8Size + ·) := by
  cases rest with
  | nil => rfl
  | cons d rest => simp [commentEnd, hc]

theorem commentEnd_star (rest : Text) :
    commentEnd ('*' :: rest) = (behindStar rest).map (1 + ·) := by
  have hstar : '*'.utf8Size = 1 := by decide
  cases rest with
  | nil => rfl
  | cons d rest =>
    by_cases hd : d = '/' <;> simp [commentEnd, behindStar, hd, hstar]

/-- Characters before the first star are passed over. -/
theorem commentEnd_append {w : Text} (hw : '*' ∉ w) (rest : Text) :
    commentEnd (w ++ rest) = (commentEnd rest).map (w.byteLength + ·) := by
  induction w with
  | nil => simp
  | cons c w ih =>
    have hc : c ≠ '*' := fun h => hw (h ▸ List.mem_cons_self)
    rw [List.cons_append, commentEnd_cons hc, ih fun h => hw (List.mem_cons_of_mem _ h)]
    simp only [Option.map_map, Function.comp_def, Text.byteLength_cons, Nat.add_assoc]

/-- All but the last star of a run are passed over. -/
theorem behindStar_append {w : Text} (hw : ∀ c ∈ w, c = '*') (rest : Text) :
    behindStar (w ++ rest) = (behindStar rest).map (w.byteLength + ·) := by
  have hstar : '*'.utf8Size = 1 := by decide
  induction w with
  | nil => simp
  | cons c w ih =>
    obtain rfl := hw c List.mem_cons_self
    have hslash : (some '*' : Option Char) ≠ some '/' := by decide
    rw [List.cons_append, behindStar, List.head?_cons, if_neg hslash, commentEnd_star,
      ih fun c hc => hw c (List.mem_cons_of_mem _ hc)]
    simp only [Option.map_map, Function.comp_def, Text.byteLength_cons, hstar, Nat.add_assoc]

/-- Where there is a closing mark, there is a first one. -/
theorem exists_commentEnd (y : Text) : ∀ x : Text, ∃ n, commentEnd (x ++ '*' :: '/' :: y) = some n
  | [] => ⟨2, rfl⟩
  | c :: x => by
    obtain ⟨n, hn⟩ := exists_commentEnd y x
    by_cases hc : c = '*'
    · rw [hc, List.cons_append, commentEnd_star, behindStar, hn]
      split
      · exact ⟨_, rfl⟩
      · exact ⟨_, rfl⟩
    · rw [List.cons_append, commentEnd_cons hc, hn]
      exact ⟨_, rfl⟩

/-- What stands behind the first closing mark does not matter. -/
theorem commentEnd_append_of_some (b : Text) : ∀ {rest : Text} {n : Nat}, commentEnd rest = some n →
    commentEnd (rest ++ b) = some n
  | [], _, h => absurd h (by simp [commentEnd])
  | [_], _, h => absurd h (by simp [commentEnd])
  | c :: d :: rest, n, h => by
    rw [List.cons_append, List.cons_append, commentEnd]
    rw [commentEnd] at h
    split at h
    · rename_i hmark
      rw [if_pos hmark]
      exact h
    · rename_i hmark
      obtain ⟨m, hm, rfl⟩ := Option.map_eq_some_iff.mp h
      have htail := commentEnd_append_of_some b hm
      rw [List.cons_append] at htail
      rw [if_neg hmark, htail, Option.map_some]

/-- The first closing mark is a closing mark. -/
theorem exists_of_commentEnd : ∀ {rest : Text} {n : Nat}, commentEnd rest = some n →
    ∃ x y : Text, rest = x ++ '*' :: '/' :: y ∧ n = x.byteLength + 2
  | [], _, h => absurd h (by simp [commentEnd])
  | [_], _, h => absurd h (by simp [commentEnd])
  | c :: d :: rest, n, h => by
    rw [commentEnd] at h
    split at h
    · rename_i hmark
      obtain ⟨rfl, rfl⟩ := hmark
      exact ⟨[], rest, rfl, (Option.some.inj h).symm⟩
    · obtain ⟨m, hm, rfl⟩ := Option.map_eq_some_iff.mp h
      obtain ⟨x, y, hxy, rfl⟩ := exists_of_commentEnd hm
      refine ⟨c :: x, y, by rw [hxy, List.cons_append], ?_⟩
      rw [Text.byteLength_cons, Nat.add_assoc]

/-! ## The parts of the pattern -/

/-- A run without stars. -/
def starless : Pattern := repeated (one (.compl (.single '*'))) 0 none true

/-- A run of stars. -/
def stars : Pattern := repeated (one (.single '*')) 1 none true

/-- A character that does not close the comment, behind stars, and what stands up to the next
stars. -/
def innerPart : Pattern :=
  cat (cat (one (.compl (.union (.single '/') (.single '*')))) starless) stars

/-- The offset behind a slash, if one follows. -/
def behindSlash (cur : Cursor) : Option Nat :=
  if cur.rest.head? = some '/' then some (cur.offset + 1) else none

theorem findSome?_ends_slash (size : Nat) (cur : Cursor) :
    (ends size (one (.single '/')) cur).findSome? (fun e => some e.offset) = behindSlash cur := by
  have hslash : '/'.utf8Size = 1 := by decide
  rw [findSome?_ends_single, hslash, behindSlash]

/-- What may come behind stars: it does not begin with a star, and finds what `behindStar` says. -/
structure Continues (m : Nat) (k : Cursor → Option Nat) : Prop where
  star : ∀ c : Cursor, c.rest.length ≤ m → c.rest.head? = some '*' → k c = none
  other : ∀ c : Cursor, c.rest.length < m → c.rest.head? ≠ some '*' →
    k c = (behindStar c.rest).map (c.offset + ·)

section Parts

variable {size m : Nat} {k : Cursor → Option Nat}

theorem findSome?_ends_stars_of_ne {d : Cursor} (hd : d.rest.head? ≠ some '*') :
    (ends size stars d).findSome? k = none := by
  rw [stars, ends_run_one, SameOrder.findSome?_flatMap, findSome?_ends_one]
  cases hr : d.rest with
  | nil => rfl
  | cons c rest =>
    rw [hr, List.head?_cons] at hd
    have hc : '*' ≠ c := fun h => hd (h ▸ rfl)
    simp [hc]

/-- A run of stars, followed by whatever continues. -/
theorem findSome?_ends_stars (hk : Continues m k) {prev : Option Char} {offset : Nat} {rest : Text}
    (hm : rest.length < m) : (ends size stars ⟨prev, offset, '*' :: rest⟩).findSome? k =
      (behindStar rest).map (offset + 1 + ·) := by
  have hstar : '*'.utf8Size = 1 := by decide
  have hset : ∀ c, (CharSet.single '*').contains c = true ↔ c = '*' := fun c => by
    rw [CharSet.contains_single, beq_iff_eq, eq_comm]
  have hrefuse : ∀ (c : Cursor) (x : Char), c.rest.length ≤ m → c.rest.head? = some x →
      (CharSet.single '*').contains x = true → k c = none := fun c x hc hx hxs =>
    hk.star c hc (hx.trans (congrArg some ((hset x).mp hxs)))
  obtain ⟨w, z, rfl, hw, hz, hrun⟩ := exists_findSome?_ends_run size hrefuse rest
    (some '*') (offset + '*'.utf8Size) (Nat.le_of_lt hm)
  have hz : z.head? ≠ some '*' := fun hhead => absurd (hz '*' hhead) (by simp)
  have hshort : z.length < m := Nat.lt_of_le_of_lt (List.suffix_append w z).length_le hm
  rw [stars, ends_run_one, SameOrder.findSome?_flatMap, findSome?_ends_one]
  simp only [(hset '*').mpr rfl, if_true, Cursor.past]
  rw [hrun, hk.other _ hshort hz, behindStar_append fun c hc => (hset c).mp (hw c hc)]
  simp only [Cursor.skip, Option.map_map, Function.comp_def, hstar, Nat.add_assoc]

/-- A run without stars and a run of stars, followed by whatever continues: what is found is behind
the next closing mark. -/
theorem findSome?_ends_starless (hk : Continues m k) {prev : Option Char} {offset : Nat} {rest : Text}
    (hm : rest.length ≤ m) : (ends size starless ⟨prev, offset, rest⟩).findSome?
      (fun d => (ends size stars d).findSome? k) = (commentEnd rest).map (offset + ·) := by
  have hset := CharSet.contains_compl_single '*'
  have hrefuse : ∀ (c : Cursor) (x : Char), c.rest.length ≤ m → c.rest.head? = some x →
      (CharSet.compl (.single '*')).contains x = true → (ends size stars c).findSome? k = none :=
    fun c x _ hx hxs => findSome?_ends_stars_of_ne fun hhead =>
      (hset x).mp hxs (Option.some.inj (hx.symm.trans hhead))
  obtain ⟨w, z, rfl, hw, hz, hrun⟩ := exists_findSome?_ends_run size hrefuse rest prev
    offset hm
  have hw : '*' ∉ w := fun hmem => (hset '*').mp (hw '*' hmem) rfl
  rw [starless, hrun, commentEnd_append hw, Cursor.skip]
  cases z with
  | nil => exact findSome?_ends_stars_of_ne (by simp)
  | cons c z =>
    obtain rfl : c = '*' := by
      by_contra hc
      exact absurd ((hset c).mpr hc) (by rw [hz c rfl]; simp)
    have hshort : z.length < m := Nat.lt_of_lt_of_le (Nat.lt_succ_self _)
      (Nat.le_trans (List.suffix_append w ('*' :: z)).length_le hm)
    rw [findSome?_ends_stars hk hshort, commentEnd_star]
    simp only [Option.map_map, Function.comp_def, Nat.add_assoc]

/-- One iteration, followed by whatever continues. -/
theorem findSome?_ends_innerPart (hk : Continues m k) {prev : Option Char} {offset : Nat} {c : Char}
    {rest : Text} (hm : rest.length ≤ m) :
    (ends size innerPart ⟨prev, offset, c :: rest⟩).findSome? k =
      if c ≠ '/' ∧ c ≠ '*' then (commentEnd rest).map (offset + c.utf8Size + ·) else none := by
  have hset : (CharSet.compl (.union (.single '/') (.single '*'))).contains c = true ↔
      c ≠ '/' ∧ c ≠ '*' := by
    have hunion : (CharSet.compl (.union (.single '/') (.single '*'))).contains c =
      !((CharSet.single '/').contains c || (CharSet.single '*').contains c) := rfl
    rw [hunion, CharSet.contains_single, CharSet.contains_single, Bool.not_eq_true',
      Bool.or_eq_false_iff, beq_eq_false_iff_ne, beq_eq_false_iff_ne]
    exact and_congr ne_comm ne_comm
  rw [innerPart, findSome?_ends_cat, findSome?_ends_cat, findSome?_ends_one]
  simp only [hset, Cursor.past, findSome?_ends_starless hk hm]

/-- The loop of the pattern, followed by the closing slash. -/
theorem continues_loops (size n : Nat) : Continues n fun c =>
    (loops (ends size innerPart) true n c).findSome? behindSlash := by
  induction n with
  | zero =>
    refine ⟨fun c hc hhead => ?_, fun c hc => absurd hc (Nat.not_lt_zero _)⟩
    rw [List.length_eq_zero_iff.mp (Nat.le_zero.mp hc)] at hhead
    exact absurd hhead (by simp)
  | succ n ih =>
    have hstep : ∀ c : Cursor, (loops (ends size innerPart) true (n + 1) c).findSome? behindSlash =
        ((ends size innerPart c).findSome? fun d =>
          (loops (ends size innerPart) true n d).findSome? behindSlash).or (behindSlash c) := by
      intro c
      rw [loops, if_pos rfl, List.findSome?_append, SameOrder.findSome?_flatMap,
        List.findSome?_singleton]
    refine ⟨fun cur hcur hhead => ?_, fun cur hcur hhead => ?_⟩
    · rw [hstep]
      obtain ⟨prev, offset, rest⟩ := cur
      cases rest with
      | nil => exact absurd hhead (by simp)
      | cons c rest =>
        obtain rfl : c = '*' := Option.some.inj hhead
        rw [findSome?_ends_innerPart ih (Nat.le_of_succ_le_succ hcur)]
        simp [behindSlash]
    · rw [hstep]
      obtain ⟨prev, offset, rest⟩ := cur
      cases rest with
      | nil => rfl
      | cons c rest =>
        have hstar : c ≠ '*' := fun h => hhead (h ▸ rfl)
        rw [findSome?_ends_innerPart ih (Nat.le_of_succ_le (Nat.lt_of_succ_lt_succ hcur))]
        by_cases hslash : c = '/'
        · simp [hslash, behindSlash, behindStar]
        · simp [hslash, hstar, behindSlash, behindStar, commentEnd_cons, Function.comp_def,
            Nat.add_assoc]

end Parts

/-! ## The whole pattern -/

/-- **The closing mark**: behind an opening mark the pattern prefers the first one. -/
theorem offset_preferred_blockPattern {size : Nat} {a rest : Text} (hsize : rest.length ≤ size) :
    (preferred size blockPattern (between a ('/' :: '*' :: rest))).map Cursor.offset =
      (commentEnd rest).map (a.byteLength + 2 + ·) := by
  have hslash : '/'.utf8Size = 1 := by decide
  have hstar : '*'.utf8Size = 1 := by decide
  have hpattern : blockPattern = cat (cat (cat (cat (cat (one (.single '/')) (one (.single '*')))
      starless) stars) (repeated innerPart 0 none true)) (one (.single '/')) := rfl
  have hloop : ∀ c : Cursor, c.rest.length ≤ size →
      (ends size (repeated innerPart 0 none true) c).findSome? behindSlash =
        (loops (ends size innerPart) true size c).findSome? behindSlash := by
    intro c hc
    have hloop := sameOrder_repeated (p := innerPart) rfl 0 none true hc
    rw [hloop]
    simp only [rounds, List.flatMap_singleton]
    rfl
  have hk : Continues size fun c =>
      (ends size (repeated innerPart 0 none true) c).findSome? behindSlash :=
    ⟨fun c hc hhead => (hloop c hc).trans ((continues_loops size size).star c hc hhead),
      fun c hc hhead => (hloop c (Nat.le_of_lt hc)).trans
        ((continues_loops size size).other c hc hhead)⟩
  rw [offset_preferred_eq_findSome?, hpattern, findSome?_ends_cat]
  simp only [findSome?_ends_slash]
  rw [findSome?_ends_cat, findSome?_ends_cat, findSome?_ends_cat, findSome?_ends_cat,
    findSome?_ends_one]
  simp only [between, CharSet.contains_single, beq_self_eq_true, if_true, Cursor.past]
  rw [findSome?_ends_one]
  simp only [CharSet.contains_single, beq_self_eq_true, if_true, Cursor.past]
  rw [findSome?_ends_starless hk hsize, hslash, hstar]

theorem exists_of_preferred_blockPattern {size : Nat} {a b : Text} {e : Cursor}
    (h : preferred size blockPattern (between a b) = some e) :
    ∃ rest, b = '/' :: '*' :: rest := by
  -- the opening mark is the innermost part of the pattern on the left
  have he := mem_of_preferred h
  obtain ⟨d, hd, -⟩ := mem_ends_cat_iff.mp he
  obtain ⟨d, hd, -⟩ := mem_ends_cat_iff.mp hd
  obtain ⟨d, hd, -⟩ := mem_ends_cat_iff.mp hd
  obtain ⟨d, hd, -⟩ := mem_ends_cat_iff.mp hd
  obtain ⟨c, hc, hd⟩ := mem_ends_cat_iff.mp hd
  obtain ⟨x, hx, hrest, -⟩ := exists_of_mem_ends_one hc
  obtain ⟨y, hy, hrest', -⟩ := exists_of_mem_ends_one hd
  rw [CharSet.contains_single, beq_iff_eq] at hx hy
  subst hx hy
  have hb : b = '/' :: c.rest := hrest
  exact ⟨d.rest, by rw [hb, hrest']; rfl⟩

/-- Where the block comment pattern matches. -/
theorem matchesAt_blockPattern_iff {text : Text} {r : ByteRange} :
    MatchesAt blockPattern text r ↔ ∃ a rest n, text = a ++ '/' :: '*' :: rest ∧
      commentEnd rest = some n ∧ r = ⟨a.byteLength, a.byteLength + 2 + n⟩ :=
  matchesAt_iff_of_close ['/', '*'] (fun _ _ _ _ => exists_of_preferred_blockPattern)
    fun _ _ _ => offset_preferred_blockPattern

/-! ## Both sides of a line break -/

/-- Two opening marks do not overlap. -/
theorem exists_of_two_openings : ∀ {w v rest : Text}, w ≠ [] →
    '/' :: '*' :: v = w ++ '/' :: '*' :: rest → ∃ w', v = w' ++ '/' :: '*' :: rest
  | [], _, _, hw, _ => absurd rfl hw
  | [_], _, _, _, h => absurd (List.cons.inj (List.cons.inj h).2).1 (by decide)
  | _ :: _ :: w', _, _, _, h => ⟨w', (List.cons.inj (List.cons.inj h).2).2⟩

/-- What an opening mark opens, any later comment closes at the latest. -/
theorem marked_blockPattern : blockPattern.Marked ['/', '*'] where
  steady := by decide
  moves := by decide
  startless := by decide
  inLine := by decide
  begins := by
    intro text r h
    obtain ⟨a, rest, n, htext, -, rfl⟩ := matchesAt_blockPattern_iff.mp h
    exact ⟨a, rest, htext, rfl⟩
  closes := by
    rintro text u v r htext ⟨v', rfl⟩ h hlt
    obtain ⟨a, rest, n, htext', hn, rfl⟩ := matchesAt_blockPattern_iff.mp h
    obtain ⟨x, y, rfl, -⟩ := exists_of_commentEnd hn
    obtain ⟨w, rfl, hw⟩ := Text.exists_middle (htext.symm.trans htext') (Nat.le_of_lt hlt)
    have hw' : w ≠ [] := by
      rintro rfl
      exact absurd hlt (by simp)
    obtain ⟨w', rfl⟩ := exists_of_two_openings hw' hw
    have hv : w' ++ '/' :: '*' :: (x ++ '*' :: '/' :: y) =
        (w' ++ '/' :: '*' :: x) ++ '*' :: '/' :: y := by
      simp
    obtain ⟨n', hn'⟩ := exists_commentEnd y (w' ++ '/' :: '*' :: x)
    rw [← hv] at hn'
    exact ⟨_, matchesAt_blockPattern_iff.mpr ⟨u, _, n', htext, hn', rfl⟩⟩

/-- A comment stays a comment when the text goes on. -/
theorem matchesAt_blockPattern_append {text : Text} {r : ByteRange}
    (h : MatchesAt blockPattern text r) (b : Text) : MatchesAt blockPattern (text ++ b) r := by
  obtain ⟨a, rest, n, rfl, hn, rfl⟩ := matchesAt_blockPattern_iff.mp h
  refine matchesAt_blockPattern_iff.mpr ⟨a, rest ++ b, n, ?_, commentEnd_append_of_some b hn, rfl⟩
  rw [List.append_assoc, List.cons_append, List.cons_append]

/-- **Block comments on both sides of a line break**, if no opening mark is left behind the last
comment before it. -/
theorem splitsAt_blockPattern {a : Text} (ha : a.getLast? = some '\n')
    (hmarks : a.NoMarkBehind ['/', '*'] (blockPattern.findAll a)) (b : Text) :
    blockPattern.SplitsAt a b :=
  marked_blockPattern.splitsAt ha hmarks fun _ hr =>
    matchesAt_blockPattern_append (matchesAt_of_mem_findAll hr) b

end FaustLens.Faust
