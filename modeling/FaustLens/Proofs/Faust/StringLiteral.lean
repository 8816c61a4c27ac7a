import FaustLens.Proofs.Faust.Line
import FaustLens.Proofs.Pattern.Append

/-!
# String literals

Behind an opening quote, the string pattern (`string` in `faust_rules`, `syntax::faust`) reads a
backslash together with the character after it, unless this is a line feed, and stops at the first
quote that it comes to. If it comes to none, it goes back to the last such pair and reads its
backslash alone (`closing`). So what a string literal takes depends on the text behind it, however
far away. A piece of a line without a quote does not matter: the pattern passes over it in any case.

Results:
* `offset_preferred_stringPattern`: the pattern prefers the closing quote that `closing` finds.
* `closing_append_of_not_mem`: a piece of a line without a quote is passed over.
* `closing_congr`: it may be replaced by another one.
* `exists_closing_of_mem_units`: a quote that is not escaped closes whatever comes behind it.
* `splitsAt_stringPattern`: string literals on both sides of a line break.
-/

namespace FaustLens.Faust

open Cursor (between)
open Pattern

/-- The number of bytes of the text behind an opening quote up to the closing quote and including
it, if there is one. -/
def closing : Text → Option Nat
  | [] => none
  | [c] => if c = '"' then some 1 else none
  | c :: d :: rest =>
    if c = '"' then some 1
    else
      let pair := if c = '\\' ∧ d ≠ '\n' then (closing rest).map (c.utf8Size + d.utf8Size + ·) else none
      pair.or ((closing (d :: rest)).map (c.utf8Size + ·))

/-- What may stand between the quotes. -/
def stringBody : Pattern :=
  alt (cat (one (.single '\\')) (one (.compl (.single '\n')))) (one (.compl (.single '"')))

/-- The offset behind a quote, if one follows. -/
def behindQuote (cur : Cursor) : Option Nat :=
  if cur.rest.head? = some '"' then some (cur.offset + 1) else none

theorem findSome?_ends_quote (size : Nat) (cur : Cursor) :
    (ends size (one (.single '"')) cur).findSome? (fun e => some e.offset) = behindQuote cur := by
  have hquote : '"'.utf8Size = 1 := by decide
  rw [findSome?_ends_single, hquote, behindQuote]

/-- One iteration of the body, followed by whatever is looked for. -/
theorem findSome?_ends_stringBody {β : Type} (size : Nat) (k : Cursor → Option β)
    (prev : Option Char) (offset : Nat) (c : Char) (rest : Text) :
    (ends size stringBody ⟨prev, offset, c :: rest⟩).findSome? k =
      (match rest with
        | d :: rest =>
          if c = '\\' ∧ d ≠ '\n' then k ⟨some d, offset + c.utf8Size + d.utf8Size, rest⟩ else none
        | [] => none).or
        (if c ≠ '"' then k ⟨some c, offset + c.utf8Size, rest⟩ else none) := by
  rw [stringBody, findSome?_ends_alt, findSome?_ends_cat, findSome?_ends_one, findSome?_ends_one]
  simp only [CharSet.contains_single, beq_iff_eq, CharSet.contains_compl_single, Cursor.past]
  congr 1
  by_cases hc : '\\' = c
  · subst hc
    rw [if_pos rfl, findSome?_ends_one]
    cases rest with
    | nil => rfl
    | cons d rest => simp only [CharSet.contains_compl_single, Cursor.past, true_and]
  · rw [if_neg hc]
    cases rest with
    | nil => rfl
    | cons d rest => simp only [Ne.symm hc, false_and, if_false]

/-- The loop of the pattern, followed by the closing quote. -/
theorem findSome?_loops_stringBody (size : Nat) : ∀ (n : Nat) (prev : Option Char) (offset : Nat)
    (rest : Text), rest.length ≤ n →
    (loops (ends size stringBody) true n ⟨prev, offset, rest⟩).findSome? behindQuote =
      (closing rest).map (offset + ·)
  | 0, _, _, _, h => by
    obtain rfl := List.length_eq_zero_iff.mp (Nat.le_zero.mp h)
    rfl
  | n + 1, prev, offset, [], h => by
    rw [loops, if_pos rfl]
    rfl
  | n + 1, prev, offset, [c], h => by
    have htail := findSome?_loops_stringBody size n (some c) (offset + c.utf8Size) [] (Nat.zero_le n)
    rw [loops, if_pos rfl, List.findSome?_append, SameOrder.findSome?_flatMap,
      findSome?_ends_stringBody]
    simp only [htail]
    by_cases hc : c = '"' <;> simp [hc, closing, behindQuote]
  | n + 1, prev, offset, c :: d :: rest, h => by
    rw [List.length_cons, List.length_cons] at h
    have hpair := findSome?_loops_stringBody size n (some d) (offset + c.utf8Size + d.utf8Size) rest
      (by omega)
    have htail := findSome?_loops_stringBody size n (some c) (offset + c.utf8Size) (d :: rest)
      (by rw [List.length_cons]; omega)
    rw [loops, if_pos rfl, List.findSome?_append, SameOrder.findSome?_flatMap,
      findSome?_ends_stringBody]
    simp only [hpair, htail]
    by_cases hc : c = '"'
    · subst hc
      simp [closing, behindQuote]
    · have hbehind : behindQuote ⟨prev, offset, c :: d :: rest⟩ = none := if_neg (by simpa using hc)
      rw [List.findSome?_singleton, hbehind, Option.or_none, if_pos hc, closing, if_neg hc,
        Option.map_or]
      congr 1
      · split
        · simp only [Option.map_map, Function.comp_def, Nat.add_assoc]
        · rfl
      · simp only [Option.map_map, Function.comp_def, Nat.add_assoc]

/-- **The closing quote**: behind an opening quote the pattern prefers the one that `closing`
finds. -/
theorem offset_preferred_stringPattern {size : Nat} {a rest : Text} (hsize : rest.length ≤ size) :
    (preferred size stringPattern (between a ('"' :: rest))).map Cursor.offset =
      (closing rest).map (a.byteLength + 1 + ·) := by
  have hquote : '"'.utf8Size = 1 := by decide
  have hpattern : stringPattern = cat (cat (one (.single '"')) (repeated stringBody 0 none true))
      (one (.single '"')) := rfl
  rw [offset_preferred_eq_findSome?, hpattern, findSome?_ends_cat, findSome?_ends_cat, findSome?_ends_one]
  simp only [between, CharSet.contains_single, beq_self_eq_true, if_true, findSome?_ends_quote]
  have hloop : SameOrder
      (ends size (repeated stringBody 0 none true) ⟨some '"', a.byteLength + '"'.utf8Size, rest⟩) _ :=
    sameOrder_repeated rfl 0 none true hsize
  simp only [Cursor.past]
  rw [hloop]
  simp only [rounds, List.flatMap_singleton]
  have hfirst := findSome?_loops_stringBody size size (some '"') (a.byteLength + '"'.utf8Size) rest
    hsize
  rw [hquote] at hfirst
  exact hfirst

theorem exists_of_preferred_stringPattern {size : Nat} {a b : Text} {e : Cursor}
    (h : preferred size stringPattern (between a b) = some e) : ∃ rest, b = '"' :: rest := by
  obtain ⟨d, hd, -⟩ := List.mem_flatMap.mp (mem_of_mem_distinct (mem_of_preferred h))
  obtain ⟨c, hc, -⟩ := List.mem_flatMap.mp (mem_of_mem_distinct hd)
  obtain ⟨x, hx, hrest, -⟩ := exists_of_mem_ends_one hc
  rw [CharSet.contains_single, beq_iff_eq] at hx
  subst hx
  exact ⟨c.rest, hrest⟩

/-- Where the string pattern matches. -/
theorem matchesAt_stringPattern_iff {text : Text} {r : ByteRange} :
    MatchesAt stringPattern text r ↔ ∃ a rest n, text = a ++ '"' :: rest ∧
      closing rest = some n ∧ r = ⟨a.byteLength, a.byteLength + 1 + n⟩ :=
  matchesAt_iff_of_close ['"'] (fun _ _ _ _ => exists_of_preferred_stringPattern)
    fun _ _ _ => offset_preferred_stringPattern

/-! ## Pieces without a quote -/

/-- A break does not stop the search for the closing quote. -/
theorem closing_break {x : Char} (hx : IsBreak x) (v : Text) :
    closing (x :: v) = (closing v).map (x.utf8Size + ·) := by
  have hquote : x ≠ '"' := by
    rintro rfl
    exact absurd hx (by decide)
  have hslash : x ≠ '\\' := by
    rintro rfl
    exact absurd hx (by decide)
  cases v with
  | nil => simp [closing, hquote]
  | cons d v => simp [closing, hquote, hslash]

/-- **A piece of a line without a quote is passed over**, also if it ends with a backslash: whether
the break behind it is read together with this backslash or alone makes no difference. -/
theorem closing_append_of_not_mem {v : Text} (hv : AtBreak v) : ∀ {c : Text}, '"' ∉ c →
    closing (c ++ v) = (closing v).map (c.byteLength + ·)
  | [], _ => by simp
  | [c], hc => by
    have hc : c ≠ '"' := fun h => hc (h ▸ List.mem_cons_self)
    cases v with
    | nil => simp [closing, hc]
    | cons x v =>
      have hbreak := closing_break (hv x rfl) v
      rw [List.singleton_append, closing, if_neg hc, Text.byteLength_cons, Text.byteLength_nil,
        Nat.add_zero]
      split
      · rw [hbreak]
        simp only [Option.map_map, Function.comp_def, Nat.add_assoc, Option.or_self]
      · rw [Option.none_or]
  | c :: d :: w, hc => by
    have hw : '"' ∉ w := fun h => hc (List.mem_cons_of_mem _ (List.mem_cons_of_mem _ h))
    have hdw : '"' ∉ d :: w := fun h => hc (List.mem_cons_of_mem _ h)
    have hc : c ≠ '"' := fun h => hc (h ▸ List.mem_cons_self)
    have htail := closing_append_of_not_mem hv hdw
    rw [List.cons_append, Text.byteLength_cons] at htail
    rw [List.cons_append, List.cons_append, closing, if_neg hc, htail,
      closing_append_of_not_mem hv hw, Text.byteLength_cons, Text.byteLength_cons]
    split
    · simp only [Option.map_map, Function.comp_def, Nat.add_assoc, Option.or_self]
    · simp only [Option.none_or, Option.map_map, Function.comp_def, Nat.add_assoc]

/-- **It may be replaced**: the search for the closing quote does not tell apart two texts that go on
with the same character and find the same from there on. -/
theorem closing_congr {x : Char} {y z : Text} (hyz : closing y = closing z)
    (hx : closing (x :: y) = closing (x :: z)) :
    ∀ w : Text, closing (w ++ x :: y) = closing (w ++ x :: z)
  | [] => hx
  | [c] => by
    rw [List.singleton_append, List.singleton_append, closing, closing, hyz, hx]
  | c :: d :: w => by
    have hw := closing_congr hyz hx w
    have htail := closing_congr hyz hx (d :: w)
    rw [List.cons_append, List.cons_append] at htail
    rw [List.cons_append, List.cons_append, List.cons_append, List.cons_append, closing, closing, hw,
      htail]

/-! ## Closing quotes -/

theorem closing_quote (rest : Text) : closing ('"' :: rest) = some 1 := by
  cases rest <;> rfl

/-- The closing quote is a quote. -/
theorem exists_of_closing : ∀ {rest : Text} {n : Nat}, closing rest = some n →
    ∃ x y : Text, rest = x ++ '"' :: y ∧ n = x.byteLength + 1
  | [], _, h => absurd h (by simp [closing])
  | [c], n, h => by
    by_cases hc : c = '"'
    · subst hc
      exact ⟨[], [], rfl, (Option.some.inj h).symm⟩
    · simp [closing, hc] at h
  | c :: d :: rest, n, h => by
    by_cases hc : c = '"'
    · subst hc
      exact ⟨[], d :: rest, rfl, (Option.some.inj h).symm⟩
    · rw [closing, if_neg hc, Option.or_eq_some_iff] at h
      rcases h with h | ⟨-, h⟩
      · split at h
        · obtain ⟨m, hm, rfl⟩ := Option.map_eq_some_iff.mp h
          obtain ⟨x, y, rfl, rfl⟩ := exists_of_closing hm
          exact ⟨c :: d :: x, y, rfl, by simp only [Text.byteLength_cons, Nat.add_assoc]⟩
        · exact absurd h (by simp)
      · obtain ⟨m, hm, rfl⟩ := Option.map_eq_some_iff.mp h
        obtain ⟨x, y, hxy, rfl⟩ := exists_of_closing hm
        refine ⟨c :: x, y, by rw [hxy, List.cons_append], ?_⟩
        rw [Text.byteLength_cons, Nat.add_assoc]

/-- Where there is a quote, escaped or not, there is a closing one. -/
theorem exists_closing_of_mem : ∀ {rest : Text}, '"' ∈ rest → ∃ n, closing rest = some n
  | [], h => absurd h List.not_mem_nil
  | [c], h => by
    obtain rfl := List.mem_singleton.mp h
    exact ⟨1, rfl⟩
  | c :: d :: rest, h => by
    rcases List.mem_cons.mp h with rfl | h
    · exact ⟨1, rfl⟩
    · obtain ⟨n, hn⟩ := exists_closing_of_mem h
      by_cases hc : c = '"'
      · exact ⟨1, if_pos hc⟩
      · refine Option.isSome_iff_exists.mp ?_
        rw [closing, if_neg hc, hn, Option.map_some, Option.isSome_or, Option.isSome_some,
          Bool.or_true]

/-! ## Escape pairs -/

/-- The text read from left to right: a backslash together with the character after it, unless this
is a line feed, and any other character alone. -/
def units : Text → List Text
  | [] => []
  | [c] => [[c]]
  | c :: d :: rest =>
    if c = '\\' ∧ d ≠ '\n' then [c, d] :: units rest else [c] :: units (d :: rest)

theorem units_cons {c : Char} (hc : c ≠ '\\') (rest : Text) :
    units (c :: rest) = [c] :: units rest := by
  cases rest with
  | nil => rfl
  | cons d rest => simp [units, hc]

theorem units_ne_nil {w : Text} (hw : w ≠ []) : units w ≠ [] := by
  match w with
  | [] => exact absurd rfl hw
  | [c] => simp [units]
  | c :: d :: rest =>
    rw [units]
    split <;> simp

/-- **A quote that is read alone closes** the literal there or before, whatever comes behind it. -/
theorem exists_closing_of_mem_units : ∀ {w : Text}, ['"'] ∈ units w →
    ∃ n, ∀ b, closing (w ++ b) = some n
  | [], h => absurd h List.not_mem_nil
  | [c], h => by
    obtain rfl : '"' = c := by simpa [units] using h
    exact ⟨1, closing_quote⟩
  | c :: d :: rest, h => by
    rw [units] at h
    by_cases hc : c = '"'
    · subst hc
      exact ⟨1, fun b => closing_quote _⟩
    · split at h
      · rename_i hpair
        obtain ⟨n, hn⟩ := exists_closing_of_mem_units (w := rest) (by simpa using h)
        refine ⟨c.utf8Size + d.utf8Size + n, fun b => ?_⟩
        rw [List.cons_append, List.cons_append, closing, if_neg hc, if_pos hpair, hn,
          Option.map_some, Option.some_or]
      · rename_i hpair
        obtain ⟨n, hn⟩ := exists_closing_of_mem_units (w := d :: rest)
          ((List.mem_cons.mp h).resolve_left fun heq => hc (List.cons.inj heq).1.symm)
        refine ⟨c.utf8Size + n, fun b => ?_⟩
        have htail := hn b
        rw [List.cons_append] at htail
        rw [List.cons_append, List.cons_append, closing, if_neg hc, if_neg hpair, htail,
          Option.none_or, Option.map_some]

/-! ## Both sides of a line break -/

/-- The range ends with a quote that is not the second character of an escape pair. -/
def Terminated (text : Text) (r : ByteRange) : Prop :=
  ∃ w ∈ text.slice? r.start r.stop, (units w).getLast? = some ['"']

/-- What a quote opens, any later quote closes at the latest. -/
theorem marked_stringPattern : stringPattern.Marked ['"'] where
  steady := by decide
  moves := by decide
  startless := by decide
  inLine := by decide
  begins := by
    intro text r h
    obtain ⟨a, rest, n, htext, -, rfl⟩ := matchesAt_stringPattern_iff.mp h
    exact ⟨a, rest, htext, rfl⟩
  closes := by
    rintro text u v r htext ⟨rest, rfl⟩ h hlt
    obtain ⟨a, rest', n, htext', -, rfl⟩ := matchesAt_stringPattern_iff.mp h
    obtain ⟨w, rfl, hw⟩ := Text.exists_middle (htext.symm.trans htext') (Nat.le_of_lt hlt)
    have hquote : '"' ∈ rest := by
      cases w with
      | nil => exact absurd hlt (by simp)
      | cons c w =>
        have hrest : rest = w ++ '"' :: rest' := (List.cons.inj hw).2
        rw [hrest]
        simp
    obtain ⟨n', hn'⟩ := exists_closing_of_mem hquote
    exact ⟨_, matchesAt_stringPattern_iff.mpr ⟨u, rest, n', htext, hn', rfl⟩⟩

/-- A literal that ends with a quote read alone stays the same when the text goes on. -/
theorem matchesAt_stringPattern_append {text : Text} {r : ByteRange}
    (h : MatchesAt stringPattern text r) (hterm : Terminated text r) (b : Text) :
    MatchesAt stringPattern (text ++ b) r := by
  obtain ⟨a, rest, n, rfl, hn, rfl⟩ := matchesAt_stringPattern_iff.mp h
  obtain ⟨x, y, rfl, rfl⟩ := exists_of_closing hn
  obtain ⟨w, hw, hlast⟩ := hterm
  obtain rfl : '"' :: (x ++ ['"']) = w := by
    have hquote : '"'.utf8Size = 1 := by decide
    have htext : a ++ '"' :: (x ++ '"' :: y) = a ++ '"' :: (x ++ ['"']) ++ y := by simp
    have hlen : a.byteLength + 1 + (x.byteLength + 1) =
        a.byteLength + Text.byteLength ('"' :: (x ++ ['"'])) := by
      simp only [Text.byteLength_cons, Text.byteLength_append, Text.byteLength_nil, hquote]
      omega
    have hslice := Text.slice?_append a ('"' :: (x ++ ['"'])) y
    rw [← htext, ← hlen] at hslice
    exact Option.some.inj (hslice.symm.trans hw)
  have hmem : ['"'] ∈ units (x ++ ['"']) := by
    rw [units_cons (by decide)] at hlast
    rw [List.getLast?_cons_of_ne_nil (units_ne_nil (by simp))] at hlast
    exact List.mem_of_getLast? hlast
  obtain ⟨m, hm⟩ := exists_closing_of_mem_units hmem
  have hsame : closing (x ++ '"' :: (y ++ b)) = closing (x ++ '"' :: y) := by
    have h₁ := hm y
    have h₂ := hm (y ++ b)
    rw [List.append_assoc] at h₁ h₂
    exact h₂.trans h₁.symm
  refine matchesAt_stringPattern_iff.mpr ⟨a, x ++ '"' :: (y ++ b), _, ?_, hsame.trans hn, rfl⟩
  simp

/-- **String literals on both sides of a line break**, if each literal before it is terminated and no
quote is left behind the last one. -/
theorem splitsAt_stringPattern {a : Text} (ha : a.getLast? = some '\n')
    (hmarks : a.NoMarkBehind ['"'] (stringPattern.findAll a))
    (hterm : ∀ r ∈ stringPattern.findAll a, Terminated a r) (b : Text) :
    stringPattern.SplitsAt a b :=
  marked_stringPattern.splitsAt ha hmarks fun r hr =>
    matchesAt_stringPattern_append (matchesAt_of_mem_findAll hr) (hterm r hr) b

end FaustLens.Faust
