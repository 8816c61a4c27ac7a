import FaustLens.Proofs.Pattern.Language

/-!
# Whole words

A pattern that only chooses between texts has a list of them (`spellings`), in the order of its
preference. A pattern between two word boundaries whose texts are made of word characters matches
whole words: its matches are exactly the maximal runs of word characters (`WordRun`) in its language.
The order of the texts does not matter then, because two texts that begin at one place and stop at
word boundaries are the same run.

Results:
* `sameOrder_of_spellings`: the ends of a choice between texts.
* `WordRun.eq_or_apart`: two runs are equal or share no byte.
* `mem_findAll_iff_of_words`, `mem_findAll_iff_of_wholeWords`: the matches of a pattern that reads
  words, and of a choice between whole words.
-/

namespace FaustLens

theorem mem_map_toList_iff {w : Text} {vs : List String} :
    w ∈ vs.map String.toList ↔ String.ofList w ∈ vs := by
  rw [List.mem_map]
  constructor
  · rintro ⟨v, hv, rfl⟩
    rwa [String.ofList_toList]
  · intro hw
    exact ⟨String.ofList w, hw, String.toList_ofList⟩

/-! ## Texts behind a place -/

/-- The place behind the text `w`, if this text follows. -/
def Cursor.after? (cur : Cursor) : Text → Option Cursor
  | [] => some cur
  | c :: w =>
    match cur.rest with
    | d :: rest => if d = c then (cur.past c rest).after? w else none
    | [] => none

namespace Cursor

theorem after?_append (w : Text) : ∀ (v : Text) (cur : Cursor),
    cur.after? (v ++ w) = (cur.after? v).bind (·.after? w)
  | [], _ => rfl
  | c :: v, cur => by
    rw [List.cons_append, after?, after?]
    cases cur.rest with
    | nil => rfl
    | cons d rest =>
      simp only
      split
      · exact after?_append w v _
      · rfl

theorem after?_eq_some_iff {e : Cursor} : ∀ {w : Text} {cur : Cursor},
    cur.after? w = some e ↔ cur.rest = w ++ e.rest ∧ e = cur.skip w e.rest
  | [], cur => by
    rw [after?, Option.some_inj, List.nil_append]
    constructor
    · rintro rfl
      exact ⟨rfl, rfl⟩
    · rintro ⟨hrest, he⟩
      rw [he, ← hrest, skip_nil]
  | c :: w, ⟨prev, offset, []⟩ => by simp [after?]
  | c :: w, ⟨prev, offset, d :: rest⟩ => by
    rw [after?]
    simp only [List.cons_append, List.cons.injEq]
    have hskip : (past ⟨prev, offset, d :: rest⟩ c rest).skip w e.rest =
        skip ⟨prev, offset, d :: rest⟩ (c :: w) e.rest :=
      skip_skip ⟨prev, offset, d :: rest⟩ [c] w e.rest rest
    split
    · rename_i hd
      rw [after?_eq_some_iff, hskip]
      exact and_congr_left fun _ => ⟨fun h => ⟨hd, h⟩, fun h => h.2⟩
    · rename_i hd
      exact ⟨fun h => absurd h (by simp), fun h => absurd h.1.1 hd⟩

/-- The same for the place between two parts of a text. -/
theorem after?_between_eq_some_iff {a b w : Text} {e : Cursor} :
    (between a b).after? w = some e ↔ ∃ z, b = w ++ z ∧ e = between (a ++ w) z := by
  rw [after?_eq_some_iff]
  constructor
  · rintro ⟨hb, he⟩
    exact ⟨e.rest, hb, he.trans (skip_between a w e.rest b)⟩
  · rintro ⟨z, rfl, rfl⟩
    exact ⟨rfl, (skip_between a w z (w ++ z)).symm⟩

theorem after?_between (a b w : Text) : (between a b).after? w =
    if w <+: b then some (between (a ++ w) (b.drop w.length)) else none := by
  split
  · rename_i hw
    obtain ⟨z, rfl⟩ := hw
    exact after?_between_eq_some_iff.mpr ⟨z, rfl, by rw [List.drop_left]⟩
  · rename_i hw
    refine Option.eq_none_iff_forall_ne_some.mpr fun e he => hw ?_
    obtain ⟨z, rfl, -⟩ := after?_between_eq_some_iff.mp he
    exact List.prefix_append w z

end Cursor

namespace Pattern

open Cursor (between)

variable {size : Nat} {p : Pattern} {ws : List Text}

/-! ## Choices between texts -/

/-- The texts between which the pattern chooses, the preferred one first; none if it does anything
else. -/
def spellings : Pattern → Option (List Text)
  | empty => some [[]]
  | one (.range lo hi) => if lo = hi then some [[lo]] else none
  | capture _ p => spellings p
  | cat a b =>
    match spellings a, spellings b with
    | some vs, some ws => some (vs.flatMap fun v => ws.map (v ++ ·))
    | _, _ => none
  | alt a b =>
    match spellings a, spellings b with
    | some vs, some ws => some (vs ++ ws)
    | _, _ => none
  | _ => none

theorem ends_one_range_self (size : Nat) (c : Char) (cur : Cursor) :
    ends size (one (.range c c)) cur = [[c]].filterMap cur.after? := by
  rw [ends, List.filterMap_cons, List.filterMap_nil]
  cases hrest : cur.rest with
  | nil => simp [Cursor.after?, hrest]
  | cons d rest =>
    have hset : (CharSet.range c c).contains d = (c == d) := CharSet.contains_single c d
    by_cases hd : d = c
    · subst hd
      simp [Cursor.after?, hrest, hset]
    · have hcd : c ≠ d := fun h => hd h.symm
      simp [Cursor.after?, hrest, hset, hd, hcd]

/-- Reading one text and then another is reading both of them together. -/
theorem flatMap_filterMap_after? (cur : Cursor) (ws : List Text) : ∀ vs : List Text,
    (vs.filterMap cur.after?).flatMap (fun d => ws.filterMap d.after?) =
      (vs.flatMap fun v => ws.map (v ++ ·)).filterMap cur.after?
  | [] => rfl
  | v :: vs => by
    have htail := flatMap_filterMap_after? cur ws vs
    have hboth : (ws.map (v ++ ·)).filterMap cur.after? =
        ws.filterMap fun w => (cur.after? v).bind (·.after? w) := by
      rw [List.filterMap_map]
      exact List.filterMap_congr fun w _ => Cursor.after?_append w v cur
    rw [List.flatMap_cons, List.filterMap_append, ← htail, hboth, List.filterMap_cons]
    cases cur.after? v with
    | none => simp
    | some d => rw [List.flatMap_cons]; rfl

/-- **The ends of a choice between texts** are behind those texts that follow, in the order of the
list. -/
theorem sameOrder_of_spellings : ∀ {p : Pattern} {ws : List Text}, p.spellings = some ws →
    ∀ cur : Cursor, SameOrder (ends size p cur) (ws.filterMap cur.after?)
  | empty, ws, h, cur => by
    obtain rfl := Option.some.inj h
    exact SameOrder.refl _
  | one (.range lo hi), ws, h, cur => by
    rw [spellings] at h
    split at h
    · rename_i heq
      subst heq
      obtain rfl := Option.some.inj h
      rw [ends_one_range_self]
      exact SameOrder.refl _
    · exact absurd h (by simp)
  | capture _ p, ws, h, cur => sameOrder_of_spellings (p := p) h cur
  | cat a b, ws, h, cur => by
    rw [spellings] at h
    split at h
    · rename_i vs us hvs hus
      obtain rfl := Option.some.inj h
      refine (sameOrder_cat size a b cur).trans ?_
      rw [← flatMap_filterMap_after?]
      exact (sameOrder_of_spellings hvs cur).flatMap fun d _ => sameOrder_of_spellings hus d
    · exact absurd h (by simp)
  | alt a b, ws, h, cur => by
    rw [spellings] at h
    split at h
    · rename_i vs us hvs hus
      obtain rfl := Option.some.inj h
      refine (sameOrder_alt size a b cur).trans ?_
      rw [List.filterMap_append]
      exact (sameOrder_of_spellings hvs cur).append (sameOrder_of_spellings hus cur)
    · exact absurd h (by simp)

/-- What is found first among the ends of a choice between texts. -/
theorem findSome?_ends_of_spellings {β : Type} (hp : p.spellings = some ws) (cur : Cursor)
    (k : Cursor → Option β) :
    (ends size p cur).findSome? k = ws.findSome? fun w => (cur.after? w).bind k := by
  rw [sameOrder_of_spellings hp cur β k, ← List.head?_filterMap, List.filterMap_filterMap,
    List.head?_filterMap]

theorem mem_ends_iff_of_spellings (hp : p.spellings = some ws) {cur e : Cursor} :
    e ∈ ends size p cur ↔ ∃ w ∈ ws, cur.after? w = some e := by
  rw [(sameOrder_of_spellings hp cur).mem_iff, List.mem_filterMap]

/-! ## Runs of word characters -/

end Pattern

/-- The range `r` of the text holds `w`, a maximal run of word characters, with `a` before it and `z`
behind it. -/
structure WordRun (text : Text) (r : ByteRange) (a w z : Text) : Prop extends
    Text.Parts text r a w z where
  filled : w ≠ []
  word : ∀ c ∈ w, Unicode.isWord c = true
  start : ∀ c ∈ a.getLast?, Unicode.isWord c = false
  stop : ∀ c ∈ z.head?, Unicode.isWord c = false

instance (text : Text) (r : ByteRange) (a w z : Text) : Decidable (WordRun text r a w z) :=
  decidable_of_iff ((text = a ++ w ++ z ∧ r = ⟨a.byteLength, (a ++ w).byteLength⟩) ∧
      (w ≠ [] ∧ w.all Unicode.isWord = true) ∧
      a.getLast?.all (!Unicode.isWord ·) = true ∧ z.head?.all (!Unicode.isWord ·) = true)
    ⟨fun ⟨hparts, hword, hstart, hstop⟩ => ⟨⟨hparts.1, hparts.2⟩, hword.1,
        List.all_eq_true.mp hword.2, by simpa [Option.all_eq_true] using hstart,
        by simpa [Option.all_eq_true] using hstop⟩,
      fun h => ⟨⟨h.text_eq, h.range_eq⟩, ⟨h.filled, List.all_eq_true.mpr h.word⟩,
        by simpa [Option.all_eq_true] using h.start, by simpa [Option.all_eq_true] using h.stop⟩⟩

/-- A word between two characters that are no word characters, or at an end of the text. -/
theorem wordRun_of_text {text a w z : Text} (htext : text = a ++ (w ++ z)) (hw : w ≠ [])
    (hword : ∀ c ∈ w, Unicode.isWord c = true) (hstart : ∀ c ∈ a.getLast?, Unicode.isWord c = false)
    (hstop : ∀ c ∈ z.head?, Unicode.isWord c = false) :
    WordRun text ⟨a.byteLength, (a ++ w).byteLength⟩ a w z :=
  ⟨⟨by rw [htext, List.append_assoc], rfl⟩, hw, hword, hstart, hstop⟩

namespace WordRun

variable {text : Text} {r r' : ByteRange} {a w z a' w' z' : Text}

theorem start_lt_stop (h : WordRun text r a w z) : r.start < r.stop := by
  have hpos := Text.byteLength_pos h.filled
  rw [h.range_eq]
  simp only [Text.byteLength_append]
  omega

/-- A run that starts behind another one, or at the same place, shares no byte with it or is the
same. -/
theorem eq_or_stop_le (h : WordRun text r a w z) (h' : WordRun text r' a' w' z')
    (hle : a.byteLength ≤ a'.byteLength) : (r = r' ∧ w = w') ∨ r.stop ≤ r'.start := by
  have htext : a ++ (w ++ z) = a' ++ (w' ++ z') := by
    rw [← List.append_assoc, ← List.append_assoc, ← h.text_eq, ← h'.text_eq]
  obtain ⟨m, rfl, hrest⟩ := Text.exists_middle htext hle
  cases hm : m.getLast? with
  | none =>
    have hnil := List.getLast?_eq_none_iff.mp hm
    rw [hnil, List.nil_append] at hrest
    have hw : w = w' := (Text.eq_of_run h.word h'.word (by simpa using h.stop)
      (by simpa using h'.stop) hrest).1
    refine Or.inl ⟨?_, hw⟩
    rw [h.range_eq, h'.range_eq, hnil, hw, List.append_nil]
  | some c =>
    -- the character before the later run is no word character, so it is not in the earlier one
    have hc : Unicode.isWord c = false := h'.start c (by rw [List.getLast?_append, hm]; rfl)
    refine Or.inr ?_
    by_contra hgt
    rw [h.range_eq, h'.range_eq] at hgt
    simp only [Text.byteLength_append] at hgt
    obtain ⟨m', rfl, -⟩ := Text.exists_middle hrest.symm (by omega)
    have hword := h.word c (List.mem_append_left _ (List.mem_of_getLast? hm))
    rw [hc] at hword
    exact absurd hword (by simp)

/-- **Two runs are equal or share no byte.** -/
theorem eq_or_apart (h : WordRun text r a w z) (h' : WordRun text r' a' w' z') :
    (r = r' ∧ w = w') ∨ r.stop ≤ r'.start ∨ r'.stop ≤ r.start := by
  by_cases hle : a.byteLength ≤ a'.byteLength
  · exact (h.eq_or_stop_le h' hle).imp_right Or.inl
  · rcases h'.eq_or_stop_le h (Nat.le_of_not_le hle) with ⟨hr, hw⟩ | hap
    · exact Or.inl ⟨hr.symm, hw.symm⟩
    · exact Or.inr (Or.inr hap)

/-- The run that holds a byte is unique. -/
theorem eq_of_mem (h : WordRun text r a w z) (h' : WordRun text r' a' w' z') {b : Nat} (hb : b ∈ r)
    (hb' : b ∈ r') : r = r' ∧ w = w' := by
  rcases h.eq_or_apart h' with heq | hap | hap
  · exact heq
  · exact absurd ⟨b, hb, hb'⟩ (ByteRange.not_meets_of_stop_le hap)
  · exact absurd ⟨b, hb', hb⟩ (ByteRange.not_meets_of_stop_le hap)

end WordRun

namespace Pattern

open Cursor (between)

variable {size : Nat} {p : Pattern} {ws : List Text} {text : Text} {r : ByteRange}

/-! ## Between word boundaries -/

/-- The texts of a choice between word boundaries; none if the pattern is anything else. -/
def wholeWords : Pattern → Option (List Text)
  | cat (cat front p) back => if front = boundary ∧ back = boundary then spellings p else none
  | _ => none

/-- All texts are made of word characters, and none is empty. -/
def Worded (ws : List Text) : Prop := ∀ w ∈ ws, w ≠ [] ∧ ∀ c ∈ w, Unicode.isWord c = true

theorem reads_of_spellings (hp : p.spellings = some ws) : Reads size p (· ∈ ws) := by
  intro cur e _
  rw [mem_ends_iff_of_spellings hp]
  simp only [Cursor.after?_eq_some_iff]
  rfl

theorem bounded_of_wholeWords (hp : p.wholeWords = some ws) (size : Nat) :
    Bounded size p (· ∈ ws) := by
  obtain ⟨q, rfl, hq⟩ : ∃ q, p = cat (cat boundary q) boundary ∧ q.spellings = some ws := by
    unfold wholeWords at hp
    split at hp
    · rename_i front q back
      split at hp
      · rename_i heq
        exact ⟨q, by rw [heq.1, heq.2], hp⟩
      · exact absurd hp (by simp)
    · exact absurd hp (by simp)
  exact (reads_of_spellings hq).bounded

/-- Words begin and end with word characters, and what follows a word tells where it ends. -/
theorem solid_of_words {P : Text → Prop} (hfilled : ∀ w, P w → w ≠ [])
    (hword : ∀ w, P w → ∀ c ∈ w, Unicode.isWord c = true) : Solid P where
  head {w} hw := by
    obtain ⟨c, w, rfl⟩ := List.exists_cons_of_ne_nil (hfilled w hw)
    exact ⟨c, rfl, hword _ hw c List.mem_cons_self⟩
  last {w} hw := ⟨w.getLast (hfilled w hw), List.getLast?_eq_some_getLast (hfilled w hw),
    hword w hw _ (List.getLast_mem (hfilled w hw))⟩
  unique {v w y z} hv hw hy hz h := (Text.eq_of_run (hword v hv) (hword w hw)
    (by simpa using hy) (by simpa using hz) h).1

/-- Where a pattern matches that reads words between word boundaries. -/
theorem matchesAt_iff_of_words {P : Text → Prop} (hp : ∀ size, Bounded size p P)
    (hfilled : ∀ w, P w → w ≠ []) (hword : ∀ w, P w → ∀ c ∈ w, Unicode.isWord c = true) :
    MatchesAt p text r ↔ ∃ a w z, WordRun text r a w z ∧ P w := by
  rw [matchesAt_iff_of_bounded hp (solid_of_words hfilled hword)]
  constructor
  · rintro ⟨a, w, z, hw, hP⟩
    exact ⟨a, w, z, ⟨hw.toParts, hfilled w hP, hword w hP, hw.start, hw.stop⟩, hP⟩
  · rintro ⟨a, w, z, hrun, hP⟩
    exact ⟨a, w, z, ⟨hrun.toParts, hrun.start, hrun.stop⟩, hP⟩

/-- **The matches of a pattern that reads words** are the maximal runs of word characters in its
language. -/
theorem mem_findAll_iff_of_words {P : Text → Prop} (hn : p.nullable = false)
    (hp : ∀ size, Bounded size p P) (hfilled : ∀ w, P w → w ≠ [])
    (hword : ∀ w, P w → ∀ c ∈ w, Unicode.isWord c = true) :
    r ∈ p.findAll text ↔ ∃ a w z, WordRun text r a w z ∧ P w := by
  have hiff : ∀ {r}, MatchesAt p text r ↔ ∃ a w z, WordRun text r a w z ∧ P w :=
    matchesAt_iff_of_words hp hfilled hword
  rw [mem_findAll_iff hn, hiff]
  constructor
  · exact fun h => h.1
  · rintro ⟨a, w, z, hrun, hw⟩
    refine ⟨⟨a, w, z, hrun, hw⟩, fun r' hr' hlt => ?_⟩
    obtain ⟨a', w', z', hrun', -⟩ := hiff.mp ((mem_findAll_iff hn).mp hr').1
    rcases hrun'.eq_or_apart hrun with ⟨rfl, -⟩ | hap | hap
    · exact absurd hlt (Nat.lt_irrefl _)
    · exact hap
    · rw [hrun.range_eq] at hlt hap
      simp only [Text.byteLength_append] at hlt hap
      omega

/-- **The matches of a choice between whole words** are the maximal runs of word characters that are
one of them. -/
theorem mem_findAll_iff_of_wholeWords (hn : p.nullable = false) (hp : p.wholeWords = some ws)
    (hws : Worded ws) : r ∈ p.findAll text ↔ ∃ a w z, WordRun text r a w z ∧ w ∈ ws :=
  mem_findAll_iff_of_words hn (bounded_of_wholeWords hp) (fun w hw => (hws w hw).1)
    fun w hw => (hws w hw).2

end Pattern

end FaustLens
