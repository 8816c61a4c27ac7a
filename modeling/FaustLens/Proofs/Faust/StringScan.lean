import FaustLens.Proofs.Faust.CommentContents
import FaustLens.Proofs.Faust.StringLiteral
import Mathlib.Algebra.Group.Nat.Even
import Mathlib.Data.List.DropRight

/-!
# The scan for string literals

String literals are found by a scan from left to right (`literalsFrom`). It goes on to the next
quote and reads the text behind it unit by unit, where a backslash makes a unit with the character
behind it. The first quote that is a unit of its own closes the literal. If there is none, every
quote that is left stands behind a backslash, and the last one of them closes the literal all the
same: the pattern also accepts a backslash alone. Only if no quote is left there is no literal.

Results:
* `closing_eq`: the closing quote in terms of units.
* `matchesOf_stringLiteral_eq_literalsFrom`: the scan finds the matches of the string rule.
* `even_slashes_of_mem_matchesOf`: the number of backslashes before a closing quote.
-/

namespace FaustLens.Faust

open Pattern

variable {rest : Text}

/-! ## What a literal takes -/

/-- The text up to its last quote, if it has one. -/
def upToLastQuote? (t : Text) : Option Text :=
  if '"' ∈ t then some (t.rdropWhile (· != '"')) else none

/-- What a literal takes of the text behind its opening quote: everything up to the first quote that
is read alone, and if none is, everything up to the last quote. -/
def taken? (rest : Text) : Option Text :=
  if ['"'] ∈ units rest then some (((units rest).takeWhile (· != ['"'])).flatten ++ ['"'])
  else upToLastQuote? rest

/-- The string literals of a text from the offset on where `rest` begins. -/
def literalsFrom (offset : Nat) : Text → List ByteRange
  | [] => []
  | c :: rest =>
    if c = '"' then
      match taken? rest with
      | some w =>
        ⟨offset, offset + 1 + w.byteLength⟩ ::
          literalsFrom (offset + 1 + w.byteLength) (rest.drop w.length)
      | none => []
    else literalsFrom (offset + c.utf8Size) rest
termination_by t => t.length
decreasing_by all_goals simp only [List.length_cons, List.length_drop]; omega

theorem upToLastQuote?_eq_none_iff {t : Text} : upToLastQuote? t = none ↔ '"' ∉ t := by
  unfold upToLastQuote?
  split <;> simp_all

theorem upToLastQuote?_append (a b : Text) :
    upToLastQuote? (a ++ b) = ((upToLastQuote? b).map (a ++ ·)).or (upToLastQuote? a) := by
  have hdrop : (a ++ b).rdropWhile (· != '"') =
      if '"' ∈ b then a ++ b.rdropWhile (· != '"') else a.rdropWhile (· != '"') := by
    have hempty : ((b.reverse.dropWhile (· != '"')).isEmpty = true) ↔ '"' ∉ b := by
      rw [List.isEmpty_iff, List.dropWhile_eq_nil_iff]
      constructor
      · exact fun h hb => absurd (h _ (List.mem_reverse.mpr hb)) (by simp)
      · rintro h c hc
        rw [bne_iff_ne]
        rintro rfl
        exact h (List.mem_reverse.mp hc)
    unfold List.rdropWhile
    rw [List.reverse_append, List.dropWhile_append]
    by_cases hb : '"' ∈ b
    · rw [if_neg (mt hempty.mp (not_not_intro hb)), if_pos hb, List.reverse_append,
        List.reverse_reverse]
    · rw [if_pos (hempty.mpr hb), if_neg hb]
  unfold upToLastQuote?
  rw [hdrop]
  by_cases hb : '"' ∈ b <;> simp [hb]

theorem upToLastQuote?_concat (t : Text) : upToLastQuote? (t ++ ['"']) = some (t ++ ['"']) := by
  unfold upToLastQuote?
  rw [if_pos (by simp), List.rdropWhile_concat_neg _ _ _ (by simp)]

/-- The last quote is one with no quote behind it. -/
theorem exists_of_upToLastQuote? {t w : Text} (h : upToLastQuote? t = some w) :
    ∃ x y, t = x ++ '"' :: y ∧ '"' ∉ y ∧ w = x ++ ['"'] := by
  induction t generalizing w with
  | nil => exact absurd h (by simp [upToLastQuote?])
  | cons c t ih =>
    have happend := upToLastQuote?_append [c] t
    rw [List.singleton_append, h] at happend
    cases htail : upToLastQuote? t with
    | some v =>
      obtain ⟨x, y, rfl, hy, rfl⟩ := ih htail
      rw [htail] at happend
      exact ⟨c :: x, y, rfl, hy, Option.some.inj happend⟩
    | none =>
      rw [htail, Option.map_none, Option.none_or] at happend
      by_cases hc : c = '"'
      · subst hc
        exact ⟨[], t, rfl, upToLastQuote?_eq_none_iff.mp htail, Option.some.inj happend⟩
      · exact absurd happend.symm (by simp [upToLastQuote?, Ne.symm hc])

theorem taken?_quote (rest : Text) : taken? ('"' :: rest) = some ['"'] := by
  unfold taken?
  rw [units_cons (by decide)]
  simp

/-- A unit before the text, other than a quote, is taken along; and if nothing is taken of the text,
the quote of this unit closes the literal. -/
theorem taken?_append (u rest : Text) (hu : u ≠ ['"'])
    (h : units (u ++ rest) = u :: units rest) :
    taken? (u ++ rest) = ((taken? rest).map (u ++ ·)).or (upToLastQuote? u) := by
  unfold taken?
  by_cases hmem : ['"'] ∈ units rest
  · have hmem' : ['"'] ∈ units (u ++ rest) := h ▸ List.mem_cons_of_mem u hmem
    rw [if_pos hmem, if_pos hmem', h, List.takeWhile_cons_of_pos (by simpa using hu),
      List.flatten_cons, Option.map_some, Option.some_or, List.append_assoc]
  · have hmem' : ['"'] ∉ units (u ++ rest) := by
      rw [h, List.mem_cons]
      exact not_or_intro (Ne.symm hu) hmem
    rw [if_neg hmem, if_neg hmem', upToLastQuote?_append]

theorem closing_eq_none_iff : closing rest = none ↔ '"' ∉ rest := by
  constructor
  · intro h hmem
    obtain ⟨n, hn⟩ := exists_closing_of_mem hmem
    exact absurd (h.symm.trans hn) (by simp)
  · intro h
    by_contra hno
    obtain ⟨n, hn⟩ := Option.ne_none_iff_exists'.mp hno
    obtain ⟨x, y, rfl, -⟩ := exists_of_closing hn
    exact h (by simp)

/-- Behind a pair the search goes on. If it finds nothing there, it goes back to the quote of the
pair, if that has one. -/
theorem closing_pair {d : Char} (hd : d ≠ '\n') (rest : Text) :
    closing ('\\' :: d :: rest) =
      ((closing rest).map (Text.byteLength ['\\', d] + ·)).or
        ((upToLastQuote? ['\\', d]).map Text.byteLength) := by
  rw [closing, if_neg (by decide), if_pos ⟨rfl, hd⟩]
  cases hrest : closing rest with
  | some n => simp [Nat.add_assoc]
  | none =>
    rw [Option.map_none, Option.map_none, Option.none_or, Option.none_or]
    by_cases hquote : d = '"'
    · subst hquote
      have hlast : upToLastQuote? ['\\', '"'] = some ['\\', '"'] := upToLastQuote?_concat ['\\']
      rw [closing_quote, hlast]
      rfl
    · have hno : closing (d :: rest) = none :=
        closing_eq_none_iff.mpr (by simp [Ne.symm hquote, closing_eq_none_iff.mp hrest])
      rw [hno]
      simp [upToLastQuote?, Ne.symm hquote]

/-- **The closing quote** ends what the literal takes. -/
theorem closing_eq : ∀ rest : Text, closing rest = (taken? rest).map Text.byteLength
  | [] => rfl
  | [c] => by
    by_cases hc : c = '"'
    · subst hc
      rfl
    · have htaken := taken?_append [c] [] (by simpa using hc) rfl
      rw [List.append_nil] at htaken
      rw [htaken, closing, if_neg hc]
      simp [taken?, units, upToLastQuote?, Ne.symm hc]
  | c :: d :: rest => by
    by_cases hc : c = '"'
    · subst hc
      rw [closing_quote, taken?_quote]
      rfl
    by_cases hpair : c = '\\' ∧ d ≠ '\n'
    · have htaken := taken?_append [c, d] rest (by simp)
        (by rw [List.cons_append, List.singleton_append, units, if_pos hpair])
      obtain ⟨rfl, hd⟩ := hpair
      rw [List.cons_append, List.singleton_append] at htaken
      rw [htaken, closing_pair hd, closing_eq rest, Option.map_or, Option.map_map, Option.map_map]
      simp only [Function.comp_def, Text.byteLength_append]
    · have htaken := taken?_append [c] (d :: rest) (by simpa using hc)
        (by rw [List.singleton_append, units, if_neg hpair])
      rw [List.singleton_append] at htaken
      rw [htaken, closing, if_neg hc, if_neg hpair, closing_eq (d :: rest)]
      simp [upToLastQuote?, Ne.symm hc, Function.comp_def]

/-- The units make up the text. -/
theorem flatten_units : ∀ t : Text, (units t).flatten = t
  | [] => rfl
  | [c] => rfl
  | c :: d :: rest => by
    rw [units]
    split
    · rw [List.flatten_cons, flatten_units rest]
      rfl
    · rw [List.flatten_cons, flatten_units (d :: rest)]
      rfl

/-- Each part of the units is what its own text is read as. -/
theorem units_flatten_of_append : ∀ {t : Text} {us vs : List Text}, units t = us ++ vs →
    units us.flatten = us ∧ units vs.flatten = vs
  | t, [], vs, h => by
    rw [List.nil_append] at h
    exact ⟨rfl, by rw [← h, flatten_units]⟩
  | [], u :: us, vs, h => absurd h (by simp [units])
  | [c], u :: us, vs, h => by
    obtain ⟨rfl, htail⟩ := List.cons.inj h
    obtain ⟨rfl, rfl⟩ := List.append_eq_nil_iff.mp htail.symm
    exact ⟨rfl, rfl⟩
  | c :: d :: rest, u :: us, vs, h => by
    rw [units] at h
    by_cases hpair : c = '\\' ∧ d ≠ '\n'
    · rw [if_pos hpair] at h
      obtain ⟨rfl, htail⟩ := List.cons.inj h
      obtain ⟨hus, hvs⟩ := units_flatten_of_append htail
      refine ⟨?_, hvs⟩
      rw [List.flatten_cons, List.cons_append, List.singleton_append, units, if_pos hpair, hus]
    · rw [if_neg hpair] at h
      obtain ⟨rfl, htail⟩ := List.cons.inj h
      obtain ⟨hus, hvs⟩ := units_flatten_of_append htail
      refine ⟨?_, hvs⟩
      -- the next unit begins with the same character, if there is one
      have hhead : us.flatten = [] ∨ ∃ z, us.flatten = d :: z := by
        have hflatten : us.flatten ++ vs.flatten = d :: rest := by
          rw [← List.flatten_append, ← flatten_units (d :: rest), htail]
          rfl
        cases hus : us.flatten with
        | nil => exact .inl rfl
        | cons e z =>
          rw [hus] at hflatten
          exact .inr ⟨z, by rw [(List.cons.inj hflatten).1]⟩
      rw [List.flatten_cons, List.singleton_append]
      rcases hhead with hnil | ⟨z, hz⟩
      · rw [hnil, ← hus, hnil]
        rfl
      · rw [hz, units, if_neg hpair, ← hz, hus]

/-- What a literal takes ends with a quote: one that is read alone, or the last one if no quote is
read alone. -/
theorem exists_of_taken? {w : Text} (h : taken? rest = some w) :
    ∃ x y, rest = x ++ '"' :: y ∧ w = x ++ ['"'] ∧
      (units rest = units x ++ ['"'] :: units y ∨ ['"'] ∉ units rest ∧ '"' ∉ y) := by
  unfold taken? at h
  split at h
  · rename_i hmem
    obtain ⟨us, vs, hunits, hus⟩ := List.eq_append_cons_of_mem hmem
    have hne : ∀ u ∈ us, (u != ['"']) = true := by
      intro u hu
      rw [bne_iff_ne]
      rintro rfl
      exact hus hu
    have htake : (units rest).takeWhile (· != ['"']) = us := by
      rw [hunits, List.takeWhile_append_of_pos hne]
      simp
    have hvs : units rest = (us ++ [['"']]) ++ vs := by rw [hunits, List.append_cons]
    refine ⟨us.flatten, vs.flatten, ?_, ?_, .inl ?_⟩
    · rw [← flatten_units rest, hunits, List.flatten_append, List.flatten_cons]
      rfl
    · rw [← Option.some.inj h, htake]
    · rw [(units_flatten_of_append hunits).1, (units_flatten_of_append hvs).2, hunits]
  · rename_i hmem
    obtain ⟨x, y, hrest, hy, hw⟩ := exists_of_upToLastQuote? h
    exact ⟨x, y, hrest, hw, .inr ⟨hmem, hy⟩⟩

/-! ## The scan -/

/-- A match behind `a` begins with a quote that some other quote follows. -/
theorem exists_of_matchesAt_behind {a : Text} {r : ByteRange}
    (h : MatchesAt stringPattern (a ++ rest) r) (hle : a.byteLength ≤ r.start) :
    ∃ m behind, rest = m ++ '"' :: behind ∧ r.start = (a ++ m).byteLength ∧ '"' ∈ behind := by
  obtain ⟨a', behind, n, htext, hn, rfl⟩ := matchesAt_stringPattern_iff.mp h
  obtain ⟨m, rfl, hrest⟩ := Text.exists_middle htext hle
  obtain ⟨x, y, rfl, -⟩ := exists_of_closing hn
  exact ⟨m, _, hrest, rfl, by simp⟩

/-- **The scan** chooses the matches of the string pattern from the left. -/
theorem chosenFrom_literalsFrom : ∀ rest a : Text,
    ChosenFrom (MatchesAt stringPattern (a ++ rest)) a.byteLength (literalsFrom a.byteLength rest)
  | [], a => by
    rw [literalsFrom]
    refine .done fun r hr => Nat.lt_of_not_le fun hle => ?_
    obtain ⟨m, behind, hrest, -⟩ := exists_of_matchesAt_behind hr hle
    exact absurd hrest (by simp)
  | c :: rest, a => by
    rw [literalsFrom]
    by_cases hc : c = '"'
    · subst hc
      rw [if_pos rfl]
      have hquote : '"'.utf8Size = 1 := by decide
      cases htaken : taken? rest with
      | none =>
        have hno : '"' ∉ rest := closing_eq_none_iff.mp (by rw [closing_eq, htaken]; rfl)
        refine .done fun r hr => Nat.lt_of_not_le fun hle => ?_
        obtain ⟨m, behind, hrest, -, hmem⟩ := exists_of_matchesAt_behind hr hle
        -- the quote of the match is this one or a later one, and some other quote follows
        cases m with
        | nil => exact hno ((List.cons.inj hrest).2 ▸ hmem)
        | cons x m => exact hno ((List.cons.inj hrest).2 ▸ by simp)
      | some w =>
        obtain ⟨x, y, hrest, hw, -⟩ := exists_of_taken? htaken
        have hbehind : rest = w ++ y := by rw [hrest, hw, List.append_assoc]; rfl
        have htext : a ++ '"' :: rest = (a ++ '"' :: w) ++ y := by simp [hbehind]
        have hstop : a.byteLength + 1 + w.byteLength = (a ++ '"' :: w).byteLength := by
          rw [Text.byteLength_append, Text.byteLength_cons, hquote, Nat.add_assoc]
        have hmatch : MatchesAt stringPattern (a ++ '"' :: rest)
            ⟨a.byteLength, a.byteLength + 1 + w.byteLength⟩ :=
          matchesAt_stringPattern_iff.mpr ⟨a, rest, _, rfl, by rw [closing_eq, htaken]; rfl, rfl⟩
        have hlength : y.length < rest.length + 1 := by rw [hbehind, List.length_append]; omega
        refine .next hmatch (Nat.le_refl _) (fun s _ hs => hs) ?_
        have hdrop : rest.drop w.length = y := by rw [hbehind, List.drop_left]
        have hscan := chosenFrom_literalsFrom y (a ++ '"' :: w)
        rwa [← htext, ← hstop, ← hdrop] at hscan
    · rw [if_neg hc]
      have hone : a.byteLength + c.utf8Size = (a ++ [c]).byteLength := by
        simp [Text.byteLength_append]
      have hscan := chosenFrom_literalsFrom rest (a ++ [c])
      rw [List.append_assoc, List.singleton_append, ← hone] at hscan
      refine hscan.of_le (Nat.le_add_right _ _) fun r hr hle => ?_
      obtain ⟨m, behind, hrest, hstart, -⟩ := exists_of_matchesAt_behind hr hle
      cases m with
      | nil => exact absurd (List.cons.inj hrest).1 hc
      | cons x m =>
        obtain ⟨rfl, -⟩ := List.cons.inj hrest
        rw [hstart, Text.byteLength_append, Text.byteLength_cons]
        omega
termination_by rest => rest.length
decreasing_by all_goals simp only [List.length_cons]; omega

/-- **String literals** are what the scan finds from the beginning of the text on. -/
theorem matchesOf_stringLiteral_eq_literalsFrom (text : Text) :
    matchesOf stringLiteral text = literalsFrom 0 text := by
  rw [matchesOf_stringLiteral]
  exact ((chosenFrom_matchesAt_iff rfl).mp (chosenFrom_literalsFrom text [])).symm

/-! ## Backslashes before the closing quote -/

/-- The number of backslashes at the end of a text. -/
def slashes (t : Text) : Nat := (t.rtakeWhile (· == '\\')).length

theorem slashes_concat (t : Text) (c : Char) :
    slashes (t ++ [c]) = if c = '\\' then slashes t + 1 else 0 := by
  unfold slashes
  rw [List.rtakeWhile_concat]
  by_cases hc : c = '\\' <;> simp [hc]

/-- With an odd number of backslashes at the end, all but the last one make pairs. -/
theorem exists_concat_of_not_even {t : Text} (h : ¬Even (slashes t)) :
    ∃ z, t = z ++ ['\\'] ∧ Even (slashes z) := by
  rcases List.eq_nil_or_concat' t with rfl | ⟨z, c, rfl⟩
  · exact absurd Even.zero h
  · rw [slashes_concat] at h
    by_cases hc : c = '\\'
    · rw [if_pos hc, Nat.even_add_one, not_not] at h
      exact ⟨z, by rw [hc], h⟩
    · exact absurd Even.zero (by rwa [if_neg hc] at h)

/-- Two characters of which the first is a backslash are read on their own, whatever follows. -/
theorem units_slash_append (c : Char) (v : Text) :
    units ('\\' :: c :: v) = units ['\\', c] ++ units v := by
  by_cases hc : c = '\n'
  · subst hc
    rw [units, if_neg (by simp), units_cons (by decide)]
    rfl
  · rw [units, units, if_pos ⟨rfl, hc⟩, if_pos ⟨rfl, hc⟩]
    rfl

/-- **Behind an even number of backslashes** the text is read as if it began there. -/
theorem units_append_of_even (v : Text) (x : Text) (h : Even (slashes x)) :
    units (x ++ v) = units x ++ units v := by
  rcases List.eq_nil_or_concat' x with rfl | ⟨z, c, rfl⟩
  · rfl
  by_cases hz : Even (slashes z)
  · -- the last character is read alone
    have hc : c ≠ '\\' := by
      rintro rfl
      rw [slashes_concat, if_pos rfl, Nat.even_add_one] at h
      exact h hz
    rw [List.append_assoc, List.singleton_append, units_append_of_even (c :: v) z hz,
      units_append_of_even [c] z hz, units_cons hc, List.append_assoc]
    rfl
  · -- the last two characters are read on their own
    obtain ⟨y, rfl, hy⟩ := exists_concat_of_not_even hz
    rw [List.append_assoc y, List.append_assoc y]
    change units (y ++ '\\' :: c :: v) = units (y ++ ['\\', c]) ++ units v
    rw [units_append_of_even ('\\' :: c :: v) y hy, units_append_of_even ['\\', c] y hy,
      units_slash_append, List.append_assoc]
termination_by x.length
decreasing_by all_goals subst_vars; simp only [List.length_append, List.length_singleton]; omega

/-- **A quote is read alone** exactly behind an even number of backslashes. -/
theorem even_slashes_iff {x y : Text} :
    Even (slashes x) ↔ units (x ++ '"' :: y) = units x ++ ['"'] :: units y := by
  constructor
  · intro h
    rw [units_append_of_even _ x h, units_cons (by decide)]
  · intro h
    by_contra hodd
    obtain ⟨z, rfl, hz⟩ := exists_concat_of_not_even hodd
    have hpair : units (z ++ ['\\'] ++ '"' :: y) = (units z ++ [['\\', '"']]) ++ units y := by
      rw [List.append_assoc, List.singleton_append, units_append_of_even _ z hz, units_slash_append,
        List.append_assoc]
      rfl
    rw [hpair, List.append_cons (units (z ++ _)), List.append_cancel_right_eq] at h
    exact absurd (List.append_inj_right' h rfl) (by simp)

/-- **The backslashes before the closing quote** of a literal are even in number, that is, the quote
is not escaped, unless all quotes behind the opening one are escaped; then it is the last quote of
the text. -/
theorem even_slashes_of_mem_matchesOf {text : Text} {r : ByteRange}
    (h : r ∈ matchesOf stringLiteral text) :
    ∃ a x b : Text, text = a ++ '"' :: (x ++ '"' :: b) ∧
      r = ⟨a.byteLength, (a ++ '"' :: (x ++ ['"'])).byteLength⟩ ∧
      (Even (slashes x) ↔ ['"'] ∈ units (x ++ '"' :: b)) ∧ (¬Even (slashes x) → '"' ∉ b) := by
  rw [matchesOf_stringLiteral] at h
  obtain ⟨a, rest, n, rfl, hn, rfl⟩ := matchesAt_stringPattern_iff.mp (matchesAt_of_mem_findAll h)
  rw [closing_eq] at hn
  obtain ⟨w, hw, rfl⟩ := Option.map_eq_some_iff.mp hn
  obtain ⟨x, b, rfl, rfl, hclose⟩ := exists_of_taken? hw
  refine ⟨a, x, b, rfl, ?_, ?_, ?_⟩
  · have hquote : '"'.utf8Size = 1 := by decide
    rw [Text.byteLength_append a, Text.byteLength_cons, hquote, Nat.add_assoc]
  · rcases hclose with halone | ⟨hnone, -⟩
    · exact iff_of_true (even_slashes_iff.mpr halone) (by rw [halone]; simp)
    · refine iff_of_false (fun heven => hnone ?_) hnone
      rw [even_slashes_iff.mp heven]
      simp
  · intro hodd
    rcases hclose with halone | ⟨-, hlast⟩
    · exact absurd (even_slashes_iff.mpr halone) hodd
    · exact hlast

/-- In the text `"\"` a literal takes the escaped quote. -/
theorem mem_matchesOf_escaped : ⟨0, 3⟩ ∈ matchesOf stringLiteral ['"', '\\', '"'] := by
  rw [matchesOf_stringLiteral]
  decide +kernel

theorem even_slashes_of_mem_matchesOf_escaped :
    ⟨0, 3⟩ ∈ matchesOf stringLiteral ['"', '\\', '"'] ∧
    ∃ a x b : Text, ['"', '\\', '"'] = a ++ '"' :: (x ++ '"' :: b) ∧
      (⟨0, 3⟩ : ByteRange) = ⟨a.byteLength, (a ++ '"' :: (x ++ ['"'])).byteLength⟩ ∧
      (Even (slashes x) ↔ ['"'] ∈ units (x ++ '"' :: b)) ∧ (¬Even (slashes x) → '"' ∉ b) :=
  ⟨mem_matchesOf_escaped, even_slashes_of_mem_matchesOf mem_matchesOf_escaped⟩

/-- **Escaped quotes close literals too**: the only quote behind the opening one of `"\"` stands
behind one backslash. -/
theorem not_every_closing_quote : ¬ ∀ a x b : Text,
    ⟨a.byteLength, (a ++ '"' :: (x ++ ['"'])).byteLength⟩ ∈
      matchesOf stringLiteral (a ++ '"' :: (x ++ '"' :: b)) → Even (slashes x) := by
  intro h
  exact absurd (h [] ['\\'] [] mem_matchesOf_escaped) (by decide)

end FaustLens.Faust
