import FaustLens.Proofs.Faust.Layers

/-!
# Numbers in code

Of the rules for numbers (`float` and `integer` in `faust_rules`, `syntax::faust`), the integer rule
matches the words of digits only, and the float rule matches across words: a word of digits, a
point, and a word that holds the fraction, perhaps with an exponent, or that ends with the letter of
an exponent behind which a sign and a third word follow (`FloatLiteral`). Which of these literals
are matches is decided from the left, as in `1.2.3`. The integer rule repaints the words of digits
in a literal, so that what remains of the float is the point, the word with an exponent and the
sign.

Results:
* `solid_floatText`: at one place and before no word character there is one float at most.
* `matchesAt_floatPattern_iff`: where the float rule can match.
* `FloatLiteral.mem_core_iff`: the bytes of a literal that are in no word of digits.
* `number_category_iff`: integers and floats outside of comments and strings.
-/

namespace FaustLens.Faust

open Pattern

variable {text : Text} {b : Nat} {m core r s t : ByteRange} {a ds fs es v w z : Text} {x y : Char}

/-! ## The rules for numbers -/

/-- The pattern of integers. -/
def integerPattern : Pattern :=
  cat (cat boundary (repeated (one (.range '0' '9')) 1 none true)) boundary

theorem pattern_of_numbers : ∀ r ∈ codeRules,
    (r.category = .float → r.pattern = floatPattern) ∧
      (r.category = .integer → r.pattern = integerPattern) := by
  decide +kernel

theorem pattern_floatLiteral : floatLiteral.map (·.pattern) = some floatPattern := by
  decide +kernel

theorem matchesOf_floatLiteral (text : Text) :
    matchesOf floatLiteral text = floatPattern.findAll text := by
  obtain ⟨rule, hrule, hpattern⟩ := Option.map_eq_some_iff.mp pattern_floatLiteral
  unfold matchesOf
  rw [hrule, ← hpattern]
  rfl

theorem covered_float_iff : Covered .float text b ↔ ∃ m ∈ matchesOf floatLiteral text, b ∈ m := by
  obtain ⟨r, hr, hcategory⟩ := exists_rule (c := .float) (by decide)
  have hiff : Covered r.category text b ↔ ∃ m ∈ r.pattern.findAll text, b ∈ m :=
    covered_iff_of_mem hr
  rwa [hcategory, (pattern_of_numbers r hr).1 hcategory, ← matchesOf_floatLiteral] at hiff

/-- The byte is in a word of digits. -/
def InDigits (text : Text) (b : Nat) : Prop :=
  ∃ r a w z, WordRun text r a w z ∧ b ∈ r ∧ Digits w

/-- **The integer rule** matches the words of digits. -/
theorem mem_findAll_integerPattern_iff :
    m ∈ integerPattern.findAll text ↔ ∃ a w z, WordRun text m a w z ∧ Digits w :=
  mem_findAll_iff_of_words rfl (fun _ => reads_digits.bounded) (fun _ hw => hw.2)
    fun _ hw c hc => isWord_of_isDigit (hw.1 c hc)

theorem covered_integer_iff : Covered .integer text b ↔ InDigits text b := by
  obtain ⟨r, hr, hcategory⟩ := exists_rule (c := .integer) (by decide)
  have hiff : Covered r.category text b ↔ ∃ m ∈ r.pattern.findAll text, b ∈ m :=
    covered_iff_of_mem hr
  rw [hcategory, (pattern_of_numbers r hr).2 hcategory] at hiff
  unfold InDigits
  rw [hiff]
  simp only [mem_findAll_integerPattern_iff]
  constructor
  · rintro ⟨m, ⟨a, w, z, hrun, hw⟩, hb⟩
    exact ⟨m, a, w, z, hrun, hb, hw⟩
  · rintro ⟨m, a, w, z, hrun, hb, hw⟩
    exact ⟨m, ⟨a, w, z, hrun, hw⟩, hb⟩

theorem not_mem_layersOf_composition : ∀ v ∈ symbolsOf .compositionOperator, ∀ x ∈ v.toList,
    .float ∉ layersOf x ∧ .integer ∉ layersOf x := by
  have hall : ∀ v ∈ symbolsOf .compositionOperator, v.toList.all (fun x =>
      !(layersOf x).contains .float && !(layersOf x).contains .integer) = true := by
    decide +kernel
  intro v hv x hx
  simpa using List.all_eq_true.mp (hall v hv) x hx

/-- No operator for a composition stands in a number. -/
theorem not_covered_composition {c : Category} (hc : c = .float ∨ c = .integer)
    (h : Covered c text b) : ¬ Covered .compositionOperator text b := by
  intro hcomposition
  obtain ⟨a, x, z, hat⟩ := Text.CharAt.exists_of_lt h.lt
  obtain ⟨v, hv, hx⟩ := hcomposition.exists_symbol (by decide) hat
  have hno := not_mem_layersOf_composition v hv x hx
  rcases hc with rfl | rfl
  · exact hno.1 (h.mem_layersOf hat)
  · exact hno.2 (h.mem_layersOf hat)

/-! ## The texts of floats -/

theorem not_isDigit_of_not_isWord {c : Char} (h : Unicode.isWord c = false) :
    ¬ c.isDigit = true := by
  intro hdigit
  rw [isWord_of_isDigit hdigit] at h
  exact absurd h (by simp)

theorem isWord_of_exponent (hx : x = 'e' ∨ x = 'E') : Unicode.isWord x = true := by
  rcases hx with rfl | rfl <;> decide

theorem not_isDigit_of_exponent (hx : x = 'e' ∨ x = 'E') : ¬ x.isDigit = true := by
  rcases hx with rfl | rfl <;> decide

theorem Digits.head? (h : Digits ds) : ∃ d ∈ ds.head?, d.isDigit = true := by
  obtain ⟨d, ds, rfl⟩ := List.exists_cons_of_ne_nil h.2
  exact ⟨d, rfl, h.1 d List.mem_cons_self⟩

/-- Digits end where no digit follows. -/
theorem Digits.eq_of_append {y : Text} (hv : Digits v) (hw : Digits w)
    (hy : ∀ c ∈ y.head?, ¬ c.isDigit = true) (hz : ∀ c ∈ z.head?, ¬ c.isDigit = true)
    (h : v ++ y = w ++ z) : v = w ∧ y = z := Text.eq_of_run hv.1 hw.1 hy hz h

/-- An exponent is a run of characters that are no digits, and one of digits. -/
theorem ExponentText.exists_runs (h : ExponentText v) : ∃ u es, v = u ++ es ∧
    (∀ c ∈ u, ¬ c.isDigit = true) ∧ (∃ x ∈ u.head?, Unicode.isWord x = true) ∧ Digits es := by
  obtain ⟨x, sign, es, rfl, hx, hsign, hes⟩ := h
  refine ⟨x :: sign, es, rfl, ?_, ⟨x, rfl, isWord_of_exponent hx⟩, hes⟩
  have hno := not_isDigit_of_exponent hx
  rcases hsign with rfl | rfl | rfl <;> simpa using hno

/-- Before no word character an exponent, or its absence, is told by its characters. -/
theorem exponent_unique {y : Text} (hv : v = [] ∨ ExponentText v) (hw : w = [] ∨ ExponentText w)
    (hy : ∀ c ∈ y.head?, Unicode.isWord c = false) (hz : ∀ c ∈ z.head?, Unicode.isWord c = false)
    (h : v ++ y = w ++ z) : v = w := by
  -- without an exponent, the letter of the other one would follow
  have hletter : ∀ {u v : Text}, ExponentText v → (∃ z, u = v ++ z) →
      ¬ ∀ c ∈ u.head?, Unicode.isWord c = false := by
    rintro _ _ ⟨x, sign, es, rfl, hx, -⟩ ⟨z, rfl⟩ hno
    have hx' := hno x rfl
    rw [isWord_of_exponent hx] at hx'
    exact absurd hx' (by simp)
  rcases hv with rfl | hv <;> rcases hw with rfl | hw
  · rfl
  · exact absurd hy (hletter hw ⟨z, h⟩)
  · exact absurd hz (hletter hv ⟨y, h.symm⟩)
  · obtain ⟨u, es, rfl, hu, -, hes⟩ := hv.exists_runs
    obtain ⟨u', es', rfl, hu', -, hes'⟩ := hw.exists_runs
    have hfront : ∀ {es y : Text}, Digits es → ∀ c ∈ (es ++ y).head?, ¬ ¬ c.isDigit = true := by
      intro es y hes c hc
      obtain ⟨d, hd, hdigit⟩ := hes.head?
      rw [List.head?_append, Option.mem_def.mp hd] at hc
      rw [← Option.some.inj hc]
      exact not_not_intro hdigit
    rw [List.append_assoc, List.append_assoc] at h
    obtain ⟨rfl, htail⟩ := Text.eq_of_run hu hu' (hfront hes) (hfront hes') h
    rw [(hes.eq_of_append hes' (fun c hc => not_isDigit_of_not_isWord (hy c hc))
      (fun c hc => not_isDigit_of_not_isWord (hz c hc)) htail).1]

/-- **At one place there is one float at most**, among those before no word character. -/
theorem solid_floatText : Solid FloatText where
  head h := by
    obtain ⟨ds, fs, ex, rfl, hds, -⟩ := h
    obtain ⟨d, hd, hdigit⟩ := hds.head?
    refine ⟨d, ?_, isWord_of_isDigit hdigit⟩
    rw [List.append_assoc, List.head?_append, Option.mem_def.mp hd]
    rfl
  last h := by
    obtain ⟨ds, fs, ex, rfl, -, hfs, hex⟩ := h
    have hlast : ∃ d ∈ (fs ++ ex).getLast?, d.isDigit = true := by
      rcases hex with rfl | ⟨x, sign, es, rfl, -, -, hes⟩
      · rw [List.append_nil]
        exact hfs.getLast?
      · obtain ⟨d, hd, hdigit⟩ := hes.getLast?
        refine ⟨d, ?_, hdigit⟩
        rw [← List.cons_append, ← List.append_assoc, List.getLast?_append, Option.mem_def.mp hd]
        rfl
    obtain ⟨d, hd, hdigit⟩ := hlast
    refine ⟨d, ?_, isWord_of_isDigit hdigit⟩
    rw [List.append_assoc, List.cons_append, List.getLast?_append, List.getLast?_cons,
      Option.mem_def.mp hd]
    rfl
  unique {v w y z} hv hw hy hz h := by
    obtain ⟨ds, fs, ex, rfl, hds, hfs, hex⟩ := hv
    obtain ⟨ds', fs', ex', rfl, hds', hfs', hex'⟩ := hw
    have hpoint : ∀ rest : Text, ∀ c ∈ ('.' :: rest).head?, ¬ c.isDigit = true := by
      intro rest c hc
      rw [← Option.some.inj hc]
      decide
    have hback : ∀ {ex y : Text}, (ex = [] ∨ ExponentText ex) →
        (∀ c ∈ y.head?, Unicode.isWord c = false) → ∀ c ∈ (ex ++ y).head?, ¬ c.isDigit = true := by
      rintro ex y (rfl | ⟨x, sign, es, rfl, hx, -⟩) hy c hc
      · exact not_isDigit_of_not_isWord (hy c hc)
      · rw [← Option.some.inj hc]
        exact not_isDigit_of_exponent hx
    simp only [List.append_assoc, List.cons_append] at h
    obtain ⟨rfl, hrest⟩ := hds.eq_of_append hds' (hpoint _) (hpoint _) h
    obtain ⟨rfl, hlast⟩ :=
      hfs.eq_of_append hfs' (hback hex hy) (hback hex' hz) (List.cons.inj hrest).2
    rw [exponent_unique hex hex' hy hz hlast]

/-! ## Literals across words -/

/-- The word `ds` of digits, at `r`, a point, and the word `w` at `s`. -/
structure PointedWords (text : Text) (r s : ByteRange) (a ds w z : Text) : Prop where
  digits : Digits ds
  whole : WordRun text r a ds ('.' :: (w ++ z))
  fraction : WordRun text s (a ++ ds ++ ['.']) w z

/-- The range `m` of the text holds a float literal, and `core` is the part of it that is in no word
of digits. A literal is a word of digits, a point, and
* a word of digits, or
* a word with an exponent: digits, one of the letters `e` and `E`, and digits, or
* a word of digits with one of these letters behind, a sign, and a word of digits. -/
inductive FloatLiteral (text : Text) : (m core : ByteRange) → Prop
  | fraction {r s : ByteRange} {a ds fs z : Text} : PointedWords text r s a ds fs z → Digits fs →
      FloatLiteral text ⟨r.start, s.stop⟩ ⟨r.stop, s.start⟩
  | exponent {r s : ByteRange} {a ds fs es z : Text} {x : Char} :
      PointedWords text r s a ds (fs ++ x :: es) z → Digits fs → (x = 'e' ∨ x = 'E') → Digits es →
      FloatLiteral text ⟨r.start, s.stop⟩ ⟨r.stop, s.stop⟩
  | signed {r s t : ByteRange} {a ds fs es z : Text} {x y : Char} :
      PointedWords text r s a ds (fs ++ [x]) (y :: (es ++ z)) → Digits fs → (x = 'e' ∨ x = 'E') →
      (y = '+' ∨ y = '-') → WordRun text t (a ++ ds ++ ['.'] ++ (fs ++ [x]) ++ [y]) es z →
      Digits es → FloatLiteral text ⟨r.start, t.stop⟩ ⟨r.stop, t.start⟩

theorem not_isWord_point : Unicode.isWord '.' = false := by
  decide

theorem not_isWord_sign (hy : y = '+' ∨ y = '-') : Unicode.isWord y = false := by
  rcases hy with rfl | rfl <;> decide

theorem pointedWords_of_text (htext : text = a ++ (ds ++ '.' :: (w ++ z))) (hds : Digits ds)
    (hw : w ≠ []) (hword : ∀ c ∈ w, Unicode.isWord c = true)
    (hstart : ∀ c ∈ a.getLast?, Unicode.isWord c = false)
    (hstop : ∀ c ∈ z.head?, Unicode.isWord c = false) :
    PointedWords text ⟨a.byteLength, (a ++ ds).byteLength⟩
      ⟨(a ++ ds ++ ['.']).byteLength, (a ++ ds ++ ['.'] ++ w).byteLength⟩ a ds w z where
  digits := hds
  whole := by
    refine wordRun_of_text htext hds.2 (fun c hc => isWord_of_isDigit (hds.1 c hc)) hstart
      fun c hc => ?_
    rw [← Option.some.inj hc]
    exact not_isWord_point
  fraction := by
    refine wordRun_of_text (by rw [htext]; simp) hw hword (fun c hc => ?_) hstop
    rw [List.getLast?_concat] at hc
    rw [← Option.some.inj hc]
    exact not_isWord_point

theorem PointedWords.detached (h : PointedWords text r s a ds w z) :
    Detached text ⟨r.start, s.stop⟩ a (ds ++ '.' :: w) z := by
  refine ⟨⟨by simpa using h.whole.text_eq, ?_⟩, h.whole.start, h.fraction.stop⟩
  rw [h.whole.range_eq, h.fraction.range_eq]
  simp

/-- **Where the float rule can match**: at the literals. -/
theorem matchesAt_floatPattern_iff :
    MatchesAt floatPattern text m ↔ ∃ core, FloatLiteral text m core := by
  rw [matchesAt_iff_of_bounded bounded_floatPattern solid_floatText]
  constructor
  · rintro ⟨a, _, z, ⟨⟨htext, rfl⟩, hstart, hstop⟩, ds, fs, ex, rfl, hds, hfs, hex⟩
    have hword : ∀ {w}, Digits w → ∀ c ∈ w, Unicode.isWord c = true := fun hw c hc =>
      isWord_of_isDigit (hw.1 c hc)
    rcases hex with rfl | ⟨x, sign, es, rfl, hx, hsign, hes⟩
    · have h := pointedWords_of_text (w := fs) (by simpa using htext) hds hfs.2 (hword hfs)
        hstart hstop
      exact ⟨_, by simpa using FloatLiteral.fraction h hfs⟩
    · have hx' := isWord_of_exponent hx
      rcases hsign with rfl | hsign
      · have h := pointedWords_of_text (w := fs ++ x :: es) (by simpa using htext) hds (by simp)
          (by simpa [or_imp, forall_and, hx'] using ⟨hword hfs, hword hes⟩) hstart hstop
        exact ⟨_, by simpa using FloatLiteral.exponent h hfs hx hes⟩
      · obtain ⟨y, rfl, hy⟩ : ∃ y, sign = [y] ∧ (y = '+' ∨ y = '-') := by
          rcases hsign with rfl | rfl
          · exact ⟨'-', rfl, Or.inr rfl⟩
          · exact ⟨'+', rfl, Or.inl rfl⟩
        have hy' := not_isWord_sign hy
        have h := pointedWords_of_text (w := fs ++ [x]) (z := y :: (es ++ z)) (by simpa using htext)
          hds (by simp) (by simpa [or_imp, forall_and, hx'] using hword hfs) hstart
          (by simpa using hy')
        have ht : WordRun text _ (a ++ ds ++ ['.'] ++ (fs ++ [x]) ++ [y]) es z :=
          wordRun_of_text (by simpa using htext) hes.2 (hword hes)
            (by rw [List.getLast?_concat]; simpa using hy') hstop
        exact ⟨_, by simpa using FloatLiteral.signed h hfs hx hy ht hes⟩
  · rintro ⟨core, h⟩
    cases h with
    | fraction h hfs =>
      exact ⟨_, _, _, h.detached, _, _, [], by simp, h.digits, hfs, Or.inl rfl⟩
    | @exponent r s a ds fs es z x h hfs hx hes =>
      exact ⟨_, _, _, h.detached, ds, fs, x :: ([] ++ es), by simp, h.digits, hfs,
        Or.inr ⟨x, [], es, rfl, hx, Or.inl rfl, hes⟩⟩
    | @signed r s t a ds fs es z x y h hfs hx hy ht hes =>
      have hparts : text.Parts ⟨r.start, t.stop⟩ a (ds ++ '.' :: fs ++ x :: ([y] ++ es)) z := by
        refine ⟨by simpa using ht.text_eq, ?_⟩
        rw [h.whole.range_eq, ht.range_eq]
        simp
      refine ⟨_, _, _, ⟨hparts, h.whole.start, ht.stop⟩, ds, fs, x :: ([y] ++ es), rfl, h.digits, hfs,
        Or.inr ⟨x, [y], es, rfl, hx, Or.inr ?_, hes⟩⟩
      rcases hy with rfl | rfl
      · exact Or.inr rfl
      · exact Or.inl rfl

/-! ## What remains of a float -/

/-- A character that is no digit is in no word of digits. -/
theorem not_inDigits_of_charAt (hat : text.CharAt b a x z) (hx : ¬ x.isDigit = true) :
    ¬ InDigits text b := by
  rintro ⟨r, a', w, z', hrun, hb, hw⟩
  obtain ⟨u, v, rfl, -, -⟩ := hat.exists_split hrun.toParts hb
  exact hx (hw.1 x (by simp))

/-- A word with another character is no word of digits. -/
theorem not_inDigits_of_wordRun (h : WordRun text r a w z) (hb : b ∈ r) (hx : x ∈ w)
    (hno : ¬ x.isDigit = true) : ¬ InDigits text b := by
  rintro ⟨r', a', w', z', h', hb', hw'⟩
  obtain ⟨-, rfl⟩ := h.eq_of_mem h' hb hb'
  exact hno (hw'.1 x hx)

namespace PointedWords

/-- The point is the one byte between the two words. -/
theorem point (h : PointedWords text r s a ds w z) :
    s.start = r.stop + 1 ∧ ¬ InDigits text r.stop := by
  have hstop : r.stop = (a ++ ds).byteLength := by rw [h.whole.range_eq]
  have hstart : s.start = (a ++ ds).byteLength + 1 := by
    rw [h.fraction.range_eq, Text.byteLength_append (a ++ ds)]
    rfl
  refine ⟨by omega, not_inDigits_of_charAt (a := a ++ ds) (z := w ++ z) ⟨h.whole.text_eq, ?_, ?_⟩
    (show ¬ '.'.isDigit = true by decide)⟩
  · exact Nat.le_of_eq hstop.symm
  · rw [Text.byteLength_append (a ++ ds), hstop]
    exact Nat.lt_succ_self _

/-- A byte of the literal that is in no word of digits is behind its first word. -/
theorem stop_le (h : PointedWords text r s a ds w z) (hb : r.start ≤ b) (hno : ¬ InDigits text b) :
    r.stop ≤ b :=
  Nat.le_of_not_lt fun hlt => hno ⟨r, a, ds, _, h.whole, ⟨hb, hlt⟩, h.digits⟩

end PointedWords

/-- **The core of a literal** holds those of its bytes that are in no word of digits: the point, the
word with the letter of an exponent, and the sign. -/
theorem FloatLiteral.mem_core_iff (h : FloatLiteral text m core) :
    b ∈ core ↔ b ∈ m ∧ ¬ InDigits text b := by
  cases h with
  | @fraction r s a ds fs z h hfs =>
    simp only [ByteRange.mem_def]
    obtain ⟨hstart, hpoint⟩ := h.point
    have hr := h.whole.start_lt_stop
    have hs := h.fraction.start_lt_stop
    constructor
    · rintro ⟨hle, hlt⟩
      obtain rfl : b = r.stop := by omega
      exact ⟨by omega, hpoint⟩
    · rintro ⟨⟨hle, hlt⟩, hno⟩
      refine ⟨h.stop_le hle hno, Nat.lt_of_not_le fun hge => hno ?_⟩
      exact ⟨s, _, fs, z, h.fraction, ⟨hge, hlt⟩, hfs⟩
  | @exponent r s a ds fs es z x h hfs hx hes =>
    simp only [ByteRange.mem_def]
    obtain ⟨hstart, hpoint⟩ := h.point
    have hr := h.whole.start_lt_stop
    have hs := h.fraction.start_lt_stop
    constructor
    · rintro ⟨hle, hlt⟩
      refine ⟨by omega, ?_⟩
      by_cases hb : s.start ≤ b
      · exact not_inDigits_of_wordRun h.fraction ⟨hb, hlt⟩ (x := x) (by simp)
          (not_isDigit_of_exponent hx)
      · obtain rfl : b = r.stop := by omega
        exact hpoint
    · rintro ⟨⟨hle, hlt⟩, hno⟩
      exact ⟨h.stop_le hle hno, hlt⟩
  | @signed r s t a ds fs es z x y h hfs hx hy ht hes =>
    simp only [ByteRange.mem_def]
    obtain ⟨hstart, hpoint⟩ := h.point
    have hr := h.whole.start_lt_stop
    have hs := h.fraction.start_lt_stop
    have ht' := ht.start_lt_stop
    constructor
    · rintro ⟨hle, hlt⟩
      have hsign : s.stop ≤ t.start := by
        rw [h.fraction.range_eq, ht.range_eq, Text.byteLength_append _ [y]]
        exact Nat.le_add_right _ _
      refine ⟨by omega, ?_⟩
      by_cases hb : b < s.stop
      · by_cases hb' : s.start ≤ b
        · exact not_inDigits_of_wordRun h.fraction ⟨hb', hb⟩ (x := x) (by simp)
            (not_isDigit_of_exponent hx)
        · obtain rfl : b = r.stop := by omega
          exact hpoint
      · -- between the second word and the third there is the sign
        have hat : text.CharAt b (a ++ ds ++ ['.'] ++ (fs ++ [x])) y (es ++ z) := by
          refine ⟨h.fraction.text_eq, ?_, ?_⟩
          · rw [h.fraction.range_eq] at hb
            exact Nat.le_of_not_lt hb
          · rw [ht.range_eq] at hlt
            exact hlt
        exact not_inDigits_of_charAt hat (not_isDigit_of_not_isWord (not_isWord_sign hy))
    · rintro ⟨⟨hle, hlt⟩, hno⟩
      refine ⟨h.stop_le hle hno, Nat.lt_of_not_le fun hge => hno ?_⟩
      exact ⟨t, _, es, z, ht, ⟨hge, hlt⟩, hes⟩

/-- **The integers** are the bytes of the words of digits. -/
theorem categoryAt_eq_integer_iff (hcomment : highlighter.categoryAt text b ≠ some .comment)
    (hstring : highlighter.categoryAt text b ≠ some .string) :
    highlighter.categoryAt text b = some .integer ↔ InDigits text b := by
  rw [categoryAt_eq_iff_of_layers (by decide) hcomment hstring, ← covered_integer_iff]
  refine and_iff_left_of_imp fun h d hd => ?_
  obtain rfl := List.mem_singleton.mp hd
  exact not_covered_composition (Or.inr rfl) h

/-- **The floats** are the other bytes of the matches of the float rule. -/
theorem categoryAt_eq_float_iff (hcomment : highlighter.categoryAt text b ≠ some .comment)
    (hstring : highlighter.categoryAt text b ≠ some .string) :
    highlighter.categoryAt text b = some .float ↔
      (∃ m ∈ matchesOf floatLiteral text, b ∈ m) ∧ ¬ InDigits text b := by
  have hlayers : layersAbove .float = [.integer, .compositionOperator] := by decide
  rw [categoryAt_eq_iff_of_layers (by decide) hcomment hstring, hlayers, ← covered_float_iff,
    ← covered_integer_iff]
  constructor
  · rintro ⟨h, hno⟩
    exact ⟨h, hno _ (by simp)⟩
  · rintro ⟨h, hno⟩
    refine ⟨h, fun d hd => ?_⟩
    rcases List.mem_cons.mp hd with rfl | hd
    · exact hno
    · obtain rfl := List.mem_singleton.mp hd
      exact not_covered_composition (Or.inl rfl) h

/-- **Integers and floats**: outside of comments and strings,
* the integers are the words of digits;
* the matches of the float rule are the literals, chosen from the left without overlap;
* the floats are the bytes of a chosen literal that are no integers, which are those of its core. -/
theorem number_category_iff {text : Text} {b : Nat}
    (hcomment : highlighter.categoryAt text b ≠ some .comment)
    (hstring : highlighter.categoryAt text b ≠ some .string) :
    (highlighter.categoryAt text b = some .integer ↔
      ∃ r a w z, WordRun text r a w z ∧ b ∈ r ∧ Digits w) ∧
    (∀ ms, ChosenFrom (fun m => ∃ core, FloatLiteral text m core) 0 ms ↔
      ms = matchesOf floatLiteral text) ∧
    (highlighter.categoryAt text b = some .float ↔
      (∃ m ∈ matchesOf floatLiteral text, b ∈ m) ∧
        highlighter.categoryAt text b ≠ some .integer) ∧
    (highlighter.categoryAt text b = some .float ↔
      ∃ m ∈ matchesOf floatLiteral text, ∃ core, FloatLiteral text m core ∧ b ∈ core) := by
  have hinteger := categoryAt_eq_integer_iff hcomment hstring
  have hfloat := categoryAt_eq_float_iff hcomment hstring
  have hchosen : ∀ {m}, m ∈ matchesOf floatLiteral text → ∃ core, FloatLiteral text m core := by
    intro m hm
    rw [matchesOf_floatLiteral] at hm
    exact matchesAt_floatPattern_iff.mp (matchesAt_of_mem_findAll hm)
  refine ⟨hinteger, fun ms => ?_, ?_, ?_⟩
  · have hliteral : (fun m => ∃ core, FloatLiteral text m core) = MatchesAt floatPattern text :=
      funext fun m => propext matchesAt_floatPattern_iff.symm
    rw [hliteral, matchesOf_floatLiteral, chosenFrom_matchesAt_iff rfl]
  · rw [hfloat, Ne, hinteger]
  · rw [hfloat]
    constructor
    · rintro ⟨⟨m, hm, hb⟩, hno⟩
      obtain ⟨core, hcore⟩ := hchosen hm
      exact ⟨m, hm, core, hcore, hcore.mem_core_iff.mpr ⟨hb, hno⟩⟩
    · rintro ⟨m, hm, core, hcore, hb⟩
      obtain ⟨hbm, hno⟩ := hcore.mem_core_iff.mp hb
      exact ⟨⟨m, hm, hbm⟩, hno⟩

/-- The theorem for `1.2.3`, whose second point is in no chosen literal: `2.3` starts inside of
`1.2`. -/
theorem number_category_iff_chain :
    let text := "1.2.3".toList
    (highlighter.categoryAt text 3 ≠ some .comment ∧ highlighter.categoryAt text 3 ≠ some .string) ∧
      highlighter.categoryAt text 3 ≠ some .float := by
  intro text
  have hcomment : highlighter.categoryAt text 3 ≠ some .comment := fun h =>
    absurd (categoryAt_comments_iff.mpr h) (by decide +kernel)
  have hstring : highlighter.categoryAt text 3 ≠ some .string := fun h =>
    absurd (categoryAt_strings_iff.mpr h) (by decide +kernel)
  have hno : ¬ ∃ m ∈ matchesOf floatLiteral text, 3 ∈ m := by
    decide +kernel
  refine ⟨⟨hcomment, hstring⟩, fun h => hno ?_⟩
  exact ((number_category_iff hcomment hstring).2.2.1.mp h).1

end FaustLens.Faust
