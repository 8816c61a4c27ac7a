import FaustLens.Proofs.Pattern.Words

/-!
# Floats

A float (`float` in `faust_rules`, `syntax::faust`) is made of digits, a point and digits, perhaps
with an exponent behind. Any letter in it is that of its exponent, so it stands directly behind a
digit.

Results:
* `bounded_floatPattern`: what the float pattern reads.
* `ledByDigit_of_floatText`: where the letters in a float are.
-/

namespace FaustLens.Faust

open Pattern

/-- The pattern of the exponent of a float. -/
def exponentPattern : Pattern :=
  let sign := repeated (one (.union (.single '-') (.single '+'))) 0 (some 1) true
  cat (cat (one (.union (.single 'e') (.single 'E'))) sign)
    (repeated (one (.range '0' '9')) 1 none true)

/-- The pattern of floats. -/
def floatPattern : Pattern :=
  let digits := repeated (one (.range '0' '9')) 1 none true
  cat (cat (cat (cat (cat boundary digits) (one (.single '.'))) digits)
    (repeated exponentPattern 0 (some 1) true)) boundary

/-- The pattern of floats without the word boundaries. -/
def floatBody : Pattern :=
  let digits := repeated (one (.range '0' '9')) 1 none true
  cat (cat (cat digits (one (.single '.'))) digits) (repeated exponentPattern 0 (some 1) true)

/-- The text is made of digits, and not empty. -/
def Digits (v : Text) : Prop := (∀ c ∈ v, c.isDigit = true) ∧ v ≠ []

/-- The text is an exponent: a letter, perhaps a sign, and digits. -/
def ExponentText (v : Text) : Prop := ∃ x sign ds, v = x :: (sign ++ ds) ∧ (x = 'e' ∨ x = 'E') ∧
  (sign = [] ∨ sign = ['-'] ∨ sign = ['+']) ∧ Digits ds

/-- The text is a float: digits, a point, digits, and perhaps an exponent. -/
def FloatText (v : Text) : Prop := ∃ ds fs ex, v = ds ++ '.' :: fs ++ ex ∧ Digits ds ∧ Digits fs ∧
  (ex = [] ∨ ExponentText ex)

variable {size : Nat}

theorem contains_pair (x y c : Char) :
    (CharSet.union (.single x) (.single y)).contains c = true ↔ c = x ∨ c = y := by
  have hset : (CharSet.union (.single x) (.single y)).contains c =
      ((CharSet.single x).contains c || (CharSet.single y).contains c) := rfl
  rw [hset, CharSet.contains_single, CharSet.contains_single, Bool.or_eq_true, beq_iff_eq, beq_iff_eq,
    eq_comm, @eq_comm _ y]

theorem reads_digits : Reads size (repeated (one (.range '0' '9')) 1 none true) Digits :=
  reads_run _

theorem reads_sign : Reads size
    (repeated (one (.union (.single '-') (.single '+'))) 0 (some 1) true)
    fun w => w = [] ∨ w = ['-'] ∨ w = ['+'] := by
  refine ((reads_one _).optional rfl true).congr fun w => or_congr_right ?_
  constructor
  · rintro ⟨c, rfl, hc⟩
    rcases (contains_pair _ _ c).mp hc with rfl | rfl
    · exact Or.inl rfl
    · exact Or.inr rfl
  · rintro (rfl | rfl)
    · exact ⟨_, rfl, (contains_pair _ _ _).mpr (Or.inl rfl)⟩
    · exact ⟨_, rfl, (contains_pair _ _ _).mpr (Or.inr rfl)⟩

theorem reads_exponentPattern : Reads size exponentPattern ExponentText := by
  refine (((reads_one _).cat reads_sign).cat reads_digits).congr fun w => ?_
  constructor
  · rintro ⟨_, ds, rfl, ⟨_, sign, rfl, ⟨x, rfl, hx⟩, hsign⟩, hds⟩
    exact ⟨x, sign, ds, by simp, (contains_pair _ _ x).mp hx, hsign, hds⟩
  · rintro ⟨x, sign, ds, rfl, hx, hsign, hds⟩
    exact ⟨x :: sign, ds, rfl, ⟨[x], sign, rfl, ⟨x, rfl, (contains_pair _ _ x).mpr hx⟩, hsign⟩, hds⟩

theorem reads_floatBody : Reads size floatBody FloatText := by
  refine (((reads_digits.cat (reads_single '.')).cat reads_digits).cat
    (reads_exponentPattern.optional rfl true)).congr fun w => ?_
  constructor
  · rintro ⟨_, ex, rfl, ⟨_, fs, rfl, ⟨ds, _, rfl, hds, rfl⟩, hfs⟩, hex⟩
    exact ⟨ds, fs, ex, by simp, hds, hfs, hex⟩
  · rintro ⟨ds, fs, ex, rfl, hds, hfs, hex⟩
    exact ⟨ds ++ ['.'] ++ fs, ex, by simp, ⟨ds ++ ['.'], fs, rfl, ⟨ds, ['.'], rfl, hds, rfl⟩, hfs⟩,
      hex⟩

/-- **What a float holds**: digits, a point, digits, and perhaps an exponent, between two word
boundaries. -/
theorem bounded_floatPattern (size : Nat) : Bounded size floatPattern FloatText := by
  intro cur e hsize
  have hassoc : e ∈ ends size floatPattern cur ↔
      e ∈ ends size (cat (cat boundary floatBody) boundary) cur := by
    simp only [floatPattern, floatBody, mem_ends_cat_iff]
    constructor
    · rintro ⟨_, ⟨_, ⟨_, ⟨_, ⟨_, hfront, hwhole⟩, hpoint⟩, hfraction⟩, hexponent⟩, hback⟩
      exact ⟨_, ⟨_, hfront, _, ⟨_, ⟨_, hwhole, hpoint⟩, hfraction⟩, hexponent⟩, hback⟩
    · rintro ⟨_, ⟨_, hfront, _, ⟨_, ⟨_, hwhole, hpoint⟩, hfraction⟩, hexponent⟩, hback⟩
      exact ⟨_, ⟨_, ⟨_, ⟨_, ⟨_, hfront, hwhole⟩, hpoint⟩, hfraction⟩, hexponent⟩, hback⟩
  rw [hassoc]
  exact reads_floatBody.bounded cur e hsize

/-! ## Letters -/

/-- Lower-case letters. -/
def letters : List Char := "abcdefghijklmnopqrstuvwxyz".toList

/-- Each letter of the text stands directly behind a digit of the text. -/
def LedByDigit (v : Text) : Prop :=
  ∀ v₁ x v₂, v = v₁ ++ x :: v₂ → x ∈ letters → ∃ d ∈ v₁.getLast?, d.isDigit = true

theorem isWord_of_isDigit {c : Char} (h : c.isDigit = true) : Unicode.isWord c = true := by
  have hascii : Unicode.isAscii c = true := by
    simp [Char.isDigit, Unicode.isAscii, UInt32.le_iff_toNat_le] at h ⊢
    omega
  rw [Unicode.isWord_of_isAscii hascii]
  simp [Unicode.asciiWord, Char.isAlphanum, h]

theorem not_isDigit_of_mem_letters {x : Char} (hx : x ∈ letters) : x.isDigit = false := by
  have hall : letters.all (!·.isDigit) = true := by decide
  simpa using List.all_eq_true.mp hall x hx

theorem Digits.not_mem {ds : Text} (h : Digits ds) {x : Char} (hx : x ∈ letters) : x ∉ ds := by
  intro hmem
  have hdigit := h.1 x hmem
  rw [not_isDigit_of_mem_letters hx] at hdigit
  exact absurd hdigit (by simp)

theorem Digits.getLast? {ds : Text} (h : Digits ds) : ∃ d ∈ ds.getLast?, d.isDigit = true := by
  obtain ⟨hall, hne⟩ := h
  exact ⟨ds.getLast hne, List.getLast?_eq_some_getLast hne, hall _ (List.getLast_mem hne)⟩

/-- **A letter in a float stands behind a digit**: it is that of the exponent. -/
theorem ledByDigit_of_floatText {v : Text} (h : FloatText v) : LedByDigit v := by
  obtain ⟨ds, fs, ex, rfl, hds, hfs, hex⟩ := h
  intro v₁ x v₂ heq hx
  have hfront : x ∉ ds ++ '.' :: fs := by
    have hpoint : x ≠ '.' := by
      rintro rfl
      exact absurd hx (by decide)
    simp [hds.not_mem hx, hfs.not_mem hx, hpoint]
  rcases hex with rfl | ⟨y, sign, es, rfl, -, hsign, hes⟩
  · rw [List.append_nil] at heq
    exact absurd (heq ▸ List.mem_append_right v₁ List.mem_cons_self) hfront
  · have hback : x ∉ sign ++ es := by
      have hsigns : x ∉ sign := by
        rcases hsign with rfl | rfl | rfl
        · exact List.not_mem_nil
        · rw [List.mem_singleton]
          rintro rfl
          exact absurd hx (by decide)
        · rw [List.mem_singleton]
          rintro rfl
          exact absurd hx (by decide)
      simp [hsigns, hes.not_mem hx]
    obtain ⟨rfl, -, -⟩ := (List.append_cons_inj_of_notMem hfront hback).mp heq
    rw [List.getLast?_append_of_ne_nil _ (List.cons_ne_nil _ _),
      List.getLast?_cons_of_ne_nil hfs.2]
    exact hfs.getLast?

end FaustLens.Faust
