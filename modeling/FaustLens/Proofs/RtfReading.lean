import FaustLens.Proofs.CodeUnits
import FaustLens.Proofs.RtfDocument
import Mathlib.Data.List.Basic

/-!
# Reading escaped text

A reader of the escaped text of a document (`render::escape_rtf`) goes from character to character
(`Reading.step`). A backslash makes the next character plain, if it is a backslash or a brace, or
begins a control word: `\par` stands for a line feed, `\tab` for a tab, each with the one character
behind it that ends the word, and `\u` with a number for a code unit, which a question mark follows.
The code units that are read make up a text in UTF-16 (`unescape?`).

What is read of an escaped character does not depend on what follows it, because its last character
ends what it began. So the code units of a text are read back one character after the other.

Results:
* `Yields.append`: what is read of two texts, one behind the other.
* `yields_escapeUnit`: a code unit is read back from its signed number.
* `yields_escapeChar`, `yields_escape`: what is read of an escaped character and of an escaped text.
* `exists_of_escape_eq_append`: where an escaped text has line feeds.
* `unescape?_escape`: an escaped text is printable, and read back but for carriage returns.
-/

namespace FaustLens.Rtf

/-! ## The reader -/

/-- What a reader of escaped text is reading. -/
inductive Reading
  /-- Text. -/
  | text
  /-- What follows a backslash. -/
  | escape
  /-- The letters of a control word. -/
  | word (letters : Text)
  /-- The digits of the number of a code unit, and whether a sign stands before them. -/
  | unit (negative : Bool) (digits : Text)
deriving DecidableEq, Repr, Inhabited

/-- The code unit with a number, modulo 65536. -/
def codeUnit (negative : Bool) (digits : Text) : Nat :=
  let n : Int := Nat.ofDigitChars 10 digits 0
  ((if negative then -n else n) % 0x10000).toNat

namespace Reading

/-- Read a character: what is being read behind it, and the code units that it completes. -/
def step : Reading → Char → Option (Reading × List Nat)
  | text, c =>
    if c = '\\' then some (escape, [])
    else if ordinary c ∧ ' ' ≤ c ∧ c ≤ '~' then some (text, [c.toNat])
    else none
  | escape, c =>
    if !ordinary c then some (text, [c.toNat])
    else if c.isAlpha then some (word [c], [])
    else none
  | word letters, c =>
    if letters = ['p', 'a', 'r'] ∧ c = '\n' then some (text, [0x0A])
    else if letters = ['t', 'a', 'b'] ∧ c = ' ' then some (text, [0x09])
    else if letters = ['u'] ∧ c = '-' then some (unit true [], [])
    else if letters = ['u'] ∧ c.isDigit then some (unit false [c], [])
    else if c.isAlpha then some (word (letters ++ [c]), [])
    else none
  | unit negative digits, c =>
    if c.isDigit then some (unit negative (digits ++ [c]), [])
    else if c = '?' ∧ digits ≠ [] then some (text, [codeUnit negative digits])
    else none

/-- Read a text: what is being read behind it, and the code units that it completes. -/
def run (r : Reading) : Text → Option (Reading × List Nat)
  | [] => some (r, [])
  | c :: rest =>
    (r.step c).bind fun (next, units) =>
      (next.run rest).map fun (last, more) => (last, units ++ more)

end Reading

/-- The text that an escaped text stands for, if nothing is left incomplete. -/
def unescape? (escaped : Text) : Option Text :=
  match Reading.text.run escaped with
  | some (.text, units) => Text.ofUnits? units
  | _ => none

/-! ## What is read of a part -/

/-- The part of an escaped text completes the code units and leads from `r` to `r'`. -/
def Yields (r : Reading) (a : Text) (units : List Nat) (r' : Reading) : Prop :=
  r.run a = some (r', units)

instance (r : Reading) (a : Text) (units : List Nat) (r' : Reading) :
    Decidable (Yields r a units r') :=
  inferInstanceAs (Decidable (r.run a = some (r', units)))

variable {r r' r'' : Reading} {a b ds : Text} {us vs : List Nat} {negative : Bool}

theorem yields_nil (r : Reading) : Yields r [] [] r := rfl

theorem yields_cons {c : Char} (hstep : r.step c = some (r', us)) (h : Yields r' a vs r'') :
    Yields r (c :: a) (us ++ vs) r'' := by
  unfold Yields at h ⊢
  simp only [Reading.run, hstep, Option.bind_some, h, Option.map_some]

/-- **What is read of two texts**, one behind the other. -/
theorem Yields.append (h : Yields r a us r') (h' : Yields r' b vs r'') :
    Yields r (a ++ b) (us ++ vs) r'' := by
  induction a generalizing r us with
  | nil =>
    obtain ⟨rfl, rfl⟩ := Prod.mk.inj (Option.some.inj h)
    exact h'
  | cons c a ih =>
    unfold Yields at h
    rw [Reading.run] at h
    obtain ⟨⟨next, units⟩, hstep, h⟩ := Option.bind_eq_some_iff.mp h
    obtain ⟨⟨last, more⟩, hrun, heq⟩ := Option.map_eq_some_iff.mp h
    obtain ⟨rfl, rfl⟩ := Prod.mk.inj heq
    rw [List.append_assoc]
    exact yields_cons hstep (ih hrun)

theorem yields_step {c : Char} (h : r.step c = some (r', us)) : Yields r [c] us r' := by
  have hcons := yields_cons h (yields_nil r')
  rwa [List.append_nil] at hcons

theorem yields_flatMap {α : Type} {f : α → Text} {g : α → List Nat} {l : List α}
    (h : ∀ x ∈ l, Yields .text (f x) (g x) .text) :
    Yields .text (l.flatMap f) (l.flatMap g) .text := by
  induction l with
  | nil => exact yields_nil _
  | cons x l ih =>
    rw [List.forall_mem_cons] at h
    exact h.1.append (ih h.2)

/-! ## Code units -/

theorem yields_digits (h : ∀ c ∈ ds, c.isDigit = true) (front : Text) :
    Yields (.unit negative front) ds [] (.unit negative (front ++ ds)) := by
  induction ds generalizing front with
  | nil =>
    rw [List.append_nil]
    exact yields_nil _
  | cons c ds ih =>
    rw [List.forall_mem_cons] at h
    have hstep : Reading.step (.unit negative front) c =
        some (.unit negative (front ++ [c]), []) := by
      simp [Reading.step, h.1]
    rw [List.append_cons]
    exact yields_cons hstep (ih h.2 _)

/-- Digits and a question mark complete the number of a code unit. -/
theorem yields_number (negative : Bool) (front : Text) (h : ∀ c ∈ ds, c.isDigit = true)
    (hne : front ++ ds ≠ []) :
    Yields (.unit negative front) (ds ++ ['?']) [codeUnit negative (front ++ ds)] .text := by
  have hmark : Reading.step (.unit negative (front ++ ds)) '?' =
      some (.text, [codeUnit negative (front ++ ds)]) := by
    simp [Reading.step, hne]
  exact (yields_digits h front).append (yields_step hmark)

/-- The numbers that stand for a code unit: itself, or its distance below 65536 with a sign. -/
theorem codeUnit_toString {u : Nat} (h : u < 0x10000) :
    codeUnit false (toString u).toList = u ∧
      codeUnit true (toString (0x10000 - u)).toList = u % 0x10000 := by
  unfold codeUnit
  rw [Text.ofDigitChars_toString, Text.ofDigitChars_toString]
  constructor
  · simp only [Bool.false_eq_true, if_false]
    omega
  · simp only [if_true]
    omega

theorem toString_signed_of_lt {u : Nat} (h : u < 0x8000) :
    toString (signed u) = toString u := by
  unfold signed
  rw [if_pos h]
  rfl

theorem toString_signed_of_le {u : Nat} (h : 0x8000 ≤ u) (hu : u < 0x10000) :
    toString (signed u) = "-" ++ toString (0x10000 - u) := by
  obtain ⟨n, hn⟩ : ∃ n, 0x10000 - u = n + 1 := ⟨0x10000 - u - 1, by omega⟩
  have hsigned : signed u = Int.negSucc n := by
    unfold signed
    rw [if_neg (by omega)]
    omega
  rw [hsigned, hn]
  rfl

/-- **A code unit** is read back from its escape. -/
theorem yields_escapeUnit {u : Nat} (h : u < 0x10000) : Yields .text (escapeUnit u) [u] .text := by
  obtain ⟨hplain, hsigned⟩ := codeUnit_toString h
  have hnumber : Yields (.word ['u']) ((toString (signed u)).toList ++ ['?']) [u] .text := by
    by_cases hlt : u < 0x8000
    · -- the first digit ends the word
      obtain ⟨d, ds, hds⟩ : ∃ d ds, (toString u).toList = d :: ds :=
        List.exists_cons_of_ne_nil (by simp)
      have hdigits : ∀ c ∈ d :: ds, c.isDigit = true := fun c hc =>
        Text.isDigit_of_mem_toString (hds ▸ hc)
      rw [List.forall_mem_cons] at hdigits
      have hsign : d ≠ '-' := by
        rintro rfl
        exact absurd hdigits.1 (by decide)
      have hstep : Reading.step (.word ['u']) d = some (.unit false [d], []) := by
        simp [Reading.step, hsign, hdigits.1]
      have hrest := yields_number false [d] hdigits.2 (by simp)
      rw [List.singleton_append, ← hds, hplain] at hrest
      rw [toString_signed_of_lt hlt, hds]
      exact yields_cons hstep hrest
    · have hstep : Reading.step (.word ['u']) '-' = some (.unit true [], []) := by decide
      have hdigits : ∀ c ∈ (toString (0x10000 - u)).toList, c.isDigit = true := fun c hc =>
        Text.isDigit_of_mem_toString hc
      have hrest := yields_number true [] hdigits (by simp)
      rw [List.nil_append, hsigned, Nat.mod_eq_of_lt h] at hrest
      rw [toString_signed_of_le (Nat.le_of_not_lt hlt) h, String.toList_append]
      exact yields_cons hstep hrest
  have hescape : Reading.step .text '\\' = some (.escape, []) := by decide
  have hword : Reading.step .escape 'u' = some (.word ['u'], []) := by decide
  rw [escapeUnit_eq]
  exact yields_cons hescape (yields_cons hword hnumber)

/-! ## Characters and texts -/

theorem eq_of_not_ordinary {c : Char} (h : ordinary c = false) :
    c = '\\' ∨ c = '\x7b' ∨ c = '\x7d' := by
  simpa [ordinary, ← or_iff_not_imp_left] using h

theorem charUnits_of_le {c : Char} (h : c ≤ '~') : Text.charUnits c = [c.toNat] := by
  have hle : c.toNat ≤ '~'.toNat := UInt32.le_iff_toNat_le.mp (Char.le_def.mp h)
  have hlt : c.toNat < 0x10000 := Nat.lt_of_le_of_lt hle (by decide)
  unfold Text.charUnits
  rw [if_pos hlt]

/-- **An escaped character** gives its code units, and a carriage return none. -/
theorem yields_escapeChar (c : Char) : Yields .text (escapeChar c)
    (if c ≠ '\r' then Text.charUnits c else []) .text := by
  have hescaped := escapedAs_escapeChar c
  generalize escapeChar c = escaped at hescaped
  cases hescaped with
  | symbol h =>
    rcases eq_of_not_ordinary h with rfl | rfl | rfl <;> decide
  | lineFeed h =>
    subst h
    decide
  | tab h =>
    subst h
    decide
  | carriageReturn h =>
    subst h
    exact yields_nil _
  | plain hordinary hprintable =>
    have hreturn : c ≠ '\r' := by
      rintro rfl
      exact absurd hprintable (by decide)
    have hbackslash : c ≠ '\\' := by
      rintro rfl
      exact absurd hordinary (by decide)
    have hstep : Reading.step .text c = some (.text, [c.toNat]) := by
      simp [Reading.step, hbackslash, hordinary, hprintable]
    rw [if_pos hreturn, charUnits_of_le hprintable.2]
    exact yields_step hstep
  | units hline hreturn =>
    have hunits := yields_flatMap (l := Text.charUnits c) (g := fun u => [u]) fun u hu =>
      yields_escapeUnit (Text.lt_of_mem_charUnits hu)
    rw [List.flatMap_singleton'] at hunits
    rwa [if_pos hreturn]

theorem units_filter (p : Char → Bool) (text : Text) : Text.units (text.filter p) =
    text.flatMap fun c => if p c then Text.charUnits c else [] := by
  induction text with
  | nil => rfl
  | cons c text ih =>
    rw [List.filter_cons, List.flatMap_cons, ← ih]
    split
    · rfl
    · rfl

/-- **An escaped text** gives the code units of the text without its carriage returns. -/
theorem yields_escape (text : Text) :
    Yields .text (escape text) (Text.units (text.filter (· ≠ '\r'))) .text := by
  rw [units_filter]
  simp only [decide_eq_true_eq]
  exact yields_flatMap fun c _ => yields_escapeChar c

/-! ## What escaped text consists of -/

/-- Whether a character is a visible one of ASCII or a space. -/
def printable (c : Char) : Bool := ' ' ≤ c && c ≤ '~'

theorem printable_of_isDigit {c : Char} (h : c.isDigit = true) : printable c = true := by
  simp only [Char.isDigit, ge_iff_le, Bool.and_eq_true, decide_eq_true_eq] at h
  simp only [printable, Bool.and_eq_true, decide_eq_true_eq, Char.le_def]
  exact ⟨UInt32.le_trans (by decide) h.1, UInt32.le_trans h.2 (by decide)⟩

theorem printable_of_mem_escapeUnit {u : Nat} (hu : u < 0x10000) {x : Char}
    (h : x ∈ escapeUnit u) : printable x = true := by
  have hdigits : ∀ n : Nat, ∀ x ∈ (toString n).toList, printable x = true := fun n x hx =>
    printable_of_isDigit (Text.isDigit_of_mem_toString hx)
  have hsigned : ∀ x ∈ (toString (signed u)).toList, printable x = true := by
    by_cases hlt : u < 0x8000
    · rw [toString_signed_of_lt hlt]
      exact hdigits u
    · rw [toString_signed_of_le (Nat.le_of_not_lt hlt) hu, String.toList_append]
      exact List.forall_mem_append.mpr ⟨List.all_eq_true.mp (by decide), hdigits _⟩
  have hall : ∀ x ∈ escapeUnit u, printable x = true := by
    rw [escapeUnit_eq]
    refine List.forall_mem_cons.mpr ⟨rfl, List.forall_mem_cons.mpr ⟨rfl, ?_⟩⟩
    exact List.forall_mem_append.mpr ⟨hsigned, List.all_eq_true.mp (by decide)⟩
  exact hall x h

/-- An escaped character is printable, but for the line feed that ends a control word. -/
theorem EscapedAs.printable_or {c : Char} {escaped : Text} (h : EscapedAs c escaped) :
    (∀ x ∈ escaped, printable x = true) ∨ c = '\n' ∧ escaped = "\\par\n".toList := by
  cases h with
  | symbol h =>
    refine Or.inl (List.all_eq_true.mp ?_)
    rcases eq_of_not_ordinary h with rfl | rfl | rfl <;> decide
  | lineFeed h => exact Or.inr ⟨h, rfl⟩
  | tab _ => exact Or.inl (List.all_eq_true.mp (by decide))
  | carriageReturn _ => exact Or.inl (by simp)
  | plain _ hprintable => exact Or.inl (by simpa [printable] using hprintable)
  | units _ _ =>
    refine Or.inl fun x hx => ?_
    obtain ⟨u, hu, hx⟩ := List.mem_flatMap.mp hx
    exact printable_of_mem_escapeUnit (Text.lt_of_mem_charUnits hu) hx

theorem printable_of_mem_escape {text : Text} {x : Char} (h : x ∈ escape text) :
    printable x = true ∨ x = '\n' := by
  obtain ⟨c, -, hx⟩ := List.mem_flatMap.mp h
  rcases (escapedAs_escapeChar c).printable_or with hall | ⟨-, heq⟩
  · exact Or.inl (hall x hx)
  · have hword : "\\par\n".toList = "\\par".toList ++ ['\n'] := by decide
    rw [heq, hword] at hx
    rcases List.mem_append.mp hx with hletter | hline
    · exact Or.inl (List.all_eq_true.mp (by decide) x hletter)
    · exact Or.inr (List.mem_singleton.mp hline)

/-- **The line feeds** of an escaped text are those that end the control word for a line feed of the
text. -/
theorem exists_of_escape_eq_append {text a b : Text} (h : escape text = a ++ '\n' :: b) :
    ∃ before after, text = before ++ '\n' :: after ∧ a = escape before ++ "\\par".toList ∧
      b = escape after := by
  induction text generalizing a with
  | nil => simp [escape] at h
  | cons c text ih =>
    have hcons : ∀ t, escape (c :: t) = escapeChar c ++ escape t := fun t => List.flatMap_cons
    rw [hcons] at h
    rcases List.append_eq_append_iff.mp h with ⟨m, ha, hrest⟩ | ⟨m, hchar, hrest⟩
    · obtain ⟨before, after, rfl, rfl, rfl⟩ := ih hrest
      exact ⟨c :: before, after, rfl, by rw [ha, hcons, List.append_assoc], rfl⟩
    · cases m with
      | nil =>
        -- the rest of the text cannot begin with a line feed that no control word ends in
        obtain ⟨before, after, -, hnil, -⟩ := ih (a := []) hrest.symm
        exact absurd hnil.symm (by simp)
      | cons y m =>
        obtain ⟨rfl, rfl⟩ := List.cons.inj hrest
        rcases (escapedAs_escapeChar c).printable_or with hall | ⟨rfl, hword⟩
        · exact absurd (hall '\n' (by simp [hchar])) (by decide)
        · -- the word ends in its only line feed
          rw [hword] at hchar
          have hletters : '\n' ∉ "\\par".toList := by decide
          obtain ⟨rfl, -, rfl⟩ :=
            (List.append_cons_inj_of_notMem hletters List.not_mem_nil).mp hchar
          exact ⟨[], text, rfl, rfl, rfl⟩

theorem utf8EncodeChar_of_le {c : Char} (h : c.toNat ≤ 0x7F) :
    String.utf8EncodeChar c = [UInt8.ofNat c.toNat] := by
  simp [String.utf8EncodeChar, h]

/-- **The bytes of escaped text** are printable, or line feeds. -/
theorem mem_bytes_escape {text : Text} {b : UInt8} (h : b ∈ Text.bytes (escape text)) :
    0x20 ≤ b ∧ b ≤ 0x7E ∨ b = 0x0A := by
  obtain ⟨c, hc, hb⟩ := List.mem_flatMap.mp h
  rcases printable_of_mem_escape hc with hprintable | rfl
  · obtain ⟨hlo, hhi⟩ : 0x20 ≤ c.toNat ∧ c.toNat ≤ 0x7E := by
      simpa [printable, Char.le_def, UInt32.le_iff_toNat_le] using hprintable
    rw [utf8EncodeChar_of_le (by omega)] at hb
    obtain rfl := List.mem_singleton.mp hb
    have hbyte : (UInt8.ofNat c.toNat).toNat = c.toNat :=
      UInt8.toNat_ofNat_of_lt' (Nat.lt_of_le_of_lt hhi (by decide))
    rw [UInt8.le_iff_toNat_le, UInt8.le_iff_toNat_le, hbyte]
    exact Or.inl ⟨hlo, hhi⟩
  · rw [utf8EncodeChar_of_le (by decide)] at hb
    exact Or.inr (List.mem_singleton.mp hb)

/-- **Escaped text can be read back**: a reader of it gets the text without its carriage returns. Each
byte of it is printable or a line feed, and a line feed ends the control word for a line feed of the
text. So texts without carriage returns that are escaped alike are equal. -/
theorem unescape?_escape (text : Text) :
    unescape? (escape text) = some (text.filter (· ≠ '\r')) ∧
    (∀ b ∈ Text.bytes (escape text), 0x20 ≤ b ∧ b ≤ 0x7E ∨ b = 0x0A) ∧
    (∀ a b, escape text = a ++ '\n' :: b → ∃ before after, text = before ++ '\n' :: after ∧
      a = escape before ++ "\\par".toList ∧ b = escape after) ∧
    ∀ other, '\r' ∉ text → '\r' ∉ other → escape text = escape other → text = other := by
  have hread : ∀ t : Text, unescape? (escape t) = some (t.filter (· ≠ '\r')) := by
    intro t
    have hrun : Reading.text.run (escape t) = some (.text, Text.units (t.filter (· ≠ '\r'))) :=
      yields_escape t
    unfold unescape?
    rw [hrun]
    exact Text.ofUnits?_units _
  refine ⟨hread text, fun b hb => mem_bytes_escape hb, fun a b h => exists_of_escape_eq_append h,
    fun other htext hother heq => ?_⟩
  have hfilter : ∀ t : Text, '\r' ∉ t → t.filter (· ≠ '\r') = t := by
    intro t ht
    refine List.filter_eq_self.mpr fun c hc => ?_
    have hne : c ≠ '\r' := fun h => ht (h ▸ hc)
    simpa using hne
  have hsame := hread text
  rw [heq, hread other, hfilter text htext, hfilter other hother] at hsame
  exact (Option.some.inj hsame).symm

/-- The theorem for a text that looks like a control word, with a character behind it that needs two
code units. -/
theorem unescape?_escape_word :
    let text : Text := ['\\', 'p', 'a', 'r', '\n', '𝄞', '?']
    let escaped : Text := "\\\\par\\par\n\\u-10188?\\u-8930??".toList
    '\r' ∉ text ∧ escape text = escaped ∧ unescape? escaped = some text ∧
      ∃ before after, text = before ++ '\n' :: after ∧
        "\\\\par\\par".toList = escape before ++ "\\par".toList ∧
        "\\u-10188?\\u-8930??".toList = escape after := by
  intro text escaped
  have hescaped : escape text = escaped := by decide +kernel
  have hreturn : '\r' ∉ text := by decide
  obtain ⟨hread, -, hline, -⟩ := unescape?_escape text
  rw [hescaped] at hread hline
  exact ⟨hreturn, hescaped, hread, hline _ _ rfl⟩

end FaustLens.Rtf
