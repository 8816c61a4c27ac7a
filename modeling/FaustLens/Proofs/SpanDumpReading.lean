import FaustLens.Proofs.Printing
import FaustLens.Text.Line
import Mathlib.Data.List.Basic

/-!
# Reading span dumps

A reader of a span dump (`render::dump_spans`) takes it line by line (`read?`). A line has two
numbers with two dots between them, the name of a category and a quoted text (`readLine?`). Between
quotes a backslash begins an escape: of one of seven characters, or of a code point in braces
(`unquote?`).

A quoted character is read back whatever follows it, and has neither a line feed nor a quote without
a backslash. So a quoted text ends where its closing quote stands, and a line where its span ends,
even if the text of the span looks like lines of a dump.

Results:
* `unquote?_hex`: a code point is read back from its digits.
* `unquote?_quoteChar`, `unquote?_quoted`: a character and a text are read back from their quoted form.
* `readLine?_line`, `read?_dumpOf`: a line and a dump are read back.
* `lines_dumpOf`: the lines of a dump are those of its spans.
* `read?_render`: a dump is read back, and determines the text that its spans make up.
-/

namespace FaustLens

/-! ## Quoted text -/

namespace Text

/-- What is being read of a quoted text. -/
inductive Quoting
  /-- Its characters. -/
  | plain
  /-- What follows a backslash. -/
  | escape
  /-- The brace in front of a code point. -/
  | brace
  /-- The digits of a code point, with the value of those before. -/
  | point (value : Option Nat)
deriving DecidableEq, Repr, Inhabited

/-- The escapes of one letter: the letter, and the character that it stands for. -/
def letterEscapes : List (Char × Char) :=
  [('0', '\x00'), ('t', '\t'), ('r', '\r'), ('n', '\n'), ('\\', '\\'), ('"', '"'), ('\'', '\'')]

/-- The character with a code point. -/
def charAt? (point : Nat) : Option Char :=
  if point.isValidChar then some (Char.ofNat point) else none

/-- A character in front of what was read up to the closing quote. -/
def consRead (c : Char) (read : Text × Text) : Text × Text := (c :: read.1, read.2)

/-- Read a quoted text behind its opening quote: the text, and what follows the closing quote. -/
def unquote? : Quoting → Text → Option (Text × Text)
  | _, [] => none
  | .plain, c :: rest =>
    if c = '"' then some ([], rest)
    else if c = '\\' then unquote? .escape rest
    else (unquote? .plain rest).map (consRead c)
  | .escape, c :: rest =>
    if c = 'u' then unquote? .brace rest
    else (letterEscapes.lookup c).bind fun d => (unquote? .plain rest).map (consRead d)
  | .brace, c :: rest => if c = '\x7b' then unquote? (.point none) rest else none
  | .point value, c :: rest =>
    if c = '\x7d' then
      (value.bind charAt?).bind fun d => (unquote? .plain rest).map (consRead d)
    else
      (Color.hexValue? c).bind fun d => unquote? (.point (some (16 * value.getD 0 + d))) rest

/-- The ways in which a character is written between quotes. -/
inductive QuotedAs (c : Char) : Text → Prop
  | letter {x : Char} (h : letterEscapes.lookup x = some c) : QuotedAs c ['\\', x]
  | plain (hquote : c ≠ '"') (hbackslash : c ≠ '\\') (hline : c ≠ '\n') : QuotedAs c [c]
  | point : QuotedAs c (['\\', 'u', '\x7b'] ++ hex c.toNat ++ ['\x7d'])

theorem quotedAs_quoteChar (c : Char) : QuotedAs c (quoteChar c) := by
  unfold quoteChar
  split
  · exact .letter rfl
  · exact .letter rfl
  · exact .letter rfl
  · exact .letter rfl
  · exact .letter rfl
  · exact .letter rfl
  · rename_i hline hbackslash hquote
    split
    · exact .plain hquote hbackslash hline
    · exact .point

theorem hex_eq (n : Nat) :
    hex n = if n < 16 then [n.digitChar] else hex (n / 16) ++ [(n % 16).digitChar] :=
  Nat.toDigits_eq_if (by decide)

theorem exists_digitChar_of_mem_hex {n : Nat} {x : Char} (h : x ∈ hex n) :
    ∃ d, x = Nat.digitChar d := by
  induction n using Nat.strongRecOn with
  | ind n ih =>
    rw [hex_eq] at h
    split at h
    · exact ⟨n, List.mem_singleton.mp h⟩
    · rcases List.mem_append.mp h with hfront | hlast
      · exact ih _ (by omega) hfront
      · exact ⟨n % 16, List.mem_singleton.mp hlast⟩

theorem unquote?_digitChar {n : Nat} (h : n < 16) (value : Option Nat) (rest : Text) :
    unquote? (.point value) (n.digitChar :: rest) =
      unquote? (.point (some (16 * value.getD 0 + n))) rest := by
  have hbrace : n.digitChar ≠ '\x7d' := Nat.digitChar_ne '\x7d' (by decide)
  rw [unquote?, if_neg hbrace, Color.hexValue?_digitChar h, Option.bind_some]

/-- **A code point** is read back from its digits. -/
theorem unquote?_hex (n : Nat) (rest : Text) :
    unquote? (.point none) (hex n ++ rest) = unquote? (.point (some n)) rest := by
  induction n using Nat.strongRecOn generalizing rest with
  | ind n ih =>
    rw [hex_eq]
    split
    · rename_i h
      have hvalue : 16 * (none : Option Nat).getD 0 + n = n := by simp
      rw [List.singleton_append, unquote?_digitChar h, hvalue]
    · rename_i h
      have hvalue : 16 * (some (n / 16)).getD 0 + n % 16 = n := Nat.div_add_mod n 16
      rw [List.append_assoc, ih _ (by omega), List.singleton_append,
        unquote?_digitChar (Nat.mod_lt n (by decide)), hvalue]

theorem charAt?_toNat (c : Char) : charAt? c.toNat = some c := by
  have hvalid : c.toNat.isValidChar := c.valid
  unfold charAt?
  rw [if_pos hvalid, Char.ofNat_toNat]

/-- **A quoted character** is read back, whatever follows it. -/
theorem unquote?_quoteChar (c : Char) (rest : Text) :
    unquote? .plain (quoteChar c ++ rest) = (unquote? .plain rest).map (consRead c) := by
  have hquoted := quotedAs_quoteChar c
  generalize quoteChar c = quoted at hquoted
  cases hquoted with
  | @letter x h =>
    have hnone : letterEscapes.lookup 'u' = none := by decide
    have hx : x ≠ 'u' := by
      rintro rfl
      exact absurd (hnone.symm.trans h) (by simp)
    show unquote? .escape (x :: rest) = _
    rw [unquote?, if_neg hx, h, Option.bind_some]
  | plain hquote hbackslash _ =>
    rw [List.singleton_append, unquote?, if_neg hquote, if_neg hbackslash]
  | point =>
    show unquote? (.point none) (hex c.toNat ++ ['\x7d'] ++ rest) = _
    rw [List.append_assoc, unquote?_hex, List.singleton_append, unquote?, if_pos rfl,
      Option.bind_some, charAt?_toNat, Option.bind_some]

/-- **A quoted text** is read back up to its closing quote. -/
theorem unquote?_quoted (text rest : Text) :
    unquote? .plain (text.flatMap quoteChar ++ '"' :: rest) = some (text, rest) := by
  induction text with
  | nil => rfl
  | cons c text ih =>
    rw [List.flatMap_cons, List.append_assoc, unquote?_quoteChar, ih]
    rfl

theorem lineFeed_not_mem_quoteChar (c : Char) : '\n' ∉ quoteChar c := by
  have hquoted := quotedAs_quoteChar c
  generalize quoteChar c = quoted at hquoted
  cases hquoted with
  | @letter x h =>
    have hnone : letterEscapes.lookup '\n' = none := by decide
    have hx : '\n' ≠ x := by
      rintro rfl
      exact absurd (hnone.symm.trans h) (by simp)
    simp [hx]
  | plain _ _ hline => simpa using Ne.symm hline
  | point =>
    have hdigits : '\n' ∉ hex c.toNat := by
      intro hmem
      obtain ⟨d, hd⟩ := exists_digitChar_of_mem_hex hmem
      exact Nat.digitChar_ne '\n' (by decide) hd.symm
    simp [hdigits]

theorem lineFeed_not_mem_quoted (text : Text) : '\n' ∉ text.quoted := by
  simp [quoted, lineFeed_not_mem_quoteChar]

/-! ## Lines -/

/-- **The first line** ends at the first line feed. -/
theorem lines_append_lineFeed {front : Text} (h : '\n' ∉ front) (rest : Text) :
    lines (front ++ '\n' :: rest) = (front ++ ['\n']) :: lines rest := by
  induction front with
  | nil => rfl
  | cons c front ih =>
    rw [List.mem_cons, not_or] at h
    rw [List.cons_append, lines, if_neg (Ne.symm h.1), ih h.2]
    rfl

end Text

namespace SpanDump

/-! ## The reader -/

/-- Read a decimal number and return it with what follows its digits. -/
def readNumber? (text : Text) : Option (Nat × Text) :=
  match text.takeWhile Char.isDigit with
  | [] => none
  | digits => some (Nat.ofDigitChars 10 digits 0, text.dropWhile Char.isDigit)

/-- Read the line of a span: the span and its text. -/
def readLine? (text : Text) : Option (Span × Text) := do
  let (start, rest) ← readNumber? text
  let rest ← rest.dropPrefix? ['.', '.']
  let (stop, rest) ← readNumber? rest
  let rest ← rest.dropPrefix? [' ']
  let category ← Category.ofName? (String.ofList (rest.takeWhile (· ≠ ' ')))
  let rest ← (rest.dropWhile (· ≠ ' ')).dropPrefix? [' ', '"']
  let (part, rest) ← Text.unquote? .plain rest
  if rest = ['\n'] then return (⟨start, stop, category⟩, part) else none

/-- Read a dump: its spans, each with its text. -/
def read? (dump : Text) : Option (List (Span × Text)) := dump.lines.mapM readLine?

theorem readNumber?_toString (n : Nat) {rest : Text} (h : ∀ c ∈ rest.head?, c.isDigit = false) :
    readNumber? ((toString n).toList ++ rest) = some (n, rest) := by
  have hdigits : ∀ c ∈ (toString n).toList, c.isDigit = true :=
    fun c hc => Text.isDigit_of_mem_toString hc
  have htake : rest.takeWhile Char.isDigit = [] := by
    cases rest with
    | nil => rfl
    | cons c rest => exact List.takeWhile_cons_of_neg (by simpa using h c rfl)
  have hdrop : rest.dropWhile Char.isDigit = rest := by
    cases rest with
    | nil => rfl
    | cons c rest => exact List.dropWhile_cons_of_neg (by simpa using h c rfl)
  have hne : (toString n).toList ≠ [] := by simp
  unfold readNumber?
  rw [List.takeWhile_append_of_pos hdigits, List.dropWhile_append_of_pos hdigits, htake, hdrop,
    List.append_nil]
  split
  · rename_i hnil
    exact absurd hnil hne
  · rw [Text.ofDigitChars_toString]

theorem blank_not_mem_name (c : Category) : ' ' ∉ c.name.toList := by
  cases c <;> decide

/-- The parts of a line, each with what follows it. -/
theorem line_eq (s : Span) (part : Text) : line s part =
    (toString s.start).toList ++ (['.', '.'] ++ ((toString s.stop).toList ++ ([' '] ++
      (s.category.name.toList ++ ([' ', '"'] ++
        (part.flatMap Text.quoteChar ++ '"' :: ['\n'])))))) := by
  simp [line, Text.quoted]

theorem dropPrefix?_append (mark rest : Text) : (mark ++ rest).dropPrefix? mark = some rest :=
  List.dropPrefix?_append_of_beq rest (beq_self_eq_true mark)

/-- **A line** is read back. -/
theorem readLine?_line (s : Span) (part : Text) : readLine? (line s part) = some (s, part) := by
  have hname : ∀ c ∈ s.category.name.toList, (decide (c ≠ ' ')) = true := fun c hc =>
    decide_eq_true fun h => blank_not_mem_name s.category (h ▸ hc)
  rw [line_eq]
  unfold readLine?
  rw [readNumber?_toString s.start (by simp)]
  simp only [Option.bind_eq_bind, Option.bind_some]
  rw [dropPrefix?_append, Option.bind_some, readNumber?_toString s.stop (by simp)]
  simp only [Option.bind_some]
  rw [dropPrefix?_append, Option.bind_some, List.takeWhile_append_of_pos hname,
    List.dropWhile_append_of_pos hname]
  have htake : ([' ', '"'] ++ (part.flatMap Text.quoteChar ++ '"' :: ['\n'])).takeWhile
      (fun c => decide (c ≠ ' ')) = [] := rfl
  have hdrop : ([' ', '"'] ++ (part.flatMap Text.quoteChar ++ '"' :: ['\n'])).dropWhile
      (fun c => decide (c ≠ ' ')) = [' ', '"'] ++ (part.flatMap Text.quoteChar ++ '"' :: ['\n']) :=
    rfl
  rw [htake, hdrop, List.append_nil, String.ofList_toList, Category.ofName?_name, Option.bind_some,
    dropPrefix?_append, Option.bind_some, Text.unquote?_quoted]
  rfl

/-! ## Dumps -/

variable {text : Text} {entries : List (Span × Text)}

/-- The lines of some spans with their texts, one behind the other. -/
def dumpOf (entries : List (Span × Text)) : Text := entries.flatMap fun e => line e.1 e.2

/-- A line has one line feed, at its end, and the other lines follow it. -/
theorem exists_dumpOf_cons (e : Span × Text) (entries : List (Span × Text)) :
    ∃ front, '\n' ∉ front ∧ line e.1 e.2 = front ++ ['\n'] ∧
      dumpOf (e :: entries) = front ++ '\n' :: dumpOf entries := by
  have hnumber : ∀ n : Nat, '\n' ∉ Nat.toDigits 10 n := fun n h =>
    absurd (Nat.isDigit_of_mem_toDigits (by decide) (by decide) h) (by decide)
  have hname : '\n' ∉ e.1.category.name.toList := by cases e.1.category <;> decide
  refine ⟨_, ?_, rfl, ?_⟩
  · simp [hnumber, hname, Text.lineFeed_not_mem_quoted]
  · simp [dumpOf, line]

/-- **The lines of a dump** are those of its spans. -/
theorem lines_dumpOf (entries : List (Span × Text)) :
    (dumpOf entries).lines = entries.map fun e => line e.1 e.2 := by
  induction entries with
  | nil => rfl
  | cons e entries ih =>
    obtain ⟨front, hfront, hline, hdump⟩ := exists_dumpOf_cons e entries
    rw [hdump, Text.lines_append_lineFeed hfront, ih, List.map_cons, hline]

/-- A dump has as many line feeds as spans. -/
theorem count_dumpOf (entries : List (Span × Text)) :
    (dumpOf entries).count '\n' = entries.length := by
  induction entries with
  | nil => rfl
  | cons e entries ih =>
    obtain ⟨front, hfront, -, hdump⟩ := exists_dumpOf_cons e entries
    rw [hdump, List.count_append, List.count_eq_zero.mpr hfront, List.count_cons_self, ih,
      Nat.zero_add, List.length_cons]

/-- **A dump** is read back. -/
theorem read?_dumpOf (entries : List (Span × Text)) : read? (dumpOf entries) = some entries := by
  unfold read?
  rw [lines_dumpOf]
  induction entries with
  | nil => rfl
  | cons e entries ih =>
    rw [List.map_cons, List.mapM_cons, readLine?_line, ih]
    rfl

/-- What is printed for spans with their texts. -/
theorem text?_render (h : ∀ e ∈ entries, e.1.text? text = some e.2) :
    (render text (entries.map (·.1))).text? = some (dumpOf entries) := by
  induction entries with
  | nil => rfl
  | cons e entries ih =>
    rw [List.forall_mem_cons] at h
    rw [List.map_cons, render, h.1]
    simp [Output.text?, ih h.2, dumpOf]

/-- Spans that can be sliced have their texts. -/
theorem exists_entries {spans : List Span} (h : ∀ s ∈ spans, s.Valid text) :
    ∃ entries : List (Span × Text), entries.map (·.1) = spans ∧
      ∀ e ∈ entries, e.1.text? text = some e.2 := by
  induction spans with
  | nil => exact ⟨[], rfl, by simp⟩
  | cons s spans ih =>
    rw [List.forall_mem_cons] at h
    obtain ⟨part, hpart⟩ := Span.exists_text?_iff.mpr h.1
    obtain ⟨entries, hmap, hentries⟩ := ih h.2
    exact ⟨(s, part) :: entries, congrArg (s :: ·) hmap, List.forall_mem_cons.mpr ⟨hpart, hentries⟩⟩

/-- What a sink receives of a dump. -/
theorem deliver_render (h : ∀ e ∈ entries, e.1.text? text = some e.2) :
    (render text (entries.map (·.1))).deliver none = (Text.bytes (dumpOf entries), .finished) :=
  Output.deliver_none_of_text? (text?_render h)

/-- The spans cut the text into parts that follow each other. A part may be empty. -/
structure Partitions (text : Text) (spans : List Span) : Prop where
  valid : ∀ s ∈ spans, s.Valid text
  contiguous : Contiguous 0 spans text.byteLength

/-- The texts of the spans make up the text. -/
theorem Partitions.flatMap_eq (hpartitions : Partitions text (entries.map (·.1)))
    (h : ∀ e ∈ entries, e.1.text? text = some e.2) : entries.flatMap (·.2) = text := by
  have hslices : slices text (entries.map (·.1)) = text :=
    hpartitions.contiguous.slices_eq (a := []) rfl fun s hs =>
      Span.isSome_text?_iff.mpr (hpartitions.valid s hs)
  have hparts : slices text (entries.map (·.1)) = entries.flatMap (·.2) := by
    unfold slices
    rw [List.flatMap_map]
    refine List.flatMap_congr fun e he => ?_
    rw [h e he, Option.getD_some]
  exact hparts.symm.trans hslices

/-- **A dump loses nothing.** For spans that can be sliced it has a line feed at the end of each of
its lines and nowhere else, one for each span; and from its lines the spans are read back, each with
its text. So spans that partition a text are determined by the dump, and so is the text. -/
theorem read?_render :
    (∀ text spans, (∀ s ∈ spans, s.Valid text) → ∃ dump entries,
      (render text spans).deliver none = (Text.bytes dump, .finished) ∧
      entries.map (·.1) = spans ∧ (∀ e ∈ entries, e.1.text? text = some e.2) ∧
      dump.count '\n' = spans.length ∧ dump.lines.length = spans.length ∧
      (∀ line ∈ dump.lines, line.getLast? = some '\n') ∧ read? dump = some entries) ∧
    ∀ text text' spans spans', Partitions text spans → Partitions text' spans' →
      (render text spans).deliver none = (render text' spans').deliver none →
      spans = spans' ∧ text = text' := by
  refine ⟨fun text spans h => ?_, fun text text' spans spans' h h' hsame => ?_⟩
  · obtain ⟨entries, rfl, hentries⟩ := exists_entries h
    refine ⟨dumpOf entries, entries, deliver_render hentries, rfl, hentries, ?_, ?_, ?_,
      read?_dumpOf entries⟩
    · rw [count_dumpOf, List.length_map]
    · rw [lines_dumpOf, List.length_map, List.length_map]
    · intro l hl
      rw [lines_dumpOf] at hl
      obtain ⟨e, -, rfl⟩ := List.mem_map.mp hl
      obtain ⟨front, -, hline, -⟩ := exists_dumpOf_cons e []
      rw [hline, List.getLast?_concat]
  · obtain ⟨entries, rfl, hentries⟩ := exists_entries h.valid
    obtain ⟨entries', rfl, hentries'⟩ := exists_entries h'.valid
    rw [deliver_render hentries, deliver_render hentries'] at hsame
    have hdump := Output.bytes_injective (congrArg Prod.fst hsame)
    have hread := read?_dumpOf entries
    rw [hdump, read?_dumpOf] at hread
    obtain rfl := Option.some.inj hread
    exact ⟨rfl, (h.flatMap_eq hentries).symm.trans (h'.flatMap_eq hentries')⟩

/-- The theorem for a text with quotes, a backslash and the beginning of a line of a dump in a line of
its own, and for the dumps of a line feed and of the letter that it is written with. -/
theorem read?_render_quotes :
    let text : Text := ['"', '\\', '\n', '0', '.', '.', '1', '\x7f']
    let spans : List Span := [⟨0, 3, .string⟩, ⟨3, 8, .plain⟩]
    let dump : Text :=
      "0..3 String \"\\\"\\\\\\n\"\n3..8 Default \"0..1\\u\x7b7f\x7d\"\n".toList
    (∀ s ∈ spans, s.Valid text) ∧ (render text spans).deliver none = (Text.bytes dump, .finished) ∧
      dump.count '\n' = 2 ∧ (∃ entries, read? dump = some entries ∧ entries.map (·.1) = spans ∧
        ∀ e ∈ entries, e.1.text? text = some e.2) ∧
      Partitions ['\n'] [⟨0, 1, .plain⟩] ∧ Partitions ['n'] [⟨0, 1, .plain⟩] ∧
      (render ['\n'] [⟨0, 1, .plain⟩]).deliver none ≠
        (render ['n'] [⟨0, 1, .plain⟩]).deliver none := by
  intro text spans dump
  have hvalid : ∀ s ∈ spans, s.Valid text := by decide
  have hdeliver : (render text spans).deliver none = (Text.bytes dump, .finished) := by
    decide +kernel
  have hline : Partitions ['\n'] [⟨0, 1, .plain⟩] := ⟨by decide, rfl, rfl⟩
  have hletter : Partitions ['n'] [⟨0, 1, .plain⟩] := ⟨by decide, rfl, rfl⟩
  obtain ⟨hread, hdetermined⟩ := read?_render
  obtain ⟨dump', entries, hdeliver', hspans, hentries, hcount, -, -, hread⟩ := hread text spans hvalid
  obtain rfl : dump = dump' :=
    Output.bytes_injective (congrArg Prod.fst (hdeliver.symm.trans hdeliver'))
  refine ⟨hvalid, hdeliver, hcount, ⟨entries, hread, hspans, hentries⟩, hline, hletter, ?_⟩
  intro hsame
  exact absurd (hdetermined _ _ _ _ hline hletter hsame).2 (by decide)

end SpanDump

end FaustLens
