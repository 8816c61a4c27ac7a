import FaustLens.Proofs.Boundaries
import FaustLens.Rtf
import Mathlib.Data.List.Nodup

/-!
# The structure of RTF documents

A reader of a document that `render::rtf` wrote finds its groups by the braces that no backslash
escapes (`Nesting`). All that a document holds has complete groups: escaped text opens none, a run
in a style is one group of its own, and the control words hold no brace. So the document is one
group too (`Enclosed`).

The control words of a run name the colour of its style by the number of an entry of the colour
table. The table lists each colour of the theme once, so the number is that of the colour, and the
number 0 is never written.

Results:
* `Complete.append`, `Complete.group`: complete groups one behind the other, and in a group.
* `complete_escape`: escaped text opens no group.
* `nodup_colorEntries`: the entries of the colour table are written differently.
* `getElem?_colorIndex`: the entry found for a colour is this colour.
* `written_styled`: what a run in a style looks like.
* `render_document`: the document as a whole.
-/

namespace FaustLens.Rtf

/-! ## Groups -/

/-- What a reader of groups knows: how many are open, and whether a backslash escapes the next
character. -/
structure Nesting where
  depth : Nat := 0
  escaped : Bool := false
deriving DecidableEq, Repr, Inhabited

namespace Nesting

/-- Read a character. A brace that closes no group is an error. -/
def step (n : Nesting) (c : Char) : Option Nesting :=
  if n.escaped then some ⟨n.depth, false⟩
  else if c = '\\' then some ⟨n.depth, true⟩
  else if c = '\x7b' then some ⟨n.depth + 1, false⟩
  else if c = '\x7d' then if n.depth = 0 then none else some ⟨n.depth - 1, false⟩
  else some n

/-- Read a text. -/
def read (n : Nesting) : Text → Option Nesting
  | [] => some n
  | c :: rest => (n.step c).bind (·.read rest)

/-- The same inside of `k` more groups. -/
def within (k : Nat) (n : Nesting) : Nesting := ⟨n.depth + k, n.escaped⟩

variable {n n' : Nesting}

theorem read_append (a b : Text) (n : Nesting) : n.read (a ++ b) = (n.read a).bind (·.read b) := by
  induction a generalizing n with
  | nil => rfl
  | cons c a ih =>
    rw [List.cons_append, read, read, Option.bind_assoc]
    exact congrArg _ (funext fun m => ih m)

theorem step_within {c : Char} (k : Nat) (h : n.step c = some n') :
    (n.within k).step c = some (n'.within k) := by
  obtain ⟨d, e⟩ := n
  unfold step at h ⊢
  unfold within
  cases e with
  | true =>
    obtain rfl := Option.some.inj h
    rfl
  | false =>
    simp only [Bool.false_eq_true, if_false] at h ⊢
    by_cases hbackslash : c = '\\'
    · simp only [if_pos hbackslash] at h ⊢
      obtain rfl := Option.some.inj h
      rfl
    by_cases hopen : c = '\x7b'
    · simp only [if_neg hbackslash, if_pos hopen] at h ⊢
      obtain rfl := Option.some.inj h
      rw [Nat.add_right_comm]
    by_cases hclose : c = '\x7d'
    · simp only [if_neg hbackslash, if_neg hopen, if_pos hclose] at h ⊢
      split at h
      · exact absurd h (by simp)
      · -- a group that is open here is open inside of the others
        rename_i hdepth
        obtain rfl := Option.some.inj h
        rw [if_neg (by omega), Nat.sub_add_comm (Nat.pos_of_ne_zero hdepth)]
    · simp only [if_neg hbackslash, if_neg hopen, if_neg hclose] at h ⊢
      obtain rfl := Option.some.inj h
      rfl

/-- What is read goes the same way inside of other groups. -/
theorem read_within {a : Text} (k : Nat) (h : n.read a = some n') :
    (n.within k).read a = some (n'.within k) := by
  induction a generalizing n with
  | nil =>
    obtain rfl := Option.some.inj h
    rfl
  | cons c a ih =>
    obtain ⟨m, hstep, hread⟩ := Option.bind_eq_some_iff.mp h
    rw [read, step_within k hstep]
    exact ih hread

end Nesting

/-- The number of groups that are open behind a text. -/
def depth? (text : Text) : Option Nat := (({} : Nesting).read text).map (·.depth)

/-- A text whose groups are complete, and that does not end in an escape. -/
def Complete (text : Text) : Prop := ({} : Nesting).read text = some {}

instance (text : Text) : Decidable (Complete text) :=
  inferInstanceAs (Decidable (({} : Nesting).read text = some {}))

/-- A document that is one group: from the first brace on a group is open, until the last brace
closes it, and only a line feed follows. -/
def Enclosed (doc : Text) : Prop :=
  ∃ body, doc = body ++ ['\x7d', '\n'] ∧
    (∀ a, a ≠ [] → a <+: body → ∃ d, depth? a = some (d + 1)) ∧
    depth? (body ++ ['\x7d']) = some 0 ∧ depth? doc = some 0

example : depth? ['\x7b', '\\', '\x7d'] = some 1 := by decide

variable {a b : Text}

theorem complete_nil : Complete [] := rfl

/-- **Complete groups** one behind the other. -/
theorem Complete.append (h : Complete a) (h' : Complete b) : Complete (a ++ b) := by
  unfold Complete at *
  rw [Nesting.read_append, h]
  exact h'

theorem complete_flatMap {α : Type} {f : α → Text} {l : List α} (h : ∀ x ∈ l, Complete (f x)) :
    Complete (l.flatMap f) := by
  induction l with
  | nil => exact complete_nil
  | cons x l ih =>
    rw [List.forall_mem_cons] at h
    exact h.1.append (ih h.2)

theorem Complete.depth?_eq_zero (h : Complete a) : depth? a = some 0 := by
  unfold depth?
  rw [h]
  rfl

/-- **A group** around complete groups. -/
theorem Complete.group (h : Complete a) : Complete ('\x7b' :: a ++ ['\x7d']) := by
  have hopen : Nesting.step {} '\x7b' = some ⟨1, false⟩ := rfl
  have hinside : Nesting.read ⟨1, false⟩ a = some ⟨1, false⟩ := Nesting.read_within 1 h
  unfold Complete
  rw [List.cons_append, Nesting.read, hopen, Option.bind_some, Nesting.read_append, hinside]
  rfl

/-- A group around complete groups, with a line feed behind it, is a document. -/
theorem Complete.enclosed (h : Complete a) : Enclosed ('\x7b' :: a ++ ['\x7d', '\n']) := by
  have hgroup : Complete ('\x7b' :: a ++ ['\x7d']) := h.group
  have hline : Complete ('\x7b' :: a ++ ['\x7d', '\n']) := by
    have happend := hgroup.append (b := ['\n']) (by decide)
    rwa [List.append_assoc] at happend
  refine ⟨'\x7b' :: a, rfl, ?_, hgroup.depth?_eq_zero, hline.depth?_eq_zero⟩
  intro p hne hp
  obtain ⟨c, q, rfl⟩ := List.exists_cons_of_ne_nil hne
  obtain ⟨rfl, r, rfl⟩ := List.cons_prefix_cons.mp hp
  -- what is read of the inside is read in the group of the first brace
  unfold Complete at h
  rw [Nesting.read_append] at h
  obtain ⟨n, hread, -⟩ := Option.bind_eq_some_iff.mp h
  have hinside : Nesting.read ⟨1, false⟩ q = some (n.within 1) := Nesting.read_within 1 hread
  refine ⟨n.depth, ?_⟩
  unfold depth?
  rw [Nesting.read, show Nesting.step {} '\x7b' = some ⟨1, false⟩ from rfl, Option.bind_some,
    hinside]
  rfl

/-! ## Words and escaped text -/

/-- Whether a character is neither a brace nor a backslash. -/
def ordinary (c : Char) : Bool := c ≠ '\\' && c ≠ '\x7b' && c ≠ '\x7d'

theorem ordinary_of_isDigit {c : Char} (h : c.isDigit = true) : ordinary c = true := by
  have hne : ∀ d : Char, d.isDigit = false → c ≠ d := by
    rintro d hd rfl
    exact absurd h (by simp [hd])
  simp [ordinary, hne '\\' rfl, hne '\x7b' rfl, hne '\x7d' rfl]

theorem complete_of_ordinary (h : a.all ordinary = true) : Complete a := by
  induction a with
  | nil => exact complete_nil
  | cons c a ih =>
    rw [List.all_cons, Bool.and_eq_true] at h
    have hstep : Nesting.step {} c = some {} := by
      have hc := h.1
      simp only [ordinary, ne_eq, decide_not, Bool.and_eq_true, Bool.not_eq_eq_eq_not,
        Bool.not_true, decide_eq_false_iff_not] at hc
      simp [Nesting.step, hc]
    unfold Complete
    rw [Nesting.read, hstep]
    exact ih h.2

/-- A backslash with the character behind it, and some ordinary characters. -/
theorem complete_word (c : Char) (h : a.all ordinary = true) : Complete ('\\' :: c :: a) :=
  Complete.append (a := ['\\', c]) rfl (complete_of_ordinary h)

theorem all_ordinary_repr (n : Nat) : (toString n).toList.all ordinary = true := by
  rw [List.all_eq_true]
  exact fun c hc => ordinary_of_isDigit (Text.isDigit_of_mem_toString hc)

theorem all_ordinary_int (i : Int) : (toString i).toList.all ordinary = true := by
  cases i with
  | ofNat n => exact all_ordinary_repr n
  | negSucc n =>
    have htext : toString (Int.negSucc n) = "-" ++ toString (n + 1) := rfl
    rw [htext, String.toList_append, List.all_append, all_ordinary_repr, Bool.and_true]
    rfl

theorem escapeUnit_eq (unit : Nat) :
    escapeUnit unit = '\\' :: 'u' :: ((toString (signed unit)).toList ++ ['?']) := by
  unfold escapeUnit
  rw [String.toList_append, String.toList_append]
  rfl

theorem complete_escapeUnit (unit : Nat) : Complete (escapeUnit unit) := by
  rw [escapeUnit_eq]
  refine complete_word 'u' ?_
  rw [List.all_append, all_ordinary_int, Bool.true_and]
  rfl

/-- The ways in which a character is escaped. -/
inductive EscapedAs (c : Char) : Text → Prop
  | symbol (h : ordinary c = false) : EscapedAs c ['\\', c]
  | lineFeed (h : c = '\n') : EscapedAs c ['\\', 'p', 'a', 'r', '\n']
  | tab (h : c = '\t') : EscapedAs c ['\\', 't', 'a', 'b', ' ']
  | carriageReturn (h : c = '\r') : EscapedAs c []
  | plain (hordinary : ordinary c = true) (hprintable : ' ' ≤ c ∧ c ≤ '~') : EscapedAs c [c]
  | units (hline : c ≠ '\n') (hreturn : c ≠ '\r') :
    EscapedAs c ((Text.charUnits c).flatMap escapeUnit)

theorem escapedAs_escapeChar (c : Char) : EscapedAs c (escapeChar c) := by
  unfold escapeChar
  split
  · exact .symbol rfl
  · exact .symbol rfl
  · exact .symbol rfl
  · exact .lineFeed rfl
  · exact .tab rfl
  · exact .carriageReturn rfl
  · rename_i hbackslash hopen hclose hline _ hreturn
    split
    · rename_i hprintable
      refine .plain ?_ hprintable
      simpa [ordinary] using ⟨⟨hbackslash, hopen⟩, hclose⟩
    · exact .units hline hreturn

theorem EscapedAs.complete {c : Char} {escaped : Text} (h : EscapedAs c escaped) :
    Complete escaped := by
  cases h with
  | symbol _ => rfl
  | lineFeed _ => decide
  | tab _ => decide
  | carriageReturn _ => exact complete_nil
  | plain hordinary _ => exact complete_of_ordinary (by simpa using hordinary)
  | units _ _ => exact complete_flatMap fun unit _ => complete_escapeUnit unit

/-- **Escaped text** opens no group. -/
theorem complete_escape (text : Text) : Complete (escape text) :=
  complete_flatMap fun c _ => (escapedAs_escapeChar c).complete

/-! ## Colours -/

variable {table : List Rgb} {theme : Theme} {s : Style} {v : Rgb} {text part : Text}
  {spans : List Span}

theorem nodup_eraseDups {α : Type} [BEq α] [LawfulBEq α] : ∀ l : List α, l.eraseDups.Nodup
  | [] => List.nodup_nil
  | x :: l => by
    rw [List.eraseDups_cons, List.nodup_cons]
    exact ⟨by simp, nodup_eraseDups _⟩
termination_by l => l.length
decreasing_by exact Nat.lt_succ_of_le (List.length_filter_le _ _)

/-- A number is known from its digits and a character behind them. -/
theorem eq_of_digits {m n : Nat} {c : Char} (hc : ¬ c.isDigit = true)
    (h : (toString m).toList ++ c :: a = (toString n).toList ++ c :: b) : m = n ∧ a = b := by
  obtain ⟨heq, hrest⟩ := Text.eq_of_run (y := c :: a) (z := c :: b)
    (fun _ => Text.isDigit_of_mem_toString) (fun _ => Text.isDigit_of_mem_toString)
    (by simpa using hc) (by simpa using hc) h
  have hnumber := congrArg (Nat.ofDigitChars 10 · 0) heq
  simp only [Text.ofDigitChars_toString] at hnumber
  exact ⟨hnumber, List.tail_eq_of_cons_eq hrest⟩

theorem toList_colorEntry (v : Rgb) : (colorEntry v).toList =
    "\\red".toList ++ ((toString v.red.toNat).toList ++ '\\' :: ("green".toList ++
      ((toString v.green.toNat).toList ++ '\\' :: ("blue".toList ++
        ((toString v.blue.toNat).toList ++ [';']))))) := by
  unfold colorEntry
  simp only [String.toList_append, List.append_assoc]
  rfl

/-- **Different colours** have different entries. -/
theorem colorEntry_injective : Function.Injective colorEntry := by
  intro v w h
  have htext := congrArg String.toList h
  rw [toList_colorEntry, toList_colorEntry] at htext
  obtain ⟨hred, htext⟩ := eq_of_digits (by decide) (List.append_cancel_left htext)
  obtain ⟨hgreen, htext⟩ := eq_of_digits (by decide) (List.append_cancel_left htext)
  obtain ⟨hblue, -⟩ := eq_of_digits (by decide) (List.append_cancel_left htext)
  obtain ⟨r, g, b⟩ := v
  rw [Rgb.mk.injEq]
  exact ⟨UInt8.toNat_inj.mp hred, UInt8.toNat_inj.mp hgreen, UInt8.toNat_inj.mp hblue⟩

/-- **The entries of the colour table** are written differently. -/
theorem nodup_colorEntries (theme : Theme) : ((colorTable theme).map colorEntry).Nodup :=
  (nodup_eraseDups _).map colorEntry_injective

/-- **The number of a colour** in the table is that of its entry. -/
theorem getElem?_colorIndex (h : v ∈ table) : 1 ≤ colorIndex table v ∧
    colorIndex table v ≤ table.length ∧ table[colorIndex table v - 1]? = some v := by
  have hsome : table.findIdx? (· == v) = some (table.findIdx (· == v)) :=
    List.findIdx?_eq_some_of_exists ⟨v, h, beq_self_eq_true v⟩
  obtain ⟨hlt, hv, -⟩ := List.findIdx?_eq_some_iff_getElem.mp hsome
  unfold colorIndex
  rw [hsome]
  refine ⟨Nat.le_add_left 1 _, hlt, ?_⟩
  rw [Nat.add_sub_cancel, List.getElem?_eq_getElem hlt, eq_of_beq hv]

/-! ## Runs -/

/-- A control word that sets a style. -/
inductive Control
  /-- The colour with the number. -/
  | color (index : Nat)
  /-- Bold type. -/
  | bold
  /-- Italic type. -/
  | italic
deriving DecidableEq, Repr, Inhabited

/-- How a control word is written. -/
def Control.word : Control → String
  | .color n => "\\cf" ++ toString n
  | .bold => "\\b"
  | .italic => "\\i"

/-- The control words set the style: some colour iff its foreground is not the automatic one, and
then by the number of the entry that is the foreground's value; and the attributes that it has. -/
structure Sets (table : List Rgb) (s : Style) (words : List Control) : Prop where
  nonempty : words ≠ []
  color_iff : (∃ n, .color n ∈ words) ↔ s.foreground ≠ .automatic
  entry : ∀ n, .color n ∈ words →
    1 ≤ n ∧ n ≤ table.length ∧ table[n - 1]? = s.foreground.rgb?
  bold_iff : .bold ∈ words ↔ s.bold = true
  italic_iff : .italic ∈ words ↔ s.italic = true

/-- How a part is written in a style: as it is in the default style, and in any other as a group,
where a space ends the control words. -/
inductive Written (table : List Rgb) (s : Style) (part : Text) : Text → Prop
  | plain (hdefault : s = .default) : Written table s part (escape part)
  | group (hdefault : s ≠ .default) {words : List Control} (hwords : Sets table s words) :
    Written table s part
      ('\x7b' :: (words.flatMap fun w => w.word.toList) ++ ' ' :: escape part ++ ['\x7d'])

/-- The control words of a style. -/
def controlWords (table : List Rgb) (s : Style) : List Control :=
  (s.foreground.rgb?.map fun v => Control.color (colorIndex table v)).toList ++
    (if s.bold then [.bold] else []) ++ (if s.italic then [.italic] else [])

theorem toList_controls (table : List Rgb) (s : Style) :
    (controls table s).toList = (controlWords table s).flatMap fun w => w.word.toList := by
  unfold controls controlWords
  rw [String.toList_append, String.toList_append, List.flatMap_append, List.flatMap_append]
  congr 1
  · congr 1
    · cases s.foreground.rgb? with
      | none => rfl
      | some v => exact (List.flatMap_singleton _ _).symm
    · cases s.bold <;> rfl
  · cases s.italic <;> rfl

theorem color_mem_controlWords_iff {n : Nat} : .color n ∈ controlWords table s ↔
    ∃ v, s.foreground.rgb? = some v ∧ colorIndex table v = n := by
  unfold controlWords
  cases s.bold <;> cases s.italic <;> simp

/-- **The control words of a style** set it if the table holds its colour. -/
theorem sets_controlWords (hdefault : s ≠ .default)
    (h : ∀ v, s.foreground.rgb? = some v → v ∈ table) : Sets table s (controlWords table s) where
  nonempty := by
    intro hnil
    refine hdefault ?_
    obtain ⟨c, bold, italic⟩ := s
    cases bold <;> cases italic <;> simp [controlWords, Color.rgb?_eq_none_iff] at hnil
    rw [hnil]
    rfl
  color_iff := by
    have hrgb : s.foreground ≠ .automatic ↔ ∃ v, s.foreground.rgb? = some v := by
      rw [← Option.ne_none_iff_exists', ne_eq, ne_eq, Color.rgb?_eq_none_iff]
    simp only [color_mem_controlWords_iff, hrgb]
    constructor
    · rintro ⟨n, v, hv, -⟩
      exact ⟨v, hv⟩
    · rintro ⟨v, hv⟩
      exact ⟨_, v, hv, rfl⟩
  entry := by
    intro n hn
    obtain ⟨v, hv, rfl⟩ := color_mem_controlWords_iff.mp hn
    rw [hv]
    exact getElem?_colorIndex (h v hv)
  bold_iff := by
    unfold controlWords
    cases s.bold <;> cases s.italic <;> simp
  italic_iff := by
    unfold controlWords
    cases s.bold <;> cases s.italic <;> simp

/-- **A run in a style.** -/
theorem written_styled (h : ∀ v, s.foreground.rgb? = some v → v ∈ table) (part : Text) :
    Written table s part (styled table s part) := by
  unfold styled
  split
  · rename_i hdefault
    exact .plain ((Style.isDefault_iff s).mp hdefault)
  · rename_i hdefault
    have hne : s ≠ .default := fun heq => hdefault ((Style.isDefault_iff s).mpr heq)
    rw [toList_controls]
    exact .group hne (sets_controlWords hne h)

theorem complete_controlWord (w : Control) : Complete w.word.toList := by
  cases w with
  | color n =>
    have htext : (Control.color n).word.toList = '\\' :: 'c' :: ('f' :: (toString n).toList) := by
      unfold Control.word
      rw [String.toList_append]
      rfl
    rw [htext]
    refine complete_word 'c' ?_
    rw [List.all_cons, all_ordinary_repr, Bool.and_true]
    rfl
  | bold => decide
  | italic => decide

/-- **A run** has complete groups, whatever braces its part holds. -/
theorem Written.complete {run : Text} (h : Written table s part run) : Complete run := by
  cases h with
  | plain hdefault => exact complete_escape part
  | @group hdefault words hwords =>
    have hcontrols : Complete (words.flatMap fun w => w.word.toList) :=
      complete_flatMap fun w _ => complete_controlWord w
    have hspace : Complete (' ' :: escape part) :=
      Complete.append (a := [' ']) (by decide) (complete_escape part)
    exact (hcontrols.append hspace).group

/-! ## The document -/

/-- The version and the font of a document. -/
def fonts : Text :=
  "\\rtf1\\ansi\\deff0\x7b\\fonttbl\x7b\\f0\\fmodern Menlo;\x7d\x7d\n".toList

/-- The entries of a colour table behind the control word for them. -/
def entries (table : List Rgb) : Text :=
  "\\colortbl;".toList ++ table.flatMap fun v => (colorEntry v).toList

/-- What stands before the runs of a document. -/
def preamble (table : List Rgb) : Text :=
  fonts ++ ('\x7b' :: entries table ++ ['\x7d']) ++ "\n\\f0\\fs26\n".toList

/-- A document with a colour table and some runs. -/
def document (table : List Rgb) (runs : List Text) : Text :=
  '\x7b' :: (preamble table ++ runs.flatten) ++ ['\x7d', '\n']

/-- A run of a span: the span's part of the text, written in the style of its category. -/
def IsRun (theme : Theme) (text : Text) (s : Span) (run : Text) : Prop :=
  ∃ part, s.text? text = some part ∧
    Written (colorTable theme) (theme.style s.category) part run

theorem complete_colorEntry (v : Rgb) : Complete (colorEntry v).toList := by
  have hword : ∀ (c : Char) (w : Text) (n : Nat), w.all ordinary = true →
      Complete ('\\' :: c :: (w ++ (toString n).toList)) := by
    intro c w n hw
    refine complete_word c ?_
    rw [List.all_append, hw, all_ordinary_repr]
    rfl
  have hred := hword 'r' ['e', 'd'] v.red.toNat rfl
  have hgreen := hword 'g' ['r', 'e', 'e', 'n'] v.green.toNat rfl
  have hblue := hword 'b' ['l', 'u', 'e'] v.blue.toNat rfl
  have hentry := ((hred.append hgreen).append hblue).append (b := [';']) (by decide)
  rw [toList_colorEntry]
  simpa using hentry

theorem complete_preamble (table : List Rgb) : Complete (preamble table) := by
  have hfonts : Complete fonts := by decide +kernel
  have hentries : Complete (entries table) :=
    Complete.append (by decide +kernel) (complete_flatMap fun v _ => complete_colorEntry v)
  exact (hfonts.append hentries.group).append (by decide +kernel)

/-- The runs of some spans have complete groups. -/
theorem complete_of_isRun {runs : List Text} (h : List.Forall₂ (IsRun theme text) spans runs) :
    ∀ run ∈ runs, Complete run := by
  induction h with
  | nil => exact fun _ hrun => absurd hrun List.not_mem_nil
  | cons hrun _ ih =>
    obtain ⟨part, -, hwritten⟩ := hrun
    exact List.forall_mem_cons.mpr ⟨hwritten.complete, ih⟩

/-- **A document of complete runs** is one group. -/
theorem enclosed_document {runs : List Text} (h : ∀ run ∈ runs, Complete run)
    (table : List Rgb) : Enclosed (document table runs) := by
  have hruns : Complete runs.flatten := by
    rw [← List.flatMap_id]
    exact complete_flatMap h
  exact ((complete_preamble table).append hruns).enclosed

theorem text?_header (table : List Rgb) :
    (header table).text? = some ('\x7b' :: preamble table) := by
  have hsay : ∀ t : String, (Output.say t).text? = some t.toList := fun t => by
    simp [Output.say, Output.text?]
  have hentries : table.flatMap (fun v => Output.say (colorEntry v)) =
      (table.map fun v => (colorEntry v).toList).map Action.write := by
    rw [List.map_map]
    exact List.map_eq_flatMap.symm
  have hopen :
    "\x7b\\rtf1\\ansi\\deff0\x7b\\fonttbl\x7b\\f0\\fmodern Menlo;\x7d\x7d\n\x7b\\colortbl;".toList =
      '\x7b' :: (fonts ++ '\x7b' :: "\\colortbl;".toList) := by
    decide +kernel
  have hclose : "\x7d\n\\f0\\fs26\n".toList = '\x7d' :: "\n\\f0\\fs26\n".toList := rfl
  unfold header preamble entries
  rw [List.append_assoc, Output.text?_append (hsay _), hentries,
    Output.text?_append (Output.text?_map_write _), hsay, hopen, hclose]
  -- from here on only the order of the parts matters
  generalize fonts = font, "\\colortbl;".toList = word, "\n\\f0\\fs26\n".toList = size
  rw [Option.map_some, Option.map_some]
  simp only [List.flatMap_def, List.append_assoc, List.cons_append, List.nil_append]

/-- **The spans** are written as runs, one for each. -/
theorem text?_renderSpans (hspans : ∀ s ∈ spans, (s.text? text).isSome = true) (theme : Theme) :
    ∃ runs, (renderSpans (colorTable theme) theme text spans).text? =
        some (runs.flatten ++ ['\x7d', '\n']) ∧ List.Forall₂ (IsRun theme text) spans runs := by
  induction spans with
  | nil => exact ⟨[], rfl, .nil⟩
  | cons s spans ih =>
    rw [List.forall_mem_cons] at hspans
    obtain ⟨part, hpart⟩ := Option.isSome_iff_exists.mp hspans.1
    obtain ⟨runs, hruns, hwritten⟩ := ih hspans.2
    refine ⟨styled (colorTable theme) (theme.style s.category) part :: runs, ?_, ?_⟩
    · simp [renderSpans, hpart, Output.text?, hruns]
    · refine .cons ⟨part, hpart, written_styled (fun v hv => ?_) part⟩ hwritten
      exact mem_colorTable.mpr ⟨s.category, hv⟩

/-- **The document** of spans that have their texts. It is one group, which its last brace closes;
the entries of its colour table differ; and each span is written as a run: without a group in the
default style, and in any other style as a group whose control words set this style, the colour by
the number of an entry that is its value. -/
theorem render_document (hspans : ∀ s ∈ spans, (s.text? text).isSome = true) (theme : Theme) :
    ∃ runs, (render theme text spans).deliver none =
        (Text.bytes (document (colorTable theme) runs), .finished) ∧
      Enclosed (document (colorTable theme) runs) ∧
      ((colorTable theme).map colorEntry).Nodup ∧
      List.Forall₂ (IsRun theme text) spans runs := by
  obtain ⟨runs, hruns, hwritten⟩ := text?_renderSpans hspans theme
  have htext : (render theme text spans).text? = some (document (colorTable theme) runs) := by
    unfold render
    rw [Output.text?_append (text?_header _), hruns]
    simp [document]
  exact ⟨runs, Output.deliver_none_of_text? htext,
    enclosed_document (complete_of_isRun hwritten) _, nodup_colorEntries theme, hwritten⟩

/-- The theorem for a brace and a backslash in a group, with a character behind it. -/
theorem render_document_brace :
    let text : Text := ['\x7b', '\\', 'x']
    let spans : List Span := [⟨0, 2, .keyword⟩, ⟨2, 3, .plain⟩]
    (∀ s ∈ spans, (s.text? text).isSome = true) ∧
      ∃ runs, (render .ansi text spans).deliver none =
          (Text.bytes (document (colorTable .ansi) runs), .finished) ∧
        Enclosed (document (colorTable .ansi) runs) ∧ runs.length = 2 := by
  intro text spans
  have hspans : ∀ s ∈ spans, (s.text? text).isSome = true := by decide
  obtain ⟨runs, hbytes, henclosed, -, hruns⟩ := render_document hspans .ansi
  exact ⟨hspans, runs, hbytes, henclosed, hruns.length_eq.symm⟩

end FaustLens.Rtf
