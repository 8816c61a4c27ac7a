import FaustLens.Proofs.Terminal.Display

/-!
# Plain output

Without styles, printing (`render::render`) is transparent: what is written for some spans depends
on nothing but the text that they make up. Without line numbers it is this text; with them, each of
its lines has a gutter before its first character. Printing only knows where it stands behind the
characters before (`foldl_past`), so it makes no difference where one span ends and the next one
begins.

The width of the gutters is taken from the lines of the whole text. If the spans make up the text,
these are the lines that are numbered, so no number needs more room.

Results:
* `foldl_past`: where printing stands behind a text.
* `map_char_annotate`: the characters of numbered output.
* `numbered_eq_numberedLines`: each line stands behind its number.
* `length_padLeft_gutterWidth`: the numbers of the lines of a text have the same width.
* `deliver_classify`: a classification is written as the text.
* `plain_output`: what is written without styles.
-/

namespace FaustLens.Terminal

variable {text : Text} {width line : Nat}

/-! ## Numbered text -/

/-- What stands before a character, given the text before it: at the beginning and behind a line
feed, the number of the line that begins there. -/
def gutterBehind (width : Nat) (before : Text) : Text :=
  if before = [] ∨ before.getLast? = some '\n' then
    padLeft width (before.count '\n' + 1) ++ [' ']
  else []

/-- The text with a gutter before each character that begins a line. -/
def numbered (width : Nat) (text : Text) : Text :=
  text.zipIdx.flatMap fun x => gutterBehind width (text.take x.2) ++ [x.1]

/-- A line behind its number. -/
def numberedLine (width : Nat) (x : Text × Nat) : Text := padLeft width x.2 ++ ' ' :: x.1

/-- The lines of the text, each behind its number. -/
def numberedLines (width : Nat) (text : Text) : Text :=
  (text.lines.zipIdx 1).flatMap (numberedLine width)

/-! ## The characters of plain output -/

theorem map_fst_sourceOf (text : Text) (spans : List Span) :
    (sourceOf text spans).map (·.1) = slices text spans := by
  simp [sourceOf, slices, List.map_flatMap, Function.comp_def]

/-- Without line numbers there are no gutters. -/
theorem map_char_annotate_false (source : List (Char × Category)) : ∀ now : Progress,
    (annotate false width now source).map (·.char) = source.map (·.1) := by
  have hlead : ∀ now, lead false width now = [] := by simp [lead, gutter]
  induction source with
  | nil => exact fun _ => rfl
  | cons x source ih =>
    intro now
    rw [annotate, hlead, List.nil_append, List.map_cons, ih, List.map_cons]

/-- **Where printing stands** behind a text: in the line behind as many line feeds, which is empty
behind the last of them. -/
theorem foldl_past (before : Text) : before.foldl Progress.past {} =
    ⟨before.count '\n' + 1, decide (before = [] ∨ before.getLast? = some '\n')⟩ := by
  induction before using List.reverseRecOn with
  | nil => rfl
  | append_singleton before c ih =>
    rw [List.foldl_append, ih, List.foldl_cons, List.foldl_nil, Progress.past]
    by_cases hc : c = '\n' <;> simp [hc]

theorem map_char_lead (before : Text) :
    (lead true width (before.foldl Progress.past {})).map (·.char) = gutterBehind width before := by
  rw [foldl_past]
  unfold lead gutterBehind
  by_cases hstart : before = [] ∨ before.getLast? = some '\n'
  · rw [if_pos (decide_eq_true hstart), if_pos hstart, List.map_map]
    exact List.map_id'' (fun _ => rfl) _
  · rw [if_neg (by simpa using hstart), if_neg hstart, List.map_nil]

/-- **The characters of numbered output**, from the end of `before` on. -/
theorem map_char_annotate (width : Nat) (source : List (Char × Category)) (before : Text) :
    (annotate true width (before.foldl Progress.past {}) source).map (·.char) =
      (source.map (·.1)).zipIdx.flatMap fun x =>
        gutterBehind width (before ++ (source.map (·.1)).take x.2) ++ [x.1] := by
  induction source generalizing before with
  | nil => rfl
  | cons x source ih =>
    obtain ⟨c, category⟩ := x
    have hnow : (before.foldl Progress.past {}).past c =
        (before ++ [c]).foldl Progress.past {} := by simp
    rw [annotate, hnow, List.map_append, List.map_cons, map_char_lead, ih, List.map_cons,
      List.zipIdx_cons, List.zipIdx_succ, List.flatMap_cons, List.flatMap_map]
    simp

/-! ## Lines -/

/-- The characters of numbered output in the line `line`, which may be empty or not, and in the
lines behind it. -/
theorem map_char_annotate_lines (width : Nat) (source : List (Char × Category)) (line : Nat)
    (start : Bool) :
    (annotate true width ⟨line, start⟩ source).map (·.char) =
      match Text.lines (source.map (·.1)) with
      | [] => []
      | first :: rest => (lead true width ⟨line, start⟩).map Shown.char ++ first ++
          (rest.zipIdx (line + 1)).flatMap (numberedLine width) := by
  induction source generalizing line start with
  | nil => rfl
  | cons x source ih =>
    obtain ⟨c, category⟩ := x
    rw [annotate, List.map_append, List.map_cons, List.map_cons, Text.lines]
    by_cases hc : c = '\n'
    · -- the rest begins with the gutter of the next line
      subst hc
      rw [if_pos rfl, past_lineFeed, ih]
      cases Text.lines (source.map (·.1)) with
      | nil => simp
      | cons first rest => simp [lead, gutter, numberedLine, Function.comp_def]
    · -- the rest goes on in this line, behind its gutter
      rw [if_neg hc, past_of_ne hc, ih]
      cases Text.lines (source.map (·.1)) with
      | nil => simp
      | cons first rest => simp [lead]

/-- **Each line** of a numbered text stands behind its number. -/
theorem numbered_eq_numberedLines (width : Nat) (text : Text) :
    numbered width text = numberedLines width text := by
  have hchars : (text.map (·, Category.plain)).map (·.1) = text := by simp [Function.comp_def]
  have hnumbered := map_char_annotate width (text.map (·, Category.plain)) []
  have hlines := map_char_annotate_lines width (text.map (·, Category.plain)) 1 true
  rw [hchars] at hnumbered hlines
  refine hnumbered.symm.trans (hlines.trans ?_)
  unfold numberedLines
  cases text.lines with
  | nil => rfl
  | cons first rest => simp [lead, gutter, numberedLine, Function.comp_def]

/-! ## Widths -/

theorem length_padLeft {n : Nat} (h : (toString n).length ≤ width) :
    (padLeft width n).length = width := by
  rw [← String.length_toList] at h
  simp only [padLeft, List.length_append, List.length_replicate]
  omega

/-- **The numbers of the lines** of a text have the same width. -/
theorem length_padLeft_gutterWidth (h : line ≤ text.lines.length) :
    (padLeft (gutterWidth text) line).length = gutterWidth text := by
  apply length_padLeft
  have hmax : max 1 text.lines.length < 10 ^ gutterWidth text :=
    (Nat.length_repr_le_iff Nat.length_repr_pos).mp (Nat.le_refl _)
  have hline : line < 10 ^ gutterWidth text :=
    Nat.lt_of_le_of_lt (Nat.le_trans h (Nat.le_max_right 1 _)) hmax
  exact (Nat.length_repr_le_iff Nat.length_repr_pos).mpr hline

example : gutterWidth (List.replicate 10 '\n') = 2 ∧ padLeft 2 7 = [' ', '7'] := by decide +kernel

/-! ## Plain output -/

section Spans

variable (theme : Theme) {spans : List Span} (hspans : ∀ s ∈ spans, (s.text? text).isSome = true)
include hspans

/-- Without line numbers, the texts of the spans are written. -/
theorem deliver_unnumbered : (render ⟨false, false⟩ theme text spans).deliver none =
    ((slices text spans).bytes, .finished) := by
  rw [deliver_plain theme false hspans, map_char_annotate_false, map_fst_sourceOf]

/-- **With line numbers**, the texts of the spans are written with the gutters of their lines. -/
theorem deliver_numbered : (render ⟨true, false⟩ theme text spans).deliver none =
    ((numbered (gutterWidth text) (slices text spans)).bytes, .finished) := by
  have hchars := map_char_annotate (gutterWidth text) (sourceOf text spans) []
  rw [map_fst_sourceOf] at hchars
  rw [deliver_plain theme true hspans]
  exact congrArg (fun out => (Text.bytes out, Ending.finished)) hchars

end Spans

/-- **The spans of a classification** are written as the text, and with line numbers each line of
it stands behind its number. -/
theorem deliver_classify (theme : Theme) (h : Highlighter) (text : Text) :
    (render ⟨false, false⟩ theme text (h.classify text)).deliver none = (text.bytes, .finished) ∧
      (render ⟨true, false⟩ theme text (h.classify text)).deliver none =
        ((numberedLines (gutterWidth text) text).bytes, .finished) := by
  have hspans : ∀ s ∈ h.classify text, (s.text? text).isSome = true := fun s hs =>
    h.isSome_text?_of_mem_classify hs
  rw [deliver_unnumbered theme hspans, deliver_numbered theme hspans, h.slices_classify,
    numbered_eq_numberedLines]
  exact ⟨rfl, rfl⟩

/-- **Plain output is transparent.** Let `whole` be the texts of the spans, one behind the other.
Without line numbers it is what is written; with line numbers, it is written with a gutter at its
beginning and behind each line feed that is not its last character, which holds the number of the
line. So the categories, the theme and the ends of the spans do not matter. If the spans follow each
other from the beginning of the text to its end, then `whole` is the text, each of its lines is
written behind its number, and the numbers have the same width. -/
theorem plain_output (theme : Theme) {spans : List Span}
    (hspans : ∀ s ∈ spans, (s.text? text).isSome = true) :
    let whole := slices text spans
    (render ⟨false, false⟩ theme text spans).deliver none = (whole.bytes, .finished) ∧
      (render ⟨true, false⟩ theme text spans).deliver none =
        ((numbered (gutterWidth text) whole).bytes, .finished) ∧
      (Contiguous 0 spans text.byteLength → whole = text ∧
        (render ⟨true, false⟩ theme text spans).deliver none =
          ((numberedLines (gutterWidth text) text).bytes, .finished) ∧
        ∀ line ≤ text.lines.length,
          (padLeft (gutterWidth text) line).length = gutterWidth text) := by
  intro whole
  have hnumbered := deliver_numbered theme hspans
  refine ⟨deliver_unnumbered theme hspans, hnumbered, fun hcontiguous => ?_⟩
  have hwhole : slices text spans = text := hcontiguous.slices_eq (a := []) rfl hspans
  refine ⟨hwhole, ?_, fun line hline => length_padLeft_gutterWidth hline⟩
  rw [hnumbered, hwhole, numbered_eq_numberedLines]

/-- The theorem for two lines in three spans, of which one is empty and one begins at a line feed. -/
theorem plain_output_lines :
    let text : Text := ['a', '\n', 'b', '\n']
    let spans : List Span := [⟨0, 1, .comment⟩, ⟨1, 1, .string⟩, ⟨1, 4, .integer⟩]
    (∀ s ∈ spans, (s.text? text).isSome = true) ∧ Contiguous 0 spans text.byteLength ∧
      (render ⟨false, false⟩ .ansi text spans).deliver none = (text.bytes, .finished) ∧
      (render ⟨true, false⟩ .ansi text spans).deliver none =
        (Text.bytes ['1', ' ', 'a', '\n', '2', ' ', 'b', '\n'], .finished) := by
  intro text spans
  have hspans : ∀ s ∈ spans, (s.text? text).isSome = true := by decide
  have hcontiguous : Contiguous 0 spans text.byteLength := ⟨rfl, rfl, rfl, rfl⟩
  obtain ⟨hplain, -, hlines⟩ := plain_output .ansi hspans
  obtain ⟨hwhole, hnumbered, -⟩ := hlines hcontiguous
  refine ⟨hspans, hcontiguous, hwhole ▸ hplain, hnumbered.trans ?_⟩
  decide +kernel

end FaustLens.Terminal
