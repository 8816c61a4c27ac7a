import FaustLens.Proofs.Boundaries
import FaustLens.Proofs.Terminal.Machine
import FaustLens.Terminal

/-!
# What coloured output displays

What `Terminal.render` prints is described by the characters that a reader sees (`annotate`): those
of the spans, each with its category, and before the first character of each line the gutter. Plain
output is these characters. A terminal that gets coloured output shows the same characters, each in
the style of its category, and the gutters dim; every piece is printed from the default look on and
leaves it behind, so a style does not leak into the next piece.

Premise: the environment variable `NO_COLOR` is unset or empty, as in `FaustLens.Terminal`. If it is
set, the library `crossterm` leaves the colours out, and only the attributes of styles are shown.

Results:
* `look_injective`: a terminal shows different styles differently.
* `shows_styled`, `prints_gutter`: what is shown for a piece and for a gutter.
* `prints_renderSpans`: plain and coloured output print the annotated characters.
* `deliver_plain`: plain output is these characters.
* `colored_display`: coloured output displays plain output in the styles of the theme.
-/

namespace FaustLens.Terminal

/-! ## Looks of styles -/

/-- The colour that a terminal shows for a foreground. -/
def ink : Color → Ink
  | .automatic => .automatic
  | .ansi h bright => .palette (if bright then h.index + 8 else h.index)
  | .rgb v => .direct v.red.toNat v.green.toNat v.blue.toNat

/-- How a terminal shows a style. -/
def look (s : Style) : Look := { ink := ink s.foreground, bold := s.bold, italic := s.italic }

theorem index_lt (h : Hue) : h.index < 8 := by
  cases h <;> decide

theorem index_injective : Function.Injective Hue.index := by
  intro h h' heq
  have hsome := h.getElem?_index
  rw [heq, h'.getElem?_index] at hsome
  exact (Option.some.inj hsome).symm

/-- **Different colours look different.** -/
theorem ink_injective : Function.Injective ink := by
  intro c d heq
  cases c with
  | automatic =>
    cases d with
    | automatic => rfl
    | ansi h bright => exact absurd heq (by simp [ink])
    | rgb v => exact absurd heq (by simp [ink])
  | ansi h bright =>
    cases d with
    | automatic => exact absurd heq (by simp [ink])
    | ansi h' bright' =>
      -- the bright colours come behind the others in the palette
      have hlt := index_lt h
      have hlt' := index_lt h'
      simp only [ink, Ink.palette.injEq] at heq
      have hbright : bright = bright' ∧ h.index = h'.index := by
        cases bright <;> cases bright' <;> simp at heq ⊢ <;> omega
      rw [hbright.1, index_injective hbright.2]
    | rgb v => exact absurd heq (by simp [ink])
  | rgb v =>
    cases d with
    | automatic => exact absurd heq (by simp [ink])
    | ansi h bright => exact absurd heq (by simp [ink])
    | rgb w =>
      simp only [ink, Ink.direct.injEq, UInt8.toNat_inj] at heq
      obtain ⟨r, g, b⟩ := v
      obtain ⟨rfl, rfl, rfl⟩ := heq
      rfl

/-- **Different styles look different.** -/
theorem look_injective : Function.Injective look := by
  intro s t h
  obtain ⟨c, bold, italic⟩ := s
  obtain ⟨d, bold', italic'⟩ := t
  simp only [look, Look.mk.injEq] at h
  obtain ⟨hink, rfl, -, rfl⟩ := h
  rw [ink_injective hink]

/-! ## Pieces -/

/-- The numbers that select a foreground. -/
def selection : Color → List Nat
  | .automatic => [39]
  | .ansi h bright => [38, 5, if bright then h.index + 8 else h.index]
  | .rgb v => [38, 2, v.red.toNat, v.green.toNat, v.blue.toNat]

theorem toList_foreground (c : Color) : (foreground c).toList = numbers (selection c) := by
  cases c with
  | automatic => rfl
  | ansi h bright =>
    simp only [foreground, String.toList_append]
    rfl
  | rgb v =>
    simp only [foreground, selection, numbers, String.toList_append, List.append_assoc]
    rfl

/-- A sequence whose parameters are numbers that the terminal knows. -/
theorem shows_of_numbers {l l' : Look} {parameters : String} {p : List Nat} (hne : p ≠ [])
    (hp : parameters.toList = numbers p) (h : l.select p = some l') :
    Shows ⟨.text, l⟩ (sequence parameters).toList [] ⟨.text, l'⟩ := by
  have htext : (sequence parameters).toList = '\x1b' :: '[' :: (numbers p ++ ['m']) := by
    unfold sequence
    rw [String.toList_append, String.toList_append, hp]
    rfl
  rw [htext]
  exact shows_sequence hne h

theorem select_selection (l : Look) (c : Color) :
    l.select (selection c) = some { l with ink := ink c } := by
  cases c <;> rfl

/-- The sequences that set a style, from the default look on. -/
theorem shows_begin (s : Style) : Shows {} (begin s).toList [] ⟨.text, look s⟩ := by
  have hink : Shows {} (sequence (foreground s.foreground)).toList []
      ⟨.text, { ink := ink s.foreground }⟩ :=
    shows_of_numbers (by cases s.foreground <;> simp [selection]) (toList_foreground _)
      (select_selection {} _)
  have hbold : ∀ l : Look, l.bold = false → Shows ⟨.text, l⟩
      (if s.bold then sequence "1" else "").toList [] ⟨.text, { l with bold := s.bold }⟩ := by
    intro l hl
    cases s.bold with
    | true => exact shows_of_numbers (p := [1]) (by simp) rfl rfl
    | false =>
      have hsame : ({ l with bold := false } : Look) = l := by rw [← hl]
      rw [hsame]
      exact shows_nil _
  have hitalic : ∀ l : Look, l.italic = false → Shows ⟨.text, l⟩
      (if s.italic then sequence "3" else "").toList [] ⟨.text, { l with italic := s.italic }⟩ := by
    intro l hl
    cases s.italic with
    | true => exact shows_of_numbers (p := [3]) (by simp) rfl rfl
    | false =>
      have hsame : ({ l with italic := false } : Look) = l := by rw [← hl]
      rw [hsame]
      exact shows_nil _
  unfold begin
  rw [String.toList_append, String.toList_append]
  exact (hink.append (hbold _ rfl)).append (hitalic _ rfl)

/-- The sequences that leave a style. -/
theorem shows_finish (l : Look) : Shows ⟨.text, l⟩ finish.toList [] {} := by
  have hreset : ∀ l : Look, Shows ⟨.text, l⟩ (sequence "0").toList [] {} := fun l =>
    shows_of_numbers (p := [0]) (by simp) rfl rfl
  unfold finish
  rw [String.toList_append]
  exact (hreset l).append (hreset {})

/-- **A piece in a style** is shown in this style, and the look is the default one before it and
behind it. -/
theorem shows_styled (s : Style) {piece : Text} (h : '\x1b' ∉ piece) :
    Shows {} (styled true s piece) (piece.map (⟨·, look s⟩)) {} := by
  unfold styled
  split
  · rename_i hempty
    obtain rfl := List.isEmpty_iff.mp hempty
    exact shows_nil _
  · simp only [Bool.not_true, Bool.false_or]
    split
    · rename_i hdefault
      obtain rfl := (Style.isDefault_iff s).mp hdefault
      exact shows_plain {} h
    · have hpiece := ((shows_begin s).append (shows_plain (look s) h)).append (shows_finish _)
      simpa using hpiece

/-! ## The characters of an output -/

/-- What a character of an output is. -/
inductive Role
  /-- A character of a gutter. -/
  | gutter
  /-- A character of a span with the category. -/
  | source (category : Category)
deriving DecidableEq, Repr, Inhabited

/-- A character of an output. -/
structure Shown where
  char : Char
  role : Role
deriving DecidableEq, Repr, Inhabited

namespace Shown

/-- The character of a span, with the span's category. -/
def source? (s : Shown) : Option (Char × Category) :=
  match s.role with
  | .gutter => none
  | .source c => some (s.char, c)

/-- How a terminal shows the character: gutters dim, line feeds in the default look, and any other
character in the style of its category. -/
def cell (theme : Theme) (s : Shown) : Cell :=
  ⟨s.char, match s.role with
    | .gutter => { dim := true }
    | .source c => if s.char = '\n' then {} else look (theme.style c)⟩

end Shown

/-- The characters of the spans, with their categories. -/
def sourceOf (text : Text) (spans : List Span) : List (Char × Category) :=
  spans.flatMap fun s => ((s.text? text).getD []).map (·, s.category)

/-- Where printing stands behind a character. -/
def Progress.past (now : Progress) (c : Char) : Progress :=
  if c = '\n' then ⟨now.line + 1, true⟩ else ⟨now.line, false⟩

/-- The gutter before the next character: that of the line if the line is still empty. -/
def lead (lineNumbers : Bool) (width : Nat) (now : Progress) : List Shown :=
  if now.atLineStart then (gutter ⟨lineNumbers, false⟩ width now.line).map (⟨·, .gutter⟩) else []

/-- The characters of an output: those of the source, and the gutter of each line before its first
character. -/
def annotate (lineNumbers : Bool) (width : Nat) : Progress → List (Char × Category) → List Shown
  | _, [] => []
  | now, (c, category) :: rest =>
    lead lineNumbers width now ++
      ⟨c, .source category⟩ :: annotate lineNumbers width (now.past c) rest

variable {theme : Theme} {color lineNumbers : Bool} {width : Nat} {now : Progress} {c : Category}
  {text body piece : Text}

theorem source?_lead (now : Progress) :
    (lead lineNumbers width now).filterMap Shown.source? = [] := by
  unfold lead
  split
  · simp [List.filterMap_map, Function.comp_def, Shown.source?]
  · rfl

/-- Without the gutters, the characters are those of the source. -/
theorem filterMap_annotate : ∀ (source : List (Char × Category)) (now : Progress),
    (annotate lineNumbers width now source).filterMap Shown.source? = source
  | [], _ => rfl
  | (c, category) :: rest, now => by
    rw [annotate, List.filterMap_append, source?_lead, List.nil_append, List.filterMap_cons,
      filterMap_annotate rest]
    rfl

theorem annotate_append (a b : List (Char × Category)) : ∀ now : Progress,
    annotate lineNumbers width now (a ++ b) = annotate lineNumbers width now a ++
      annotate lineNumbers width ((a.map (·.1)).foldl Progress.past now) b := by
  induction a with
  | nil => exact fun _ => rfl
  | cons x a ih =>
    intro now
    rw [List.cons_append, annotate, annotate, ih]
    simp

/-! ### Lines -/

theorem past_of_ne {x : Char} (h : x ≠ '\n') : now.past x = ⟨now.line, false⟩ := if_neg h

theorem past_lineFeed (now : Progress) : now.past '\n' = ⟨now.line + 1, true⟩ := if_pos rfl

theorem foldl_past_inside (h : '\n' ∉ body) (line : Nat) :
    body.foldl Progress.past ⟨line, false⟩ = ⟨line, false⟩ := by
  induction body with
  | nil => rfl
  | cons x body ih =>
    obtain ⟨hx, hbody⟩ := List.ne_and_not_mem_of_not_mem_cons h
    rw [List.foldl_cons, past_of_ne hx.symm, ih hbody]

theorem foldl_past_last (h : '\n' ∉ body) (hne : body ≠ []) :
    body.foldl Progress.past now = ⟨now.line, false⟩ := by
  obtain ⟨x, body, rfl⟩ := List.exists_cons_of_ne_nil hne
  obtain ⟨hx, hbody⟩ := List.ne_and_not_mem_of_not_mem_cons h
  rw [List.foldl_cons, past_of_ne hx.symm, foldl_past_inside hbody]

theorem foldl_past_line (h : '\n' ∉ body) :
    (body ++ ['\n']).foldl Progress.past now = ⟨now.line + 1, true⟩ := by
  rw [List.foldl_append, List.foldl_cons, List.foldl_nil, past_lineFeed]
  by_cases hne : body = []
  · rw [hne, List.foldl_nil]
  · rw [foldl_past_last h hne]

/-- Inside of a line there are no gutters. -/
theorem annotate_inside (h : '\n' ∉ body) (line : Nat) :
    annotate lineNumbers width ⟨line, false⟩ (body.map (·, c)) = body.map (⟨·, .source c⟩) := by
  induction body with
  | nil => rfl
  | cons x body ih =>
    obtain ⟨hx, hbody⟩ := List.ne_and_not_mem_of_not_mem_cons h
    rw [List.map_cons, annotate, past_of_ne hx.symm, ih hbody]
    rfl

/-- The last line of a text, which no line feed ends. -/
theorem annotate_last (h : '\n' ∉ body) (hne : body ≠ []) :
    annotate lineNumbers width now (body.map (·, c)) =
      lead lineNumbers width now ++ body.map (⟨·, .source c⟩) := by
  obtain ⟨x, body, rfl⟩ := List.exists_cons_of_ne_nil hne
  obtain ⟨hx, hbody⟩ := List.ne_and_not_mem_of_not_mem_cons h
  rw [List.map_cons, annotate, past_of_ne hx.symm, annotate_inside hbody]
  rfl

/-- A line that a line feed ends. -/
theorem annotate_line (h : '\n' ∉ body) :
    annotate lineNumbers width now ((body ++ ['\n']).map (·, c)) =
      lead lineNumbers width now ++ body.map (⟨·, .source c⟩) ++ [⟨'\n', .source c⟩] := by
  by_cases hne : body = []
  · subst hne
    simp [annotate]
  · have hfold : ((body.map (·, c)).map (·.1)).foldl Progress.past now = ⟨now.line, false⟩ := by
      have hchars : (body.map (·, c)).map (·.1) = body := by simp [Function.comp_def]
      rw [hchars, foldl_past_last h hne]
    rw [List.map_append, annotate_append, annotate_last h hne, hfold]
    rfl

/-! ## Printing -/

/-- Printing some characters: plain output is the characters, and coloured output leads from the
default state back to it and shows the characters in their looks. -/
def Prints (theme : Theme) : Bool → Text → List Shown → Prop
  | false, out, shown => out = shown.map (·.char)
  | true, out, shown => Shows {} out (shown.map (·.cell theme)) {}

theorem prints_false_iff {out : Text} {shown : List Shown} :
    Prints theme false out shown ↔ out = shown.map (·.char) := Iff.rfl

theorem prints_true_iff {out : Text} {shown : List Shown} :
    Prints theme true out shown ↔ Shows {} out (shown.map (·.cell theme)) {} := Iff.rfl

/-- Plain output of characters that have one role. -/
theorem prints_plain (role : Role) (piece : Text) :
    Prints theme false piece (piece.map (⟨·, role⟩)) := by
  rw [prints_false_iff, List.map_map]
  exact (List.map_id'' (fun _ => rfl) piece).symm

theorem prints_nil : Prints theme color [] [] := by
  cases color with
  | false => rfl
  | true => exact shows_nil _

theorem Prints.append {a b : Text} {shown shown' : List Shown} (h : Prints theme color a shown)
    (h' : Prints theme color b shown') : Prints theme color (a ++ b) (shown ++ shown') := by
  cases color with
  | false =>
    have heq : a ++ b = shown.map (·.char) ++ shown'.map (·.char) := congrArg₂ _ h h'
    rwa [← List.map_append] at heq
  | true =>
    have hshows : Shows {} (a ++ b) (shown.map (·.cell theme) ++ shown'.map (·.cell theme)) {} :=
      Shows.append h h'
    rwa [← List.map_append] at hshows

theorem escape_not_mem_padLeft (n : Nat) : '\x1b' ∉ padLeft width n := by
  intro h
  unfold padLeft at h
  rcases List.mem_append.mp h with hpad | hdigit
  · exact absurd (List.eq_of_mem_replicate hpad) (by decide)
  · exact absurd (Text.isDigit_of_mem_toString hdigit) (by decide)

/-- **A gutter** is dim. -/
theorem prints_gutter (line : Nat) : Prints theme color (gutter ⟨lineNumbers, color⟩ width line)
    ((gutter ⟨lineNumbers, false⟩ width line).map (⟨·, .gutter⟩)) := by
  cases lineNumbers with
  | false => exact prints_nil
  | true =>
    cases color with
    | false => exact prints_plain .gutter _
    | true =>
      have hnumber : '\x1b' ∉ padLeft width line ++ [' '] := by
        simp [escape_not_mem_padLeft]
      have hdim : Shows {} (sequence "2").toList [] ⟨.text, { dim := true }⟩ :=
        shows_of_numbers (p := [2]) (by simp) rfl rfl
      have hnormal : Shows ⟨.text, { dim := true }⟩ (sequence "22").toList [] {} :=
        shows_of_numbers (p := [22]) (by simp) rfl rfl
      have hshows := (hdim.append (shows_plain { dim := true } hnumber)).append hnormal
      rw [prints_true_iff, List.map_map]
      simpa [gutter, Function.comp_def, Shown.cell] using hshows

/-- **A piece of a span** has the style of the span's category. Only a terminal could take an escape
character of the piece for its own. -/
theorem prints_styled (hesc : color = true → '\x1b' ∉ piece) (hline : '\n' ∉ piece) :
    Prints theme color (styled color (theme.style c) piece) (piece.map (⟨·, .source c⟩)) := by
  cases color with
  | false =>
    have hplain : styled false (theme.style c) piece = piece := by
      unfold styled
      split
      · rename_i hempty
        exact (List.isEmpty_iff.mp hempty).symm
      · rfl
    rw [hplain]
    exact prints_plain _ piece
  | true =>
    have hcells : (piece.map fun x => (⟨x, .source c⟩ : Shown)).map (·.cell theme) =
        piece.map (⟨·, look (theme.style c)⟩) := by
      rw [List.map_map]
      refine List.map_congr_left fun x hx => ?_
      have hne : x ≠ '\n' := fun heq => hline (heq ▸ hx)
      simp [Shown.cell, hne]
    rw [prints_true_iff, hcells]
    exact shows_styled (theme.style c) (hesc rfl)

theorem prints_lineFeed : Prints theme color ['\n'] [⟨'\n', .source c⟩] := by
  cases color with
  | false => rfl
  | true => exact shows_plain {} (by decide)

/-! ### Lines and spans -/

variable (theme color lineNumbers width now c)

/-- **A line**, its gutter before it if it begins in this piece. -/
theorem prints_renderLine (hesc : color = true → '\x1b' ∉ piece) (hne : piece ≠ [])
    (hline : '\n' ∉ piece.dropLast) :
    Prints theme color (renderLine ⟨lineNumbers, color⟩ width (theme.style c) now piece).1
        (annotate lineNumbers width now (piece.map (·, c))) ∧
      (renderLine ⟨lineNumbers, color⟩ width (theme.style c) now piece).2 =
        piece.foldl Progress.past now := by
  have hlead : Prints theme color
      (if now.atLineStart then gutter ⟨lineNumbers, color⟩ width now.line else [])
      (lead lineNumbers width now) := by
    unfold lead
    split
    · exact prints_gutter now.line
    · exact prints_nil
  obtain ⟨body, x, rfl⟩ := List.eq_nil_or_concat' piece |>.resolve_left hne
  rw [List.dropLast_concat] at hline
  unfold renderLine
  rw [List.getLast?_concat, List.dropLast_concat]
  by_cases hx : x = '\n'
  · subst hx
    have hbody : color = true → '\x1b' ∉ body := fun hc h =>
      hesc hc (List.mem_append_left _ h)
    rw [if_pos rfl, annotate_line hline, foldl_past_line hline]
    exact ⟨(hlead.append (prints_styled hbody hline)).append prints_lineFeed, rfl⟩
  · have hlast : '\n' ∉ body ++ [x] := by
      simp [hline, Ne.symm hx]
    rw [if_neg (by simpa using hx), annotate_last hlast hne, foldl_past_last hlast hne]
    exact ⟨hlead.append (prints_styled hesc hlast), rfl⟩

/-- **The lines of a span**, one behind the other. -/
theorem prints_renderLines {pieces : List Text}
    (hesc : ∀ piece ∈ pieces, color = true → '\x1b' ∉ piece)
    (hne : ∀ piece ∈ pieces, piece ≠ []) (hline : ∀ piece ∈ pieces, '\n' ∉ piece.dropLast) :
    Prints theme color
        (renderLines ⟨lineNumbers, color⟩ width (theme.style c) now pieces).1.flatten
        (annotate lineNumbers width now (pieces.flatten.map (·, c))) ∧
      (renderLines ⟨lineNumbers, color⟩ width (theme.style c) now pieces).2 =
        pieces.flatten.foldl Progress.past now := by
  induction pieces generalizing now with
  | nil => exact ⟨prints_nil, rfl⟩
  | cons piece pieces ih =>
    rw [List.forall_mem_cons] at hesc hne hline
    obtain ⟨hprints, hnow⟩ :=
      prints_renderLine theme color lineNumbers width now c hesc.1 hne.1 hline.1
    obtain ⟨hrest, hlast⟩ := ih (piece.foldl Progress.past now) hesc.2 hne.2 hline.2
    have hchars : (piece.map (·, c)).map (·.1) = piece := by simp [Function.comp_def]
    simp only [renderLines, hnow, List.flatten_cons, List.map_append, List.foldl_append,
      annotate_append, hchars]
    exact ⟨hprints.append hrest, hlast⟩

theorem escape_not_mem_of_text? {s : Span} {part : Text} (hesc : '\x1b' ∉ text)
    (h : s.text? text = some part) : '\x1b' ∉ part := by
  obtain ⟨a, b, rfl, -, -⟩ := Text.slice?_eq_some_iff.mp h
  intro hmem
  exact hesc (List.mem_append_left b (List.mem_append_right a hmem))

/-- **Plain and coloured output** print the annotated characters of the spans. -/
theorem prints_renderSpans (hesc : color = true → '\x1b' ∉ text) {spans : List Span}
    (hspans : ∀ s ∈ spans, (s.text? text).isSome = true) :
    ∃ out, (renderSpans ⟨lineNumbers, color⟩ width theme text now spans).text? = some out ∧
      Prints theme color out (annotate lineNumbers width now (sourceOf text spans)) := by
  induction spans generalizing now with
  | nil => exact ⟨[], rfl, prints_nil⟩
  | cons s spans ih =>
    rw [List.forall_mem_cons] at hspans
    obtain ⟨part, hpart⟩ := Option.isSome_iff_exists.mp hspans.1
    have hlines : ∀ line ∈ part.lines, color = true → '\x1b' ∉ line := fun line hline hc hmem =>
      escape_not_mem_of_text? (hesc hc) hpart
        (part.flatten_lines ▸ List.mem_flatten_of_mem hline hmem)
    obtain ⟨hprints, hnow⟩ := prints_renderLines theme color lineNumbers width now s.category hlines
      (fun _ => Text.ne_nil_of_mem_lines) fun _ => Text.not_mem_dropLast_of_mem_lines
    rw [part.flatten_lines] at hprints hnow
    obtain ⟨out, hout, hrest⟩ := ih (part.foldl Progress.past now) hspans.2
    have hsource : sourceOf text (s :: spans) =
        part.map (·, s.category) ++ sourceOf text spans := by
      simp [sourceOf, hpart]
    have hchars : (part.map (·, s.category)).map (·.1) = part := by simp [Function.comp_def]
    refine ⟨(renderLines ⟨lineNumbers, color⟩ width (theme.style s.category) now
      part.lines).1.flatten ++ out, ?_, ?_⟩
    · simp only [renderSpans, hpart, hnow]
      rw [Output.text?_append (Output.text?_map_write _), hout]
      rfl
    · rw [hsource, annotate_append, hchars]
      exact hprints.append hrest

/-- **Plain output** is the annotated characters, and nothing else is written. -/
theorem deliver_plain {spans : List Span} (hspans : ∀ s ∈ spans, (s.text? text).isSome = true) :
    (render ⟨lineNumbers, false⟩ theme text spans).deliver none =
      (Text.bytes ((annotate lineNumbers (gutterWidth text) {} (sourceOf text spans)).map (·.char)),
        .finished) := by
  obtain ⟨out, hout, hprints⟩ := prints_renderSpans theme false lineNumbers (gutterWidth text) {}
    nofun hspans
  rw [prints_false_iff] at hprints
  rw [← hprints]
  exact Output.deliver_none_of_text? hout

/-- **Coloured output** displays plain output in the styles of the theme. The characters that a
reader sees are the gutters and, without these, the characters of the spans; plain output is their
text. A terminal that gets coloured output shows them: gutters dim in its own colour, line feeds in
the default look, and any other character with the colour, the weight and the slope of the style of
its category. Behind the last one the terminal is in its default state. -/
theorem colored_display (hesc : '\x1b' ∉ text) {spans : List Span}
    (hspans : ∀ s ∈ spans, (s.text? text).isSome = true) :
    let shown := annotate lineNumbers (gutterWidth text) {} (sourceOf text spans)
    shown.filterMap Shown.source? = sourceOf text spans ∧
      (render ⟨lineNumbers, false⟩ theme text spans).deliver none =
        (Text.bytes (shown.map (·.char)), .finished) ∧
      ∃ bytes, (render ⟨lineNumbers, true⟩ theme text spans).deliver none = (bytes, .finished) ∧
        display bytes = some (shown.map (·.cell theme), {}) := by
  intro shown
  obtain ⟨colored, htext, hshows⟩ := prints_renderSpans theme true lineNumbers (gutterWidth text) {}
    (fun _ => hesc) hspans
  refine ⟨filterMap_annotate _ _, deliver_plain theme lineNumbers hspans, colored.bytes,
    Output.deliver_none_of_text? htext, ?_⟩
  rw [display_bytes]
  exact hshows

/-- The theorem for two lines in two styles. -/
theorem colored_display_lines :
    let text : Text := ['a', '\n', 'b']
    let spans : List Span := [⟨0, 2, .comment⟩, ⟨2, 3, .integer⟩]
    '\x1b' ∉ text ∧ (∀ s ∈ spans, (s.text? text).isSome = true) ∧
      ∃ bytes, (render ⟨true, true⟩ .ansi text spans).deliver none = (bytes, .finished) ∧
        display bytes = some
          ([⟨'1', { dim := true }⟩, ⟨' ', { dim := true }⟩,
            ⟨'a', { ink := .palette 8, italic := true }⟩, ⟨'\n', {}⟩,
            ⟨'2', { dim := true }⟩, ⟨' ', { dim := true }⟩, ⟨'b', { ink := .palette 1 }⟩], {}) := by
  intro text spans
  have hesc : '\x1b' ∉ text := by decide
  have hspans : ∀ s ∈ spans, (s.text? text).isSome = true := by decide
  obtain ⟨-, -, bytes, hbytes, hdisplay⟩ := colored_display .ansi true hesc hspans
  refine ⟨hesc, hspans, bytes, hbytes, hdisplay.trans ?_⟩
  decide +kernel

end FaustLens.Terminal
