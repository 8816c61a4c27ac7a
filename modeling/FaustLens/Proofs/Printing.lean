import FaustLens.Proofs.RtfDocument

/-!
# Printing to a sink without enough room

Spans are printed one after the other, in one of three forms (`Form`), those of `render::render`,
`render::dump_spans` and `render::rtf`. As long as they can be sliced, only pieces of text come, and
what is printed for some spans does not depend on the spans behind them. A span that cannot be
sliced is the last thing that printing asks for.

A sink with little room receives the first bytes of these pieces. Where one piece ends and the next
one begins makes no difference, so it is filled to the last byte, in the middle of a control
sequence, a number or a character if need be. The missing slice is noticed only if everything before
it went in.

Results:
* `deliver_append`: what a sink receives of some pieces and of what follows them.
* `exists_leads`: what is printed for some spans, with or without others behind them.
* `deliver_print_classify`: a classification is printed as a whole.
* `deliver_print`: what a sink receives, and how printing ends.
-/

namespace FaustLens

/-! ## Sinks -/

namespace Output

variable {lead : Output} {t : Text}

/-- What a sink receives of a text, if printing comes to `ending` behind it. -/
def cut (room : Nat) (t : Text) (ending : Ending) : List UInt8 × Ending :=
  if t.bytes.length ≤ room then (t.bytes, ending) else (t.bytes.take room, .limitReached)

/-- **Pieces one behind the other** are received like one text: what follows them finds the room
that they leave, and is not reached if they do not fit. -/
theorem deliver_append (h : lead.text? = some t) (rest : Output) (room : Nat) :
    deliver (some room) (lead ++ rest) =
      if t.bytes.length ≤ room then
        (t.bytes ++ (deliver (some (room - t.bytes.length)) rest).1,
          (deliver (some (room - t.bytes.length)) rest).2)
      else (t.bytes.take room, .limitReached) := by
  induction lead generalizing t room with
  | nil =>
    obtain rfl := Option.some.inj h
    simp [Text.bytes]
  | cons action lead ih =>
    cases action with
    | missingSlice => simp [text?] at h
    | write piece =>
      obtain ⟨t, ht, rfl⟩ := Option.map_eq_some_iff.mp h
      rw [List.cons_append, deliver, bytes_append, List.length_append]
      by_cases hpiece : piece.bytes.length ≤ room
      · rw [if_pos hpiece, ih ht]
        by_cases hfits : t.bytes.length ≤ room - piece.bytes.length
        · have hroom : room - piece.bytes.length - t.bytes.length =
              room - (piece.bytes.length + t.bytes.length) := by omega
          rw [if_pos hfits, if_pos (by omega), hroom, List.append_assoc]
        · -- the piece goes in and is a part of what was received
          rw [if_neg hfits, if_neg (by omega), List.take_append, List.take_of_length_le hpiece]
      · rw [if_neg hpiece, if_neg (by omega), List.take_append_of_le_length (by omega)]

theorem deliver_of_text? (h : lead.text? = some t) (room : Nat) :
    deliver (some room) lead = cut room t .finished := by
  have hdeliver := deliver_append h [] room
  simpa [deliver, cut] using hdeliver

theorem deliver_append_missingSlice (h : lead.text? = some t) (room : Nat) :
    deliver (some room) (lead ++ [.missingSlice]) = cut room t .missingSlice := by
  have hdeliver := deliver_append h [.missingSlice] room
  simpa [deliver, cut] using hdeliver

end Output

/-! ## Forms of output -/

/-- The forms in which spans are printed. -/
inductive Form
  | terminal (opts : Terminal.Options) (theme : Theme)
  | dump
  | document (theme : Theme)

/-- Print spans in a form. -/
def Form.print : Form → Text → List Span → Output
  | terminal opts theme, text, spans => Terminal.render opts theme text spans
  | dump, text, spans => SpanDump.render text spans
  | document theme, text, spans => Rtf.render theme text spans

/-- What is printed behind the last span: the end of a document. -/
def Form.closing : Form → Text
  | document _ => ['\x7d', '\n']
  | _ => []

/-- The span can be sliced: its offsets are in order, and each of them is between two characters of
the text or at one of its ends. -/
def Span.Valid (s : Span) (text : Text) : Prop :=
  s.start ≤ s.stop ∧ text.IsBoundary s.start ∧ text.IsBoundary s.stop

instance (s : Span) (text : Text) : Decidable (s.Valid text) :=
  inferInstanceAs (Decidable (_ ∧ _ ∧ _))

theorem Span.exists_text?_iff {s : Span} {text : Text} :
    (∃ part, s.text? text = some part) ↔ s.Valid text := by
  rw [← Option.isSome_iff_exists]
  exact isSome_text?_iff

theorem Span.text?_eq_none_iff {s : Span} {text : Text} : s.text? text = none ↔ ¬ s.Valid text := by
  rw [← exists_text?_iff, ← Option.isSome_iff_exists, Option.not_isSome_iff_eq_none]

/-! ## What is printed before a span -/

/-- What `print` gives for the spans `before`: the text `lead`, and the text `closing` behind the
last span. A span that cannot be sliced stands in the place of everything behind it. -/
structure Leads (print : List Span → Output) (text closing : Text) (before : List Span)
    (lead : Text) : Prop where
  text?_print : (print before).text? = some (lead ++ closing)
  breaks : ∀ s after, ¬ s.Valid text → ∃ out : Output, out.text? = some lead ∧
    print (before ++ s :: after) = out ++ [.missingSlice]

namespace Leads

variable {print rest : List Span → Output} {text closing lead piece : Text} {before : List Span}

theorem nil (hclosing : (print []).text? = some closing)
    (hbreaks : ∀ s after, s.text? text = none → print (s :: after) = [.missingSlice]) :
    Leads print text closing [] [] where
  text?_print := hclosing
  breaks s after hs := ⟨[], rfl, hbreaks s after (Span.text?_eq_none_iff.mpr hs)⟩

/-- Some pieces before everything else. -/
theorem append {out : Output} (hout : out.text? = some piece)
    (h : Leads rest text closing before lead) :
    Leads (fun spans => out ++ rest spans) text closing before (piece ++ lead) where
  text?_print := by
    rw [Output.text?_append hout, h.text?_print, Option.map_some, List.append_assoc]
  breaks s after hs := by
    obtain ⟨tail, htail, hrest⟩ := h.breaks s after hs
    refine ⟨out ++ tail, ?_, ?_⟩
    · rw [Output.text?_append hout, htail, Option.map_some]
    · rw [hrest, List.append_assoc]

/-- One span more. -/
theorem cons {s : Span} (hprint : ∀ spans, print (s :: spans) = rest spans)
    (h : Leads rest text closing before lead) : Leads print text closing (s :: before) lead where
  text?_print := by
    rw [hprint]
    exact h.text?_print
  breaks t after ht := by
    obtain ⟨out, hout, hrest⟩ := h.breaks t after ht
    exact ⟨out, hout, by rw [List.cons_append, hprint, hrest]⟩

end Leads

section Forms

variable {text : Text} {before : List Span}

theorem Terminal.exists_leads (opts : Options) (width : Nat) (theme : Theme)
    (hbefore : ∀ s ∈ before, s.Valid text) :
    ∀ now, ∃ lead, Leads (renderSpans opts width theme text now) text [] before lead := by
  induction before with
  | nil =>
    intro now
    refine ⟨[], .nil rfl fun s after hs => ?_⟩
    rw [renderSpans, hs]
  | cons s before ih =>
    intro now
    rw [List.forall_mem_cons] at hbefore
    obtain ⟨part, hpart⟩ := Span.exists_text?_iff.mpr hbefore.1
    rcases hlines : renderLines opts width (theme.style s.category) now part.lines with
      ⟨pieces, next⟩
    obtain ⟨lead, hlead⟩ := ih hbefore.2 next
    refine ⟨_, (hlead.append (Output.text?_map_write pieces)).cons fun spans => ?_⟩
    simp only [renderSpans, hpart, hlines]

theorem SpanDump.exists_leads (hbefore : ∀ s ∈ before, s.Valid text) :
    ∃ lead, Leads (render text) text [] before lead := by
  induction before with
  | nil =>
    refine ⟨[], .nil rfl fun s after hs => ?_⟩
    rw [render, hs]
  | cons s before ih =>
    rw [List.forall_mem_cons] at hbefore
    obtain ⟨part, hpart⟩ := Span.exists_text?_iff.mpr hbefore.1
    obtain ⟨lead, hlead⟩ := ih hbefore.2
    refine ⟨_, (hlead.append (Output.text?_map_write [line s part])).cons fun spans => ?_⟩
    rw [render, hpart]
    rfl

theorem Rtf.exists_leads (table : List Rgb) (theme : Theme)
    (hbefore : ∀ s ∈ before, s.Valid text) :
    ∃ lead, Leads (renderSpans table theme text) text ['\x7d', '\n'] before lead := by
  induction before with
  | nil =>
    refine ⟨[], .nil rfl fun s after hs => ?_⟩
    rw [renderSpans, hs]
  | cons s before ih =>
    rw [List.forall_mem_cons] at hbefore
    obtain ⟨part, hpart⟩ := Span.exists_text?_iff.mpr hbefore.1
    obtain ⟨lead, hlead⟩ := ih hbefore.2
    refine ⟨_, (hlead.append (Output.text?_map_write
      [styled table (theme.style s.category) part])).cons fun spans => ?_⟩
    rw [renderSpans, hpart]
    rfl

/-- **What is printed for some spans** that can be sliced comes first whatever is behind them. -/
theorem Form.exists_leads (form : Form) (hbefore : ∀ s ∈ before, s.Valid text) :
    ∃ lead, Leads (form.print text) text form.closing before lead := by
  cases form with
  | terminal opts theme => exact Terminal.exists_leads opts _ theme hbefore {}
  | dump => exact SpanDump.exists_leads hbefore
  | document theme =>
    obtain ⟨lead, hlead⟩ := Rtf.exists_leads (Rtf.colorTable theme) theme hbefore
    exact ⟨_, hlead.append (Rtf.text?_header _)⟩

/-- **Printing to a sink** with room for some bytes. Without a limit, spans that can be sliced are
printed as `lead` and what closes the form. A sink with room for all of it receives exactly this,
and printing is finished; any other receives as many of its first bytes as it has room for, and
printing ends because the sink is full. If a span follows that cannot be sliced, printing breaks off
there iff the sink has room for `lead`, which is then received whole; and otherwise it ends before,
because the sink is full, and the sink has received the first bytes of `lead`. -/
theorem Form.deliver_print (form : Form) (hbefore : ∀ s ∈ before, s.Valid text) :
    ∃ lead : Text,
      (form.print text before).deliver none = (Text.bytes (lead ++ form.closing), .finished) ∧
      ∀ room : Nat,
        (form.print text before).deliver (some room) =
          Output.cut room (lead ++ form.closing) .finished ∧
        ∀ s after, ¬ s.Valid text →
          (form.print text (before ++ s :: after)).deliver (some room) =
            Output.cut room lead .missingSlice := by
  obtain ⟨lead, hlead⟩ := form.exists_leads hbefore
  refine ⟨lead, Output.deliver_none_of_text? hlead.text?_print, fun room =>
    ⟨Output.deliver_of_text? hlead.text?_print room, fun s after hs => ?_⟩⟩
  obtain ⟨out, hout, hprint⟩ := hlead.breaks s after hs
  rw [hprint]
  exact Output.deliver_append_missingSlice hout room

/-- The theorem for a coloured character before a span that stops inside of another one: with room
for a part of the first control sequence, and with room for all that comes before that span. -/
theorem Form.deliver_print_sequence :
    let text : Text := ['a', 'é']
    let before : List Span := [⟨0, 1, .integer⟩]
    let inside : Span := ⟨1, 2, .plain⟩
    let out := (Form.terminal ⟨false, true⟩ .ansi).print text (before ++ [inside])
    (∀ s ∈ before, s.Valid text) ∧ ¬ inside.Valid text ∧
      out.deliver (some 7) = (Text.bytes "\x1b[38;5;".toList, .limitReached) ∧
      out.deliver (some 18) =
        (Text.bytes "\x1b[38;5;1ma\x1b[0m\x1b[0m".toList, .missingSlice) := by
  intro text before inside out
  have hbefore : ∀ s ∈ before, s.Valid text := by decide
  have hinside : ¬ inside.Valid text := by decide
  obtain ⟨lead, hwhole, hroom⟩ := (Form.terminal ⟨false, true⟩ .ansi).deliver_print hbefore
  have hlead : lead.bytes = Text.bytes "\x1b[38;5;1ma\x1b[0m\x1b[0m".toList := by
    have hclosing : lead ++ Form.closing (.terminal ⟨false, true⟩ .ansi) = lead :=
      List.append_nil lead
    rw [hclosing] at hwhole
    exact (congrArg Prod.fst hwhole).symm.trans (by decide +kernel)
  have hcut : ∀ room, out.deliver (some room) = Output.cut room lead .missingSlice := fun room =>
    (hroom room).2 inside [] hinside
  refine ⟨hbefore, hinside, (hcut 7).trans ?_, (hcut 18).trans ?_⟩
  · unfold Output.cut
    rw [hlead]
    decide +kernel
  · unfold Output.cut
    rw [hlead]
    decide +kernel

end Forms

end FaustLens
