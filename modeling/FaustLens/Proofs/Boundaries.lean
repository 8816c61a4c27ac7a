import FaustLens.Proofs.Partition
import FaustLens.Proofs.Pattern.Contents
import FaustLens.Proofs.Tables
import FaustLens.Rtf
import FaustLens.SpanDump
import FaustLens.Terminal

/-!
# Character boundaries

Bytes are painted one by one, but matches begin and end between characters. Two bytes that no edge
of a match separates are in the same matches and so have the same category. A span stops only at the
end of the text or where the category changes, so it stops at an edge of an accepted match
(`stop_eq_or_edge`), which is a boundary. So the text of each span exists: `Span::text` and
`Span::utf16_range` (`syntax::span`) do not panic on a classification, and nothing that prints the
spans breaks off.

Results:
* `isSome_slice?_iff`: a slice exists iff its offsets are boundaries in order.
* `isSome_utf16Range?_iff`: the range of a span in UTF-16 exists iff its text does.
* `Contiguous.slices_eq`: spans that follow each other make up the text.
* `isBoundary_of_mem_classify`: the offsets of a classification are boundaries.
* `missingSlice_mem_render_iff`: printing breaks off iff a span has no text.
* `classify_sliceable`: the spans of a classification have their texts, and printing them goes
  through.
-/

namespace FaustLens

/-! ## Slices -/

namespace Text

/-- The offset lies between two characters of the text or at one of its ends. -/
def IsBoundary (text : Text) (n : Nat) : Prop := ∃ a b, text = a ++ b ∧ a.byteLength = n

theorem isBoundary_zero (text : Text) : text.IsBoundary 0 := ⟨[], text, rfl, rfl⟩

theorem isBoundary_byteLength (text : Text) : text.IsBoundary text.byteLength :=
  ⟨text, [], (List.append_nil text).symm, rfl⟩

theorem exists_of_dropBytes? : ∀ {text : Text} {n : Nat} {b : Text}, dropBytes? n text = some b →
    ∃ a, text = a ++ b ∧ a.byteLength = n
  | text, 0, b, h => by
    rw [dropBytes?] at h
    exact ⟨[], Option.some.inj h, rfl⟩
  | [], n + 1, b, h => by simp [dropBytes?] at h
  | c :: text, n + 1, b, h => by
    rw [dropBytes?] at h
    split at h
    · obtain ⟨a, rfl, ha⟩ := exists_of_dropBytes? h
      refine ⟨c :: a, rfl, ?_⟩
      rw [byteLength_cons]
      omega
    · exact absurd h (by simp)

theorem exists_of_takeBytes? : ∀ {text : Text} {n : Nat} {a : Text}, takeBytes? n text = some a →
    ∃ b, text = a ++ b ∧ a.byteLength = n
  | text, 0, a, h => by
    rw [takeBytes?] at h
    obtain rfl := Option.some.inj h
    exact ⟨text, rfl, rfl⟩
  | [], n + 1, a, h => by simp [takeBytes?] at h
  | c :: text, n + 1, a, h => by
    rw [takeBytes?] at h
    split at h
    · obtain ⟨a, ha, rfl⟩ := Option.map_eq_some_iff.mp h
      obtain ⟨b, rfl, ha⟩ := exists_of_takeBytes? ha
      refine ⟨b, rfl, ?_⟩
      rw [byteLength_cons]
      omega
    · exact absurd h (by simp)

/-- **Slices** are the parts of the text between two offsets. -/
theorem slice?_eq_some_iff {text part : Text} {start stop : Nat} :
    text.slice? start stop = some part ↔
      ∃ a b, text = a ++ part ++ b ∧ a.byteLength = start ∧ (a ++ part).byteLength = stop := by
  constructor
  · intro h
    rw [slice?] at h
    split at h
    · obtain ⟨rest, hrest, hpart⟩ := Option.bind_eq_some_iff.mp h
      obtain ⟨a, rfl, ha⟩ := exists_of_dropBytes? hrest
      obtain ⟨b, rfl, hlen⟩ := exists_of_takeBytes? hpart
      refine ⟨a, b, (List.append_assoc a part b).symm, ha, ?_⟩
      rw [byteLength_append]
      omega
    · exact absurd h (by simp)
  · rintro ⟨a, b, rfl, rfl, rfl⟩
    rw [byteLength_append]
    exact slice?_append a part b

/-- **A slice exists** iff its offsets are boundaries in order. -/
theorem isSome_slice?_iff {text : Text} {start stop : Nat} :
    (text.slice? start stop).isSome = true ↔
      start ≤ stop ∧ text.IsBoundary start ∧ text.IsBoundary stop := by
  simp only [Option.isSome_iff_exists, slice?_eq_some_iff]
  constructor
  · rintro ⟨part, a, b, rfl, rfl, rfl⟩
    refine ⟨?_, ⟨a, part ++ b, List.append_assoc a part b, rfl⟩, ⟨a ++ part, b, rfl, rfl⟩⟩
    rw [byteLength_append]
    exact Nat.le_add_right _ _
  · rintro ⟨hle, ⟨a, b, rfl, rfl⟩, ⟨c, d, hcd, rfl⟩⟩
    obtain ⟨m, rfl, rfl⟩ := exists_middle hcd hle
    exact ⟨m, a, d, (List.append_assoc a m d).symm, rfl, rfl⟩

instance (text : Text) (n : Nat) : Decidable (text.IsBoundary n) :=
  decidable_of_iff ((text.slice? 0 n).isSome = true)
    ⟨fun h => (isSome_slice?_iff.mp h).2.2,
      fun h => isSome_slice?_iff.mpr ⟨Nat.zero_le n, text.isBoundary_zero, h⟩⟩

example : ¬ IsBoundary ['é', 'x'] 1 ∧ IsBoundary ['é', 'x'] 2 := by decide

end Text

namespace Span

variable {s : Span} {text : Text}

theorem isSome_text?_iff : (s.text? text).isSome = true ↔
    s.start ≤ s.stop ∧ text.IsBoundary s.start ∧ text.IsBoundary s.stop :=
  Text.isSome_slice?_iff

/-- A span that starts at the end of `a` has the beginning of the rest. -/
theorem exists_of_text?_append {a b part : Text} (h : s.text? (a ++ b) = some part)
    (hstart : s.start = a.byteLength) :
    ∃ rest, b = part ++ rest ∧ (a ++ part).byteLength = s.stop := by
  obtain ⟨a', rest, htext, hlen, hstop⟩ := Text.slice?_eq_some_iff.mp h
  rw [List.append_assoc] at htext
  obtain ⟨rfl, hb⟩ := Text.append_inj htext (hstart.symm.trans hlen.symm)
  exact ⟨rest, hb, hstop⟩

/-- A span has a range in UTF-16 iff it has a text. -/
theorem isSome_utf16Range?_iff :
    (s.utf16Range? text).isSome = true ↔ (s.text? text).isSome = true := by
  unfold utf16Range?
  constructor
  · intro h
    cases ht : s.text? text with
    | some part => rfl
    | none => simp [ht] at h
  · intro h
    have hbefore : (text.slice? 0 s.start).isSome = true :=
      Text.isSome_slice?_iff.mpr ⟨Nat.zero_le _, text.isBoundary_zero, (isSome_text?_iff.mp h).2.1⟩
    obtain ⟨before, hbefore⟩ := Option.isSome_iff_exists.mp hbefore
    obtain ⟨part, hpart⟩ := Option.isSome_iff_exists.mp h
    simp [hbefore, hpart]

end Span

/-! ### One span behind the other -/

/-- The texts of the spans, one behind the other. -/
def slices (text : Text) (spans : List Span) : Text := spans.flatMap fun s => (s.text? text).getD []

/-- The spans follow each other from the offset `lo` to the offset `hi`. A span may be empty. -/
def Contiguous : Nat → List Span → Nat → Prop
  | lo, [], hi => lo = hi
  | lo, s :: spans, hi => s.start = lo ∧ Contiguous s.stop spans hi

theorem Tiles.contiguous {hi : Nat} : ∀ {spans : List Span} {lo : Nat}, Tiles lo spans hi →
    Contiguous lo spans hi
  | [], _, h => h
  | _ :: _, _, ⟨hstart, _, h⟩ => ⟨hstart, h.contiguous⟩

/-- **Spans that follow each other** to the end of the text have the rest of it. -/
theorem Contiguous.slices_eq {text : Text} : ∀ {spans : List Span} {a b : Text}, text = a ++ b →
    Contiguous a.byteLength spans text.byteLength → (∀ s ∈ spans, (s.text? text).isSome = true) →
      slices text spans = b
  | [], a, b, htext, hc, _ => by
    subst htext
    exact (Text.append_inj (List.append_nil (a ++ b)).symm hc).2.symm
  | s :: spans, a, b, htext, hc, hsome => by
    obtain ⟨hstart, hc⟩ := hc
    rw [List.forall_mem_cons] at hsome
    obtain ⟨part, hpart⟩ := Option.isSome_iff_exists.mp hsome.1
    obtain ⟨rest, hb, hstop⟩ := Span.exists_of_text?_append (htext ▸ hpart) hstart
    have hparts : text = (a ++ part) ++ rest := by rw [htext, hb, List.append_assoc]
    rw [← hstop] at hc
    have hrest := hc.slices_eq hparts hsome.2
    rw [hb, ← hrest]
    simp [slices, hpart]

/-! ## Edges of matches and spans -/

/-- Matches begin and end between characters. -/
theorem Pattern.isBoundary_of_mem_findAll {p : Pattern} {text : Text} {r : ByteRange}
    (h : r ∈ p.findAll text) : text.IsBoundary r.start ∧ text.IsBoundary r.stop := by
  obtain ⟨a, w, b, ⟨rfl, rfl⟩, -⟩ := (matchesAt_of_mem_findAll h).exists_parts
  exact ⟨⟨a, w ++ b, List.append_assoc a w b, rfl⟩, ⟨a ++ w, b, rfl, rfl⟩⟩

/-- Bytes in the same matches have the same last match. -/
theorem Hit.lastAt?_congr {b b' : Nat} : ∀ {hits : List Hit},
    (∀ h ∈ hits, b ∈ h.range ↔ b' ∈ h.range) → lastAt? b hits = lastAt? b' hits
  | [], _ => rfl
  | h :: hits, hsame => by
    rw [lastAt?, lastAt?, lastAt?_congr fun g hg => hsame g (List.mem_cons_of_mem _ hg),
      if_congr (hsame h List.mem_cons_self) rfl rfl]

namespace Tiles

/-- A span starts at the first offset or where another one stops. -/
theorem start_eq_or {hi : Nat} : ∀ {spans : List Span} {lo : Nat}, Tiles lo spans hi →
    ∀ s ∈ spans, s.start = lo ∨ ∃ t ∈ spans, t.stop = s.start
  | [], _, _ => by simp
  | t :: _, _, h => by
    intro s hs
    rcases List.mem_cons.mp hs with rfl | hs
    · exact Or.inl h.1
    · refine Or.inr ?_
      rcases h.2.2.start_eq_or s hs with heq | ⟨u, hu, heq⟩
      · exact ⟨t, List.mem_cons_self, heq.symm⟩
      · exact ⟨u, List.mem_cons_of_mem _ hu, heq⟩

/-- A span stops at the last offset or where one of another category starts. -/
theorem stop_eq_or {hi : Nat} : ∀ {spans : List Span} {lo : Nat}, Tiles lo spans hi →
    Alternating spans → ∀ s ∈ spans,
      s.stop = hi ∨ ∃ t ∈ spans, t.start = s.stop ∧ s.category ≠ t.category
  | [], _, _, _ => by simp
  | t :: spans, _, h, ha => by
    intro s hs
    obtain ⟨hnext, ha⟩ := List.isChain_cons.mp ha
    rcases List.mem_cons.mp hs with rfl | hs
    · cases spans with
      | nil => exact Or.inl h.2.2
      | cons u spans => exact Or.inr ⟨u, by simp, h.2.2.1, hnext u rfl⟩
    · refine (h.2.2.stop_eq_or ha s hs).imp_right ?_
      rintro ⟨u, hu, hstart⟩
      exact ⟨u, List.mem_cons_of_mem _ hu, hstart⟩

end Tiles

namespace Highlighter

open Hit

variable {h : Highlighter} {text : Text} {s : Span}

/-- **A span stops** at the end of the text or at an edge of an accepted match. -/
theorem stop_eq_or_edge (hs : s ∈ h.classify text) : s.stop = text.byteLength ∨
    ∃ g ∈ accepted .empty (h.hits text), s.stop = g.range.start ∨ s.stop = g.range.stop := by
  obtain ⟨ht, ha⟩ := maximalPartition_iff.mp (maximalPartition_classify h text)
  rcases ht.stop_eq_or ha s hs with hend | ⟨t, htm, hstart, hne⟩
  · exact Or.inl hend
  · refine Or.inr (Classical.byContradiction fun hno => hne ?_)
    have hlt := ht.filled s hs
    have hlt' := ht.filled t htm
    have hle := ht.stop_le htm
    -- no edge is between the last byte of `s` and the first one of `t`
    have hsame : lastAt? (s.stop - 1) (accepted .empty (h.hits text)) =
        lastAt? t.start (accepted .empty (h.hits text)) := lastAt?_congr fun g hg => by
      have hstart' : s.stop ≠ g.range.start := fun he => hno ⟨g, hg, Or.inl he⟩
      have hstop' : s.stop ≠ g.range.stop := fun he => hno ⟨g, hg, Or.inr he⟩
      rw [ByteRange.mem_def, ByteRange.mem_def]
      omega
    have hlast : s.stop - 1 ∈ s.range := ⟨Nat.le_sub_one_of_lt hlt, Nat.sub_one_lt_of_lt hlt⟩
    have hfirst : t.start ∈ t.range := ⟨Nat.le_refl _, hlt'⟩
    rw [category_of_mem hs hlast (by omega), category_of_mem htm hfirst (by omega), categoryOf,
      categoryOf, hsame]

/-- **The offsets of a classification** are character boundaries. -/
theorem isBoundary_of_mem_classify (hs : s ∈ h.classify text) :
    text.IsBoundary s.start ∧ text.IsBoundary s.stop := by
  have hstop : ∀ t ∈ h.classify text, text.IsBoundary t.stop := by
    intro t ht
    rcases stop_eq_or_edge ht with heq | ⟨g, hg, hedge⟩
    · exact heq ▸ text.isBoundary_byteLength
    · have hb := Pattern.isBoundary_of_mem_findAll (mem_hits_iff.mp (mem_of_mem_accepted hg)).2
      rcases hedge with heq | heq
      · exact heq ▸ hb.1
      · exact heq ▸ hb.2
  refine ⟨?_, hstop s hs⟩
  rcases (tiles_classify h text).start_eq_or s hs with heq | ⟨t, ht, heq⟩
  · exact heq ▸ text.isBoundary_zero
  · exact heq ▸ hstop t ht

/-- Each span of a classification has a text. -/
theorem isSome_text?_of_mem_classify (hs : s ∈ h.classify text) :
    (s.text? text).isSome = true :=
  Span.isSome_text?_iff.mpr
    ⟨Nat.le_of_lt ((tiles_classify h text).filled s hs), isBoundary_of_mem_classify hs⟩

end Highlighter

/-- The texts of the spans of a classification make up the text. -/
theorem Highlighter.slices_classify (h : Highlighter) (text : Text) :
    slices text (h.classify text) = text :=
  (tiles_classify h text).contiguous.slices_eq (a := []) rfl
    fun _ hs => isSome_text?_of_mem_classify hs

/-! ## Printing -/

theorem Output.deliver_ne_missingSlice {out : Output} (h : .missingSlice ∉ out)
    (room : Option Nat) : (deliver room out).2 ≠ .missingSlice := by
  induction out generalizing room with
  | nil => simp [deliver]
  | cons action out ih =>
    have htail : .missingSlice ∉ out := fun hm => h (List.mem_cons_of_mem _ hm)
    cases action with
    | missingSlice => exact absurd List.mem_cons_self h
    | write piece =>
      cases room with
      | none => exact ih htail none
      | some room =>
        rw [deliver]
        split
        · exact ih htail _
        · simp

theorem SpanDump.missingSlice_mem_render_iff {text : Text} {spans : List Span} :
    .missingSlice ∈ render text spans ↔ ∃ s ∈ spans, s.text? text = none := by
  induction spans with
  | nil => simp [render]
  | cons s spans ih =>
    rw [render]
    cases hs : s.text? text <;> simp [hs, ih]

theorem Rtf.missingSlice_mem_renderSpans_iff {table : List Rgb} {theme : Theme} {text : Text}
    {spans : List Span} :
    .missingSlice ∈ renderSpans table theme text spans ↔ ∃ s ∈ spans, s.text? text = none := by
  induction spans with
  | nil => simp [renderSpans, Output.say]
  | cons s spans ih =>
    rw [renderSpans]
    cases hs : s.text? text <;> simp [hs, ih]

theorem Rtf.missingSlice_mem_render_iff {theme : Theme} {text : Text} {spans : List Span} :
    .missingSlice ∈ render theme text spans ↔ ∃ s ∈ spans, s.text? text = none := by
  have hheader : .missingSlice ∉ header (colorTable theme) := by simp [header, Output.say]
  have hrender : render theme text spans =
      header (colorTable theme) ++ renderSpans (colorTable theme) theme text spans := rfl
  rw [hrender, List.mem_append, or_iff_right hheader, missingSlice_mem_renderSpans_iff]

theorem Terminal.missingSlice_mem_renderSpans_iff {opts : Options} {width : Nat} {theme : Theme}
    {text : Text} {now : Progress} {spans : List Span} :
    .missingSlice ∈ renderSpans opts width theme text now spans ↔
      ∃ s ∈ spans, s.text? text = none := by
  induction spans generalizing now with
  | nil => simp [renderSpans]
  | cons s spans ih =>
    rw [renderSpans]
    cases hs : s.text? text <;> simp [hs, ih]

theorem Terminal.missingSlice_mem_render_iff {opts : Options} {theme : Theme} {text : Text}
    {spans : List Span} :
    .missingSlice ∈ render opts theme text spans ↔ ∃ s ∈ spans, s.text? text = none :=
  missingSlice_mem_renderSpans_iff

/-- **Spans of a classification can be sliced and printed**: their offsets are character boundaries
in order, so their texts and their ranges in UTF-16 exist, and no way of printing them breaks off,
whatever the table, the theme, the options and the room for the output. -/
theorem Highlighter.classify_sliceable (h : Highlighter) (text : Text) :
    (∀ s ∈ h.classify text, (s.start ≤ s.stop ∧ s.stop ≤ text.byteLength) ∧
      (text.IsBoundary s.start ∧ text.IsBoundary s.stop) ∧
      (s.text? text).isSome = true ∧ (s.utf16Range? text).isSome = true) ∧
    ∀ (opts : Terminal.Options) (theme : Theme) (room : Option Nat),
      ((Terminal.render opts theme text (h.classify text)).deliver room).2 ≠ .missingSlice ∧
      ((SpanDump.render text (h.classify text)).deliver room).2 ≠ .missingSlice ∧
      ((Rtf.render theme text (h.classify text)).deliver room).2 ≠ .missingSlice := by
  have ht := tiles_classify h text
  have hsome : ∀ s ∈ h.classify text, (s.text? text).isSome = true :=
    fun s hs => isSome_text?_of_mem_classify hs
  have hno : ¬ ∃ s ∈ h.classify text, s.text? text = none := by
    rintro ⟨s, hs, hnone⟩
    exact absurd (hsome s hs) (by simp [hnone])
  refine ⟨fun s hs => ⟨⟨Nat.le_of_lt (ht.filled s hs), ht.stop_le hs⟩,
    isBoundary_of_mem_classify hs, hsome s hs, Span.isSome_utf16Range?_iff.mpr (hsome s hs)⟩,
    fun opts theme room => ⟨?_, ?_, ?_⟩⟩
  · exact Output.deliver_ne_missingSlice (mt Terminal.missingSlice_mem_render_iff.mp hno) room
  · exact Output.deliver_ne_missingSlice (mt SpanDump.missingSlice_mem_render_iff.mp hno) room
  · exact Output.deliver_ne_missingSlice (mt Rtf.missingSlice_mem_render_iff.mp hno) room

/-- The theorem for a span that begins between two characters of two and four bytes. -/
theorem Highlighter.classify_sliceable_clef :
    let table : Highlighter := ⟨[⟨"clef", "𝄞", .one (.single '𝄞'), .string, false⟩]⟩
    ⟨2, 6, .string⟩ ∈ table.classify ['é', '𝄞', 'x'] ∧
      Text.IsBoundary ['é', '𝄞', 'x'] 2 ∧ Text.IsBoundary ['é', '𝄞', 'x'] 6 ∧
      (Span.text? ⟨2, 6, .string⟩ ['é', '𝄞', 'x']).isSome = true ∧
      (Span.utf16Range? ⟨2, 6, .string⟩ ['é', '𝄞', 'x']).isSome = true := by
  intro table
  have hmem : ⟨2, 6, .string⟩ ∈ table.classify ['é', '𝄞', 'x'] := by decide +kernel
  obtain ⟨-, ⟨hstart, hstop⟩, hparts⟩ := (classify_sliceable table ['é', '𝄞', 'x']).1 _ hmem
  exact ⟨hmem, hstart, hstop, hparts⟩

end FaustLens
