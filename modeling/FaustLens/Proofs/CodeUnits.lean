import FaustLens.Proofs.Boundaries

/-!
# Spans in UTF-16

The range of a span in UTF-16 (`Span::utf16_range`, `syntax::span`) is found by counting: the code
units before the span, and those of its part of the text. Encoding goes character by character, so
at this range the code units of the text are the encoded part. If the spans tile a text, each begins
at the count where the one before it stops, so their ranges tile the code units.

The code units of a text determine it: `Text.ofUnits?` reads them back, where a surrogate stands only
in a pair.

Results:
* `Text.extract_units`: encoding a middle part gives the middle part of the code units.
* `Text.ofUnits?_units`: a text is read back from its code units.
* `Span.utf16Range?_of_text?`: the range of a span, by what comes before it.
* `Tiles.exists_units`: spans that tile a text tile its code units.
* `Span.codeUnits_utf16Range?`: the code units of a span, and the ranges of a classification.
-/

namespace FaustLens

/-! ## Counting code units -/

namespace Text

theorem unitLength_append (a b : Text) : unitLength (a ++ b) = unitLength a + unitLength b := by
  simp only [← length_units, units_append, List.length_append]

theorem length_charUnits_pos (c : Char) : 0 < (charUnits c).length := by
  unfold charUnits
  split <;> simp

theorem unitLength_pos {text : Text} (h : text ≠ []) : 0 < unitLength text := by
  obtain ⟨c, rest, rfl⟩ := List.exists_cons_of_ne_nil h
  exact Nat.lt_of_lt_of_le (length_charUnits_pos c) (Nat.le_add_right _ _)

/-- **The code units of a part** stand behind those of what comes before it. -/
theorem extract_units (a part b : Text) :
    (units (a ++ part ++ b)).extract (unitLength a) (unitLength (a ++ part)) = units part := by
  have hbefore : (units a).length = unitLength a := length_units a
  have hpart : unitLength (a ++ part) - unitLength a = (units part).length := by
    rw [unitLength_append, Nat.add_sub_cancel_left, length_units]
  rw [List.extract_eq_take_drop, hpart, List.append_assoc, units_append, ← hbefore,
    List.drop_left, units_append, List.take_left]

/-! ### Reading code units back -/

/-- The text with the given UTF-16 code units. A surrogate must stand in a pair, the high one before
the low one. -/
def ofUnits? : List Nat → Option Text
  | [] => some []
  | u :: rest =>
    if u < 0xD800 ∨ 0xE000 ≤ u ∧ u < 0x10000 then (ofUnits? rest).map (Char.ofNat u :: ·)
    else match rest with
      | [] => none
      | v :: rest =>
        if (0xD800 ≤ u ∧ u < 0xDC00) ∧ 0xDC00 ≤ v ∧ v < 0xE000 then
          (ofUnits? rest).map
            (Char.ofNat (0x10000 + 0x400 * (u - 0xD800) + (v - 0xDC00)) :: ·)
        else none

/-- A code point is no surrogate and at most U+10FFFF. -/
theorem toNat_lt_or (c : Char) : c.toNat < 0xD800 ∨ 0xDFFF < c.toNat ∧ c.toNat < 0x110000 := c.valid

/-- **The first character** is read back from its code units. -/
theorem ofUnits?_charUnits_append (c : Char) (us : List Nat) :
    ofUnits? (charUnits c ++ us) = (ofUnits? us).map (c :: ·) := by
  have hvalid := toNat_lt_or c
  unfold charUnits
  split
  · rename_i hone
    rw [List.singleton_append, ofUnits?.eq_def]
    dsimp only
    rw [if_pos (by omega), Char.ofNat_toNat]
  · rename_i htwo
    -- the two surrogates hold the upper and the lower ten bits above U+10000
    have hpoint : 0x10000 + 0x400 * (0xD800 + (c.toNat - 0x10000) / 0x400 - 0xD800) +
        (0xDC00 + (c.toNat - 0x10000) % 0x400 - 0xDC00) = c.toNat := by omega
    rw [List.cons_append, List.cons_append, List.nil_append, ofUnits?.eq_def]
    dsimp only
    rw [if_neg (by omega), if_pos (by omega), hpoint, Char.ofNat_toNat]

/-- **A text is read back** from its code units. -/
theorem ofUnits?_units (text : Text) : ofUnits? (units text) = some text := by
  induction text with
  | nil => rfl
  | cons c text ih =>
    rw [units, List.flatMap_cons, ofUnits?_charUnits_append]
    exact congrArg (Option.map (c :: ·)) ih

theorem lt_of_mem_charUnits {c : Char} {u : Nat} (h : u ∈ charUnits c) : u < 0x10000 := by
  have hvalid := toNat_lt_or c
  unfold charUnits at h
  split at h
  · rename_i hone
    obtain rfl := List.mem_singleton.mp h
    exact hone
  · rcases List.mem_pair.mp h with heq | heq <;> omega

end Text

/-! ## Spans -/

namespace Span

/-- **The range of a span in UTF-16**: behind the code units of what comes before the span, as far as
those of its part reach. -/
theorem utf16Range?_of_text? {s : Span} {text part a b : Text} (h : s.text? text = some part)
    (htext : text = a ++ b) (hstart : s.start = a.byteLength) :
    s.utf16Range? text = some (Text.unitLength a, Text.unitLength (a ++ part)) := by
  have hbefore : text.slice? 0 s.start = some a :=
    Text.slice?_eq_some_iff.mpr ⟨[], b, htext, rfl, hstart.symm⟩
  simp [utf16Range?, hbefore, h, Text.unitLength_append]

/-- The span `t` is the span `s` with its range in UTF-16. -/
def InUnits (text : Text) (s t : Span) : Prop :=
  s.utf16Range? text = some (t.start, t.stop) ∧ t.category = s.category

end Span

/-- **Spans that tile a text** from the end of `a` on tile its code units from the end of `a` on. -/
theorem Tiles.exists_units {text : Text} : ∀ {spans : List Span} {a b : Text}, text = a ++ b →
    Tiles a.byteLength spans text.byteLength → (∀ s ∈ spans, (s.text? text).isSome = true) →
      ∃ inUnits, List.Forall₂ (Span.InUnits text) spans inUnits ∧
        Tiles (Text.unitLength a) inUnits (Text.unitLength text)
  | [], a, b, htext, ht, _ => by
    subst htext
    obtain rfl : b = [] := (Text.append_inj (List.append_nil (a ++ b)).symm ht).2
    exact ⟨[], .nil, congrArg Text.unitLength (List.append_nil a).symm⟩
  | s :: spans, a, b, htext, ht, hsome => by
    obtain ⟨hstart, hlt, ht⟩ := ht
    rw [List.forall_mem_cons] at hsome
    obtain ⟨part, hpart⟩ := Option.isSome_iff_exists.mp hsome.1
    have hrange := Span.utf16Range?_of_text? hpart htext hstart
    obtain ⟨rest, hb, hstop⟩ := Span.exists_of_text?_append (htext ▸ hpart) hstart
    have hparts : text = (a ++ part) ++ rest := by rw [htext, hb, List.append_assoc]
    rw [← hstop] at ht hlt
    obtain ⟨inUnits, hunits, htiles⟩ := ht.exists_units hparts hsome.2
    have hne : part ≠ [] := by
      rintro rfl
      rw [List.append_nil] at hlt
      exact absurd hlt (Nat.lt_irrefl _)
    have hgrow : Text.unitLength a < Text.unitLength (a ++ part) := by
      rw [Text.unitLength_append]
      exact Nat.lt_add_of_pos_right (Text.unitLength_pos hne)
    exact ⟨⟨Text.unitLength a, Text.unitLength (a ++ part), s.category⟩ :: inUnits,
      .cons ⟨hrange, rfl⟩ hunits, rfl, hgrow, htiles⟩

/-- Spans of the same categories alternate alike. -/
theorem alternating_of_inUnits {text : Text} {spans inUnits : List Span}
    (h : List.Forall₂ (Span.InUnits text) spans inUnits) (ha : Alternating spans) :
    Alternating inUnits := by
  have hcategories : inUnits.map (·.category) = spans.map (·.category) := by
    induction h with
    | nil => rfl
    | cons hs _ ih =>
      rw [List.map_cons, List.map_cons, hs.2, ih (List.isChain_cons.mp ha).2]
  unfold Alternating at ha ⊢
  rw [← List.isChain_map (R := (· ≠ ·)) (f := Span.category)] at ha ⊢
  rwa [hcategories]

/-- **Spans in UTF-16** address the same characters: a span has a range in UTF-16 iff it has a text,
and then the code units at this range are those of its text. The ranges of a classification are not
empty and follow each other from the first code unit of the text to the last one. -/
theorem Span.codeUnits_utf16Range? (text : Text) :
    (∀ s : Span, (s.utf16Range? text = none ↔ s.text? text = none) ∧
      ∀ part, s.text? text = some part → ∃ start stop, s.utf16Range? text = some (start, stop) ∧
        start ≤ stop ∧ stop ≤ (Text.units text).length ∧
        (Text.units text).extract start stop = Text.units part) ∧
    ∀ h : Highlighter, ∃ inUnits, List.Forall₂ (InUnits text) (h.classify text) inUnits ∧
      MaximalPartition (Text.units text).length inUnits := by
  refine ⟨fun s => ⟨?_, fun part hpart => ?_⟩, fun h => ?_⟩
  · rw [← Option.not_isSome_iff_eq_none, ← Option.not_isSome_iff_eq_none, isSome_utf16Range?_iff]
  · obtain ⟨a, b, rfl, hstart, -⟩ := Text.slice?_eq_some_iff.mp hpart
    refine ⟨_, _, utf16Range?_of_text? hpart (List.append_assoc a part b) hstart.symm, ?_, ?_,
      Text.extract_units a part b⟩
    · rw [Text.unitLength_append]
      exact Nat.le_add_right _ _
    · rw [Text.length_units, Text.unitLength_append (a ++ part)]
      exact Nat.le_add_right _ _
  · obtain ⟨ht, ha⟩ := maximalPartition_iff.mp (h.maximalPartition_classify text)
    obtain ⟨inUnits, hunits, htiles⟩ := Tiles.exists_units (a := []) (b := text) rfl ht
      fun s hs => h.isSome_text?_of_mem_classify hs
    rw [Text.length_units]
    exact ⟨inUnits, hunits, maximalPartition_iff.mpr ⟨htiles, alternating_of_inUnits hunits ha⟩⟩

/-- The theorem for a span of two characters and one that stops inside of the first of them. -/
theorem Span.codeUnits_utf16Range?_clef :
    let text : Text := ['é', '𝄞', 'x']
    (utf16Range? ⟨3, 6, .plain⟩ text = none ↔ text? ⟨3, 6, .plain⟩ text = none) ∧
      text? ⟨2, 7, .plain⟩ text = some ['𝄞', 'x'] ∧
      ∃ start stop, utf16Range? ⟨2, 7, .plain⟩ text = some (start, stop) ∧
        (Text.units text).extract start stop = [0xD834, 0xDD1E, 0x78] := by
  intro text
  have hpart : text? ⟨2, 7, .plain⟩ text = some ['𝄞', 'x'] := by decide
  obtain ⟨start, stop, hrange, -, -, hunits⟩ :=
    ((codeUnits_utf16Range? text).1 ⟨2, 7, .plain⟩).2 _ hpart
  exact ⟨((codeUnits_utf16Range? text).1 ⟨3, 6, .plain⟩).1, hpart, start, stop, hrange, hunits⟩

end FaustLens
