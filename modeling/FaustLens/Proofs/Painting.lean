import FaustLens.Highlighter

/-!
# Bytes, paint and spans

`Highlighter::classify` (`syntax::highlighter`) paints a text match by match, so a byte has the
category of the last match that painted it. Cutting the painted text into spans (`runs`) keeps this:
the spans tile the text, so each byte lies in one span, and that span has the byte's category.

Results:
* `getElem?_paintAll`: the last match that holds a byte decides its category.
* `tiles_runs`: the runs of some categories tile the offsets of the categories.
* `categoryAt_of_mem`, `existsUnique_span`: a byte of the text lies in one span only, and
  `Highlighter.categoryAt` is that span's category.
* `categoryAt_eq`: the category of a byte in terms of the accepted matches.
* `classify_congr`: tables that paint each byte alike give the same spans.
-/

namespace FaustLens

/-! ## Painting -/

namespace Hit

/-- The last of some matches that holds the byte at offset `b`. -/
def lastAt? (b : Nat) : List Hit → Option Hit
  | [] => none
  | h :: hits => (lastAt? b hits).or (if b ∈ h.range then some h else none)

/-- The category that some matches, painted in order, give the byte at offset `b`. -/
def categoryOf (b : Nat) (hits : List Hit) : Category :=
  match lastAt? b hits with
  | some h => h.rule.category
  | none => .plain

variable {b : Nat}

theorem lastAt?_append (as bs : List Hit) :
    lastAt? b (as ++ bs) = (lastAt? b bs).or (lastAt? b as) := by
  induction as with
  | nil => simp [lastAt?]
  | cons a as ih => rw [List.cons_append, lastAt?, lastAt?, ih, Option.or_assoc]

theorem lastAt?_eq_none_iff {hits : List Hit} :
    lastAt? b hits = none ↔ ∀ h ∈ hits, b ∉ h.range := by
  induction hits with
  | nil => simp [lastAt?]
  | cons h hits ih =>
    rw [lastAt?, Option.or_eq_none_iff, ih, List.forall_mem_cons, and_comm]
    simp

theorem mem_of_lastAt? {hits : List Hit} {h : Hit} (hl : lastAt? b hits = some h) :
    h ∈ hits ∧ b ∈ h.range := by
  induction hits with
  | nil => simp [lastAt?] at hl
  | cons g hits ih =>
    rw [lastAt?, Option.or_eq_some_iff] at hl
    rcases hl with hl | ⟨-, hl⟩
    · exact ⟨List.mem_cons_of_mem _ (ih hl).1, (ih hl).2⟩
    · split at hl
      · rename_i hg
        obtain rfl := Option.some.inj hl
        exact ⟨List.mem_cons_self, hg⟩
      · exact absurd hl (by simp)

end Hit

theorem getElem?_paint (c : Category) (b : Nat) : ∀ (n start : Nat) (bytes : Array Category),
    (paint c start n bytes)[b]? =
      if start ≤ b ∧ b < start + n ∧ b < bytes.size then some c else bytes[b]?
  | 0, start, bytes => by
    rw [paint, if_neg (by omega)]
  | n + 1, start, bytes => by
    rw [paint, getElem?_paint c b n (start + 1), Array.size_setIfInBounds,
      Array.getElem?_setIfInBounds]
    by_cases hb : b = start
    · subst hb
      rw [if_neg (by omega), if_pos rfl]
      by_cases hs : b < bytes.size
      · rw [if_pos hs, if_pos (by omega)]
      · rw [if_neg hs, if_neg (by omega), Array.getElem?_eq_none (by omega)]
    · rw [if_neg (Ne.symm hb)]
      congr 1
      exact propext (by omega)

theorem getElem?_foldl_paint (hits : List Hit) (b : Nat) (bytes : Array Category)
    (hb : b < bytes.size) :
    (hits.foldl Hit.paint bytes)[b]? =
      match Hit.lastAt? b hits with
      | some h => some h.rule.category
      | none => bytes[b]? := by
  induction hits generalizing bytes with
  | nil => rfl
  | cons h hits ih =>
    have hsize : b < (h.paint bytes).size := by
      rw [Hit.paint, size_paint]
      exact hb
    rw [List.foldl_cons, ih _ hsize, Hit.lastAt?]
    cases Hit.lastAt? b hits with
    | some g => rfl
    | none =>
      simp only [Option.none_or]
      rw [Hit.paint, getElem?_paint]
      by_cases hm : b ∈ h.range
      · have hm' := ByteRange.mem_def.mp hm
        rw [if_pos hm, if_pos (by unfold ByteRange.length; omega)]
      · have hm' := mt ByteRange.mem_def.mpr hm
        rw [if_neg hm, if_neg (by unfold ByteRange.length; omega)]

/-- **The last match wins**: each byte has the category of the last match that holds it. -/
theorem getElem?_paintAll (hits : List Hit) {b size : Nat} (hb : b < size) :
    (paintAll size hits)[b]? = some (Hit.categoryOf b hits) := by
  unfold paintAll Hit.categoryOf
  rw [getElem?_foldl_paint hits b _ (by simpa using hb)]
  cases Hit.lastAt? b hits with
  | some h => rfl
  | none => simp [hb]

/-! ## Spans -/

/-- The spans follow each other without gaps from `lo` to `hi`, and none is empty. -/
def Tiles : Nat → List Span → Nat → Prop
  | lo, [], hi => lo = hi
  | lo, s :: spans, hi => s.start = lo ∧ lo < s.stop ∧ Tiles s.stop spans hi

theorem expand_cons (t : Span) (spans : List Span) :
    expand (t :: spans) = List.replicate t.length t.category ++ expand spans := rfl

namespace Tiles

theorem le_start {lo hi : Nat} {spans : List Span} (h : Tiles lo spans hi) {s : Span}
    (hs : s ∈ spans) : lo ≤ s.start := by
  induction spans generalizing lo with
  | nil => exact absurd hs List.not_mem_nil
  | cons t spans ih =>
    obtain ⟨rfl, hlt, h⟩ := h
    rcases List.mem_cons.mp hs with rfl | hs
    · exact Nat.le_refl _
    · exact Nat.le_trans (Nat.le_of_lt hlt) (ih h hs)

theorem le {lo hi : Nat} {spans : List Span} (h : Tiles lo spans hi) : lo ≤ hi := by
  induction spans generalizing lo with
  | nil => exact Nat.le_of_eq h
  | cons t spans ih =>
    obtain ⟨rfl, hlt, h⟩ := h
    exact Nat.le_trans (Nat.le_of_lt hlt) (ih h)

theorem stop_le {lo hi : Nat} {spans : List Span} (h : Tiles lo spans hi) {s : Span}
    (hs : s ∈ spans) : s.stop ≤ hi := by
  induction spans generalizing lo with
  | nil => exact absurd hs List.not_mem_nil
  | cons t spans ih =>
    obtain ⟨-, -, h⟩ := h
    rcases List.mem_cons.mp hs with rfl | hs
    · exact h.le
    · exact ih h hs

theorem exists_mem {lo hi : Nat} {spans : List Span} (h : Tiles lo spans hi) {b : Nat}
    (hlo : lo ≤ b) (hhi : b < hi) : ∃ s ∈ spans, b ∈ s.range := by
  induction spans generalizing lo with
  | nil =>
    have : lo = hi := h
    omega
  | cons t spans ih =>
    obtain ⟨rfl, -, h⟩ := h
    by_cases hb : b < t.stop
    · exact ⟨t, List.mem_cons_self, hlo, hb⟩
    · obtain ⟨s, hs, hbs⟩ := ih h (Nat.le_of_not_lt hb)
      exact ⟨s, List.mem_cons_of_mem _ hs, hbs⟩

theorem eq_of_mem {lo hi : Nat} {spans : List Span} (h : Tiles lo spans hi) {b : Nat} {s t : Span}
    (hs : s ∈ spans) (hbs : b ∈ s.range) (ht : t ∈ spans) (hbt : b ∈ t.range) : s = t := by
  induction spans generalizing lo with
  | nil => exact absurd hs List.not_mem_nil
  | cons u spans ih =>
    obtain ⟨rfl, -, h⟩ := h
    -- a later span starts where `u` stops or behind it, so it shares no byte with `u`
    have hlater : ∀ v ∈ spans, b ∈ v.range → b ∉ u.range := by
      intro v hv hbv hbu
      have hle := h.le_start hv
      have h1 : v.start ≤ b := hbv.1
      have h2 : b < u.stop := hbu.2
      omega
    rcases List.mem_cons.mp hs with rfl | hs'
    · rcases List.mem_cons.mp ht with rfl | ht'
      · rfl
      · exact absurd hbs (hlater t ht' hbt)
    · rcases List.mem_cons.mp ht with rfl | ht'
      · exact absurd hbt (hlater s hs' hbs)
      · exact ih h hs' ht'

/-- The expanded spans have each span's category at the offsets of the span. -/
theorem getElem?_expand {lo hi : Nat} {spans : List Span} (h : Tiles lo spans hi) {b : Nat}
    {s : Span} (hs : s ∈ spans) (hb : b ∈ s.range) : (expand spans)[b - lo]? = some s.category := by
  induction spans generalizing lo with
  | nil => exact absurd hs List.not_mem_nil
  | cons t spans ih =>
    obtain ⟨rfl, hlt, h⟩ := h
    have hlen : t.length = t.stop - t.start := rfl
    rw [expand_cons]
    rcases List.mem_cons.mp hs with rfl | hs
    · have h1 : s.start ≤ b := hb.1
      have h2 : b < s.stop := hb.2
      rw [List.getElem?_append_left (by rw [List.length_replicate]; omega),
        List.getElem?_replicate_of_lt (by omega)]
    · have hle := h.le_start hs
      have h1 : s.start ≤ b := hb.1
      have hsub : b - t.start - t.length = b - t.stop := by omega
      rw [List.getElem?_append_right (by rw [List.length_replicate]; omega),
        List.length_replicate, hsub]
      exact ih h hs

end Tiles

theorem tiles_runsFrom (c : Category) : ∀ (cs : List Category) (start pos : Nat), start < pos →
    Tiles start (runsFrom start c pos cs) (pos + cs.length) := by
  intro cs
  induction cs generalizing c with
  | nil => exact fun start pos h => ⟨rfl, h, rfl⟩
  | cons d cs ih =>
    intro start pos h
    have hlen : pos + (d :: cs).length = pos + 1 + cs.length := by
      rw [List.length_cons]
      omega
    rw [runsFrom, hlen]
    split
    · exact ih c start (pos + 1) (by omega)
    · exact ⟨rfl, h, ih d pos (pos + 1) (by omega)⟩

/-- **The runs tile the offsets** of the categories they were made from. -/
theorem tiles_runs (cs : List Category) : Tiles 0 (runs cs) cs.length := by
  cases cs with
  | nil => rfl
  | cons c cs =>
    rw [List.length_cons, Nat.add_comm]
    exact tiles_runsFrom c cs 0 1 (by omega)

namespace Highlighter

/-- The category of the span that holds the byte at offset `b`. -/
def categoryAt (h : Highlighter) (text : Text) (b : Nat) : Option Category :=
  ((h.classify text).find? (·.contains b)).map (·.category)

variable (h : Highlighter) (text : Text)

theorem tiles_classify : Tiles 0 (h.classify text) text.byteLength := by
  have ht := tiles_runs (paintAll text.byteLength (Hit.accepted .empty (h.hits text))).toList
  rw [Array.length_toList, size_paintAll] at ht
  exact ht

variable {h text} {b : Nat}

theorem existsUnique_span (hb : b < text.byteLength) :
    ∃ s, (s ∈ h.classify text ∧ b ∈ s.range) ∧
      ∀ t, t ∈ h.classify text ∧ b ∈ t.range → t = s := by
  obtain ⟨s, hs, hbs⟩ := (tiles_classify h text).exists_mem (Nat.zero_le b) hb
  exact ⟨s, ⟨hs, hbs⟩, fun t ⟨ht, hbt⟩ => (tiles_classify h text).eq_of_mem ht hbt hs hbs⟩

/-- The spans, byte by byte. -/
theorem expand_classify (h : Highlighter) (text : Text) : expand (h.classify text) =
    (paintAll text.byteLength (Hit.accepted .empty (h.hits text))).toList := expand_runs _

theorem length_expand_classify (h : Highlighter) (text : Text) :
    (expand (h.classify text)).length = text.byteLength := by
  rw [expand_classify, Array.length_toList, size_paintAll]

theorem getElem?_expand_classify (hlt : b < text.byteLength) : (expand (h.classify text))[b]? =
    some (Hit.categoryOf b (Hit.accepted .empty (h.hits text))) := by
  rw [expand_classify, Array.getElem?_toList, getElem?_paintAll _ hlt]

/-- A span's category is the one that was painted on each of its bytes. -/
theorem category_of_mem {s : Span} (hs : s ∈ h.classify text) (hb : b ∈ s.range)
    (hlt : b < text.byteLength) :
    s.category = Hit.categoryOf b (Hit.accepted .empty (h.hits text)) := by
  have he := (tiles_classify h text).getElem?_expand hs hb
  rw [Nat.sub_zero, getElem?_expand_classify hlt] at he
  exact (Option.some.inj he).symm

theorem categoryAt_of_mem {s : Span} (hs : s ∈ h.classify text) (hb : b ∈ s.range) :
    h.categoryAt text b = some s.category := by
  unfold categoryAt
  cases hf : (h.classify text).find? (·.contains b) with
  | none => exact absurd (ByteRange.contains_iff.mpr hb) (List.find?_eq_none.mp hf s hs)
  | some t =>
    have hbt : b ∈ t.range := ByteRange.contains_iff.mp
      (List.find?_some (p := fun u : Span => u.contains b) hf)
    rw [(tiles_classify h text).eq_of_mem (List.mem_of_find?_eq_some hf) hbt hs hb]
    rfl

theorem categoryAt_eq (hb : b < text.byteLength) :
    h.categoryAt text b = some (Hit.categoryOf b (Hit.accepted .empty (h.hits text))) := by
  obtain ⟨s, ⟨hs, hbs⟩, -⟩ := existsUnique_span (h := h) hb
  rw [categoryAt_of_mem hs hbs, category_of_mem hs hbs hb]

/-- Tables that paint each byte alike give the same spans. -/
theorem classify_congr {h' : Highlighter}
    (hlast : ∀ b, Hit.lastAt? b (Hit.accepted .empty (h.hits text)) =
      Hit.lastAt? b (Hit.accepted .empty (h'.hits text))) : h.classify text = h'.classify text := by
  have hpainted : paintAll text.byteLength (Hit.accepted .empty (h.hits text)) =
      paintAll text.byteLength (Hit.accepted .empty (h'.hits text)) := by
    refine Array.ext_getElem? fun b => ?_
    by_cases hb : b < text.byteLength
    · rw [getElem?_paintAll _ hb, getElem?_paintAll _ hb, Hit.categoryOf, Hit.categoryOf,
        hlast]
    · rw [Array.getElem?_eq_none (by rw [size_paintAll]; omega),
        Array.getElem?_eq_none (by rw [size_paintAll]; omega)]
  exact congrArg (fun bytes => runs bytes.toList) hpainted

end Highlighter

end FaustLens
