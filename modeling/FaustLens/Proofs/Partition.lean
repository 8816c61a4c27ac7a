import FaustLens.Proofs.Painting
import Mathlib.Data.List.Chain

/-!
# Maximal partitions

The spans of a classification (`Highlighter::classify`, `syntax::highlighter`) follow each other
without gaps from the start of the text to its end, and neighbours never have the same category
(`MaximalPartition`). There is only one such list of spans for given categories of the bytes: a span
that is maximal ends where the category changes, so collapsing the expanded spans again gives them
back.

Results:
* `maximalPartition_iff`: a maximal partition, in terms of `Tiles`.
* `maximalPartition_runs`: the runs of some categories are a maximal partition.
* `runs_expand`: a maximal partition is the runs of its categories.
* `maximalPartition_iff_eq_classify`: a classification is the one maximal partition that shows the
  painted categories.
-/

namespace FaustLens

/-- Neighbours differ in category. -/
def Alternating (spans : List Span) : Prop := spans.IsChain fun s t => s.category ≠ t.category

/-- The spans cut the first `size` bytes into maximal runs of one category. -/
structure MaximalPartition (size : Nat) (spans : List Span) : Prop where
  nil_iff : spans = [] ↔ size = 0
  start_first : ∀ s ∈ spans.head?, s.start = 0
  stop_last : ∀ s ∈ spans.getLast?, s.stop = size
  filled : ∀ s ∈ spans, s.start < s.stop
  adjacent : spans.IsChain fun s t => s.stop = t.start
  alternating : Alternating spans

/-! ## Tilings -/

namespace Tiles

theorem start_first {lo hi : Nat} : ∀ {spans : List Span}, Tiles lo spans hi →
    ∀ s ∈ spans.head?, s.start = lo
  | [], _ => by simp
  | t :: _, h => by
    intro s hs
    obtain rfl : t = s := by simpa using hs
    exact h.1

theorem stop_last {hi : Nat} : ∀ {spans : List Span} {lo : Nat}, Tiles lo spans hi →
    ∀ s ∈ spans.getLast?, s.stop = hi
  | [], _, _ => by simp
  | [t], _, h => by
    intro s hs
    obtain rfl : t = s := by simpa using hs
    exact h.2.2
  | t :: u :: spans, _, h => by
    intro s hs
    rw [List.getLast?_cons_cons] at hs
    exact h.2.2.stop_last s hs

theorem filled {hi : Nat} : ∀ {spans : List Span} {lo : Nat}, Tiles lo spans hi →
    ∀ s ∈ spans, s.start < s.stop
  | [], _, _ => by simp
  | _ :: _, _, h => by
    intro s hs
    rcases List.mem_cons.mp hs with rfl | hs
    · exact h.1 ▸ h.2.1
    · exact h.2.2.filled s hs

theorem adjacent {hi : Nat} : ∀ {spans : List Span} {lo : Nat}, Tiles lo spans hi →
    spans.IsChain fun s t => s.stop = t.start
  | [], _, _ => List.isChain_nil
  | _ :: _, _, h =>
    List.isChain_cons.mpr ⟨fun u hu => (h.2.2.start_first u hu).symm, h.2.2.adjacent⟩

/-- Spans with a byte each that follow each other without gaps. -/
theorem of_adjacent {hi : Nat} : ∀ {spans : List Span} {lo : Nat}, (spans = [] → lo = hi) →
    (∀ s ∈ spans.head?, s.start = lo) → (∀ s ∈ spans.getLast?, s.stop = hi) →
    (∀ s ∈ spans, s.start < s.stop) → spans.IsChain (fun s t => s.stop = t.start) →
    Tiles lo spans hi
  | [], _, hnil, _, _, _, _ => hnil rfl
  | t :: spans, lo, _, hfirst, hlast, hfilled, hchain => by
    obtain ⟨hnext, hchain⟩ := List.isChain_cons.mp hchain
    have hstart : t.start = lo := hfirst t rfl
    refine ⟨hstart, hstart ▸ hfilled t List.mem_cons_self, of_adjacent ?_ ?_ ?_ ?_ hchain⟩
    · rintro rfl
      exact hlast t rfl
    · exact fun u hu => (hnext u hu).symm
    · intro u hu
      cases spans with
      | nil => exact absurd hu (by simp)
      | cons v spans => exact hlast u (by rwa [List.getLast?_cons_cons])
    · exact fun u hu => hfilled u (List.mem_cons_of_mem _ hu)

theorem length_expand {hi : Nat} : ∀ {spans : List Span} {lo : Nat}, Tiles lo spans hi →
    lo + (expand spans).length = hi
  | [], _, h => h
  | t :: spans, lo, h => by
    have hlt := h.2.1
    have hlen : t.length = t.stop - lo := h.1 ▸ rfl
    have htail := h.2.2.length_expand
    rw [expand_cons, List.length_append, List.length_replicate, hlen]
    omega

/-- The expanded spans are some categories iff each span shows these at its offsets. -/
theorem expand_eq_iff {spans : List Span} {cs : List Category} (h : Tiles 0 spans cs.length) :
    expand spans = cs ↔ ∀ s ∈ spans, ∀ b ∈ s.range, cs[b]? = some s.category := by
  constructor
  · rintro rfl s hs b hb
    simpa using h.getElem?_expand hs hb
  · intro hshow
    have hlen : (expand spans).length = cs.length := by simpa using h.length_expand
    refine List.ext_getElem? fun b => ?_
    by_cases hb : b < cs.length
    · obtain ⟨s, hs, hbs⟩ := h.exists_mem (Nat.zero_le b) hb
      rw [hshow s hs b hbs]
      simpa using h.getElem?_expand hs hbs
    · rw [List.getElem?_eq_none (by omega), List.getElem?_eq_none (by omega)]

end Tiles

/-- **Maximal partitions** are the alternating tilings. -/
theorem maximalPartition_iff {size : Nat} {spans : List Span} :
    MaximalPartition size spans ↔ Tiles 0 spans size ∧ Alternating spans := by
  constructor
  · intro h
    exact ⟨Tiles.of_adjacent (fun hnil => (h.nil_iff.mp hnil).symm) h.start_first h.stop_last
      h.filled h.adjacent, h.alternating⟩
  · rintro ⟨ht, ha⟩
    refine ⟨⟨?_, ?_⟩, ht.start_first, ht.stop_last, ht.filled, ht.adjacent, ha⟩
    · rintro rfl
      exact Eq.symm ht
    · intro hsize
      cases spans with
      | nil => rfl
      | cons s spans =>
        have := ht.2.1
        have := ht.2.2.le
        omega

/-! ## Runs -/

theorem head?_runsFrom (start : Nat) (c : Category) : ∀ (pos : Nat) (cs : List Category),
    ∃ stop, (runsFrom start c pos cs).head? = some ⟨start, stop, c⟩
  | pos, [] => ⟨pos, rfl⟩
  | pos, d :: cs => by
    rw [runsFrom]
    split
    · exact head?_runsFrom start c (pos + 1) cs
    · exact ⟨pos, rfl⟩

/-- A run ends only where the category changes. -/
theorem alternating_runsFrom : ∀ (cs : List Category) (start : Nat) (c : Category) (pos : Nat),
    Alternating (runsFrom start c pos cs)
  | [], _, _, _ => List.isChain_singleton _
  | d :: cs, start, c, pos => by
    rw [runsFrom]
    split
    · exact alternating_runsFrom cs start c (pos + 1)
    · rename_i hne
      refine List.isChain_cons.mpr ⟨fun t ht => ?_, alternating_runsFrom cs pos d (pos + 1)⟩
      obtain ⟨stop, hstop⟩ := head?_runsFrom pos d (pos + 1) cs
      obtain rfl := Option.some.inj (hstop.symm.trans ht)
      exact Ne.symm hne

/-- **The runs of some categories** are a maximal partition. -/
theorem maximalPartition_runs (cs : List Category) : MaximalPartition cs.length (runs cs) := by
  refine maximalPartition_iff.mpr ⟨tiles_runs cs, ?_⟩
  cases cs with
  | nil => exact List.isChain_nil
  | cons c cs => exact alternating_runsFrom cs 0 c 1

/-- An open run takes in all that follows of its category. -/
theorem runsFrom_replicate_append (start : Nat) (c : Category) (cs : List Category) :
    ∀ (n pos : Nat),
      runsFrom start c pos (List.replicate n c ++ cs) = runsFrom start c (pos + n) cs
  | 0, _ => rfl
  | n + 1, pos => by
    rw [List.replicate_succ, List.cons_append, runsFrom, if_pos rfl,
      runsFrom_replicate_append start c cs n (pos + 1)]
    congr 1
    omega

/-- The bytes of the first span, one at a time and then the rest. -/
theorem expand_cons_of_lt {t : Span} (h : t.start < t.stop) (spans : List Span) :
    expand (t :: spans) = t.category ::
      (List.replicate (t.stop - (t.start + 1)) t.category ++ expand spans) := by
  have hlen : t.length = t.stop - (t.start + 1) + 1 := by
    have : t.length = t.stop - t.start := rfl
    omega
  rw [expand_cons, hlen, List.replicate_succ, List.cons_append]

/-- Before the spans of an alternating tiling, an open run of another category is closed. -/
theorem runsFrom_expand {hi : Nat} : ∀ {spans : List Span} {c : Category} {start pos : Nat},
    Tiles pos spans hi → Alternating spans → (∀ s ∈ spans.head?, s.category ≠ c) →
      runsFrom start c pos (expand spans) = ⟨start, pos, c⟩ :: spans
  | [], _, _, _, _, _, _ => rfl
  | t :: spans, c, start, pos, ht, ha, hc => by
    obtain ⟨rfl, hlt, ht⟩ := ht
    obtain ⟨hnext, ha⟩ := List.isChain_cons.mp ha
    -- the first byte of `t` closes the open run and opens another, which the others of `t` extend
    have hpos : t.start + 1 + (t.stop - (t.start + 1)) = t.stop := by omega
    rw [expand_cons_of_lt hlt, runsFrom, if_neg (hc t rfl), runsFrom_replicate_append, hpos,
      runsFrom_expand ht ha fun s hs => (hnext s hs).symm]

/-- **Collapsing expanded spans** gives them back, if they are a maximal partition. -/
theorem runs_expand {size : Nat} {spans : List Span} (h : MaximalPartition size spans) :
    runs (expand spans) = spans := by
  obtain ⟨ht, ha⟩ := maximalPartition_iff.mp h
  cases spans with
  | nil => rfl
  | cons t spans =>
    obtain ⟨hstart, hlt, ht⟩ := ht
    obtain ⟨hnext, ha⟩ := List.isChain_cons.mp ha
    have hpos : 1 + (t.stop - (t.start + 1)) = t.stop := by omega
    rw [expand_cons_of_lt (hstart ▸ hlt), runs, runsFrom_replicate_append, hpos,
      runsFrom_expand ht ha fun s hs => (hnext s hs).symm, ← hstart]

/-- **Runs are unique**: no other maximal partition has the same categories. -/
theorem eq_runs_iff {spans : List Span} {cs : List Category} :
    spans = runs cs ↔ MaximalPartition cs.length spans ∧ expand spans = cs := by
  constructor
  · rintro rfl
    exact ⟨maximalPartition_runs cs, expand_runs cs⟩
  · rintro ⟨hpart, rfl⟩
    exact (runs_expand hpart).symm

/-! ## Classifications -/

namespace Highlighter

/-- The category of each byte after all rules have painted. -/
def painted (h : Highlighter) (text : Text) : Array Category :=
  paintAll text.byteLength (Hit.accepted .empty (h.hits text))

variable (h : Highlighter) (text : Text)

theorem length_painted : (h.painted text).toList.length = text.byteLength := by
  rw [Array.length_toList, painted, size_paintAll]

theorem classify_eq_runs : h.classify text = runs (h.painted text).toList := rfl

theorem maximalPartition_classify : MaximalPartition text.byteLength (h.classify text) := by
  rw [← length_painted h text, classify_eq_runs]
  exact maximalPartition_runs _

/-- **A classification is the one maximal partition** whose spans show the painted category of each
of their bytes; it is what its own expansion collapses to. -/
theorem maximalPartition_iff_eq_classify :
    (∀ spans, (MaximalPartition text.byteLength spans ∧
        ∀ s ∈ spans, ∀ b ∈ s.range, (h.painted text)[b]? = some s.category) ↔
      spans = h.classify text) ∧
    expand (h.classify text) = (h.painted text).toList ∧
    runs (expand (h.classify text)) = h.classify text := by
  refine ⟨fun spans => ?_, expand_runs _, runs_expand (maximalPartition_classify h text)⟩
  rw [classify_eq_runs, eq_runs_iff, length_painted]
  refine and_congr_right fun hpart => ?_
  have ht := (maximalPartition_iff.mp hpart).1
  rw [← length_painted h text] at ht
  rw [ht.expand_eq_iff]
  simp only [Array.getElem?_toList]

end Highlighter

end FaustLens
