import FaustLens.Proofs.Pattern.Contents

/-!
# Scans from the left

A scan goes through a text with a cursor (`scanFrom`). At a place that the cursor has reached it may
take some of the text that follows; then the cursor moves to the end of what was taken. If it takes
nothing, the cursor moves on by one character. A pattern whose matches are told by what may be taken
at a place, given the text on both sides, finds just the ranges of a scan.

Results:
* `chosenFrom_scanFrom`: a scan chooses from the left among the ranges that may be taken.
* `findAll_eq_scan`: when the matches of a pattern are those of a scan.
-/

namespace FaustLens

/-- The ranges that a scan takes of the text `rest` behind `before`. The number tells how many
characters of `rest` were taken already. -/
def scanFrom (take? : Text → Text → Option Text) (before : Text) : Nat → Text → List ByteRange
  | _, [] => []
  | taken + 1, c :: rest => scanFrom take? (before ++ [c]) taken rest
  | 0, c :: rest =>
    match take? before (c :: rest) with
    | some w => ⟨before.byteLength, (before ++ w).byteLength⟩ ::
        scanFrom take? (before ++ [c]) (w.length - 1) rest
    | none => scanFrom take? (before ++ [c]) 0 rest

/-- The ranges that a scan takes of a text, where `take? a b` is what may be taken at the place
between `a` and `b`. -/
def scan (take? : Text → Text → Option Text) (text : Text) : List ByteRange :=
  scanFrom take? [] 0 text

/-- What may be taken at a place follows there and holds a character. -/
def Takes (take? : Text → Text → Option Text) : Prop :=
  ∀ a b w, take? a b = some w → w ≠ [] ∧ w <+: b

section Scan

variable {take? : Text → Text → Option Text} {text : Text} {P : ByteRange → Prop}

/-- A range that may be taken behind `a` starts behind `a` or there. -/
theorem exists_of_parts {a a' w z rest : Text} {r : ByteRange} (hr : text.Parts r a' w z)
    (htext : text = a ++ rest) (hle : a.byteLength ≤ r.start) :
    ∃ m, a' = a ++ m ∧ rest = m ++ (w ++ z) := by
  have hsplit : a ++ rest = a' ++ (w ++ z) := by rw [← htext, hr.text_eq, List.append_assoc]
  rw [hr.range_eq] at hle
  exact Text.exists_middle hsplit hle

/-- **A scan chooses from the left** among the ranges that may be taken. -/
theorem chosenFrom_scanFrom (htake : Takes take?)
    (hP : ∀ r, P r ↔ ∃ a w z, text.Parts r a w z ∧ take? a (w ++ z) = some w) :
    ∀ (rest a : Text) (taken : Nat), text = a ++ rest →
      ChosenFrom P (a ++ rest.take taken).byteLength (scanFrom take? a taken rest)
  | [], a, taken, htext => by
    rw [List.take_nil, List.append_nil, scanFrom]
    refine .done fun r hr => Nat.lt_of_not_le fun hle => ?_
    obtain ⟨a', w, z, hparts, hw⟩ := (hP r).mp hr
    obtain ⟨m, -, hrest⟩ := exists_of_parts hparts htext hle
    obtain ⟨-, hrest⟩ := List.append_eq_nil_iff.mp hrest.symm
    exact (htake _ _ _ hw).1 (List.append_eq_nil_iff.mp hrest).1
  | c :: rest, a, taken + 1, htext => by
    rw [List.append_cons] at htext
    rw [List.take_succ_cons, List.append_cons, scanFrom]
    exact chosenFrom_scanFrom htake hP rest (a ++ [c]) taken htext
  | c :: rest, a, 0, htext => by
    have hbehind : text = (a ++ [c]) ++ rest := by rw [htext, List.append_cons]
    rw [List.take_zero, List.append_nil, scanFrom]
    cases hw : take? a (c :: rest) with
    | some w =>
      obtain ⟨hne, z, hz⟩ := htake _ _ _ hw
      obtain ⟨d, w, rfl⟩ := List.exists_cons_of_ne_nil hne
      obtain ⟨rfl, rfl⟩ := List.cons.inj hz
      have hrange : P ⟨a.byteLength, (a ++ d :: w).byteLength⟩ :=
        (hP _).mpr ⟨a, d :: w, z, ⟨by rw [htext, List.append_assoc]; rfl, rfl⟩, hw⟩
      refine .next hrange (Nat.le_refl _) (fun s _ hs => hs) ?_
      have hscan := chosenFrom_scanFrom htake hP (w ++ z) (a ++ [d]) w.length hbehind
      rwa [List.take_left, List.append_assoc, List.singleton_append] at hscan
    | none =>
      have hscan := chosenFrom_scanFrom htake hP rest (a ++ [c]) 0 hbehind
      rw [List.take_zero, List.append_nil] at hscan
      refine hscan.of_le ?_ fun r hr hle => ?_
      · rw [Text.byteLength_append]
        exact Nat.le_add_right _ _
      · -- nothing is taken at this place, so the range starts behind the character
        obtain ⟨a', w, z, hparts, hw'⟩ := (hP r).mp hr
        obtain ⟨m, rfl, hrest⟩ := exists_of_parts hparts htext hle
        cases m with
        | nil =>
          rw [List.append_nil, ← List.nil_append (w ++ z), ← hrest, hw] at hw'
          exact absurd hw' (by simp)
        | cons d m =>
          obtain ⟨rfl, -⟩ := List.cons.inj hrest
          have hstart : r.start = (a ++ [c] ++ m).byteLength := by
            rw [hparts.range_eq, ← List.append_cons]
          rw [hstart, Text.byteLength_append (a ++ [c]) m]
          exact Nat.le_add_right _ _

/-- **The matches of a pattern are those of a scan** if a match is what may be taken at its start. -/
theorem Pattern.findAll_eq_scan {p : Pattern} (hn : p.nullable = false) (htake : Takes take?)
    (hp : ∀ r, MatchesAt p text r ↔ ∃ a w z, text.Parts r a w z ∧ take? a (w ++ z) = some w) :
    p.findAll text = scan take? text :=
  ((chosenFrom_matchesAt_iff hn).mp (chosenFrom_scanFrom htake hp text [] 0 rfl)).symm

end Scan

end FaustLens
