import FaustLens.Text.Basic

/-!
# Lines

Stands for `split_inclusive` of the standard library, with a line feed as the separator. Its `lines`
are these without their ends, so as many.

A line ends behind each line feed; what follows the last one is a line too, unless it is empty.

Results:
* `flatten_lines`: the lines make up the text.
* `ne_nil_of_mem_lines`: no line is empty.
* `not_mem_dropLast_of_mem_lines`: a line has no line feed but at its end.
-/

namespace FaustLens.Text

/-- The lines of a text, each with its line feed. -/
def lines : Text → List Text
  | [] => []
  | c :: rest =>
    if c = '\n' then [c] :: lines rest
    else
      match lines rest with
      | [] => [[c]]
      | line :: more => (c :: line) :: more

theorem flatten_lines (text : Text) : (lines text).flatten = text := by
  induction text with
  | nil => rfl
  | cons c rest ih =>
    rw [lines]
    split
    · simp [ih]
    · cases h : lines rest with
      | nil => simp [h] at ih; simp [← ih]
      | cons line more => simp [h] at ih; simp [ih]

theorem ne_nil_of_mem_lines {text line : Text} (h : line ∈ lines text) : line ≠ [] := by
  induction text generalizing line with
  | nil => simp [lines] at h
  | cons c rest ih =>
    rw [lines] at h
    split at h
    · rcases List.mem_cons.mp h with rfl | h
      · simp
      · exact ih h
    · cases hr : lines rest with
      | nil =>
        rw [hr] at h
        simp only [List.mem_singleton] at h
        simp [h]
      | cons first more =>
        rw [hr] at h ih
        rcases List.mem_cons.mp h with rfl | h
        · simp
        · exact ih (List.mem_cons_of_mem _ h)

theorem not_mem_dropLast_of_mem_lines {text line : Text} (h : line ∈ lines text) :
    '\n' ∉ line.dropLast := by
  induction text generalizing line with
  | nil => simp [lines] at h
  | cons c rest ih =>
    rw [lines] at h
    split at h
    · rcases List.mem_cons.mp h with rfl | h
      · simp
      · exact ih h
    · rename_i hc
      cases hr : lines rest with
      | nil =>
        rw [hr] at h
        simp only [List.mem_singleton] at h
        simp [h]
      | cons first more =>
        rw [hr] at h ih
        rcases List.mem_cons.mp h with rfl | h
        · have hne : first ≠ [] := ne_nil_of_mem_lines (hr ▸ List.mem_cons_self)
          rw [List.dropLast_cons_of_ne_nil hne, List.mem_cons, not_or]
          exact ⟨Ne.symm hc, ih List.mem_cons_self⟩
        · exact ih (List.mem_cons_of_mem _ h)

end FaustLens.Text
