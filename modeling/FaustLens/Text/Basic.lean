/-!
# Text and byte offsets

Stands for strings of the standard library, which can be sliced between characters only.

A text is a list of characters. Positions in it are UTF-8 byte offsets: `Text.byteLength` is the
offset of the end, and `Text.slice?` cuts out the part between two offsets, which exists exactly
when both are in order and fall between characters.

Results:
* `Text.byteLength_append`: lengths add up.
* `Text.dropBytes?_append`: what follows `a` in `a ++ b` starts at the length of `a`.
* `Text.slice?_append`: the middle part of `a ++ b ++ c` is the slice between its offsets.
* `Text.isDigit_of_mem_toString`, `Text.ofDigitChars_toString`: a number is written with digits, and
  read back from them.
-/

namespace FaustLens

/-- A text: the list of its characters. -/
abbrev Text := List Char

namespace Text

/-- The number of bytes of the text in UTF-8. -/
def byteLength : Text → Nat
  | [] => 0
  | c :: rest => c.utf8Size + byteLength rest

@[simp] theorem byteLength_nil : byteLength [] = 0 := rfl

@[simp] theorem byteLength_cons (c : Char) (rest : Text) :
    byteLength (c :: rest) = c.utf8Size + byteLength rest := rfl

theorem byteLength_append (a b : Text) : byteLength (a ++ b) = byteLength a + byteLength b := by
  induction a with
  | nil => simp
  | cons c a ih => simp [ih, Nat.add_assoc]

/-- The text from byte `n` on; none if `n` is past the end or inside a character. -/
def dropBytes? : Nat → Text → Option Text
  | 0, text => some text
  | _ + 1, [] => none
  | n + 1, c :: rest =>
    if c.utf8Size ≤ n + 1 then dropBytes? (n + 1 - c.utf8Size) rest else none

/-- The first `n` bytes of the text; none if `n` is past the end or inside a character. -/
def takeBytes? : Nat → Text → Option Text
  | 0, _ => some []
  | _ + 1, [] => none
  | n + 1, c :: rest =>
    if c.utf8Size ≤ n + 1 then (takeBytes? (n + 1 - c.utf8Size) rest).map (c :: ·) else none

/-- The text from byte `start` up to byte `stop`; none unless both are character boundaries of the
text and in order. -/
def slice? (text : Text) (start stop : Nat) : Option Text :=
  if start ≤ stop then (dropBytes? start text).bind (takeBytes? (stop - start)) else none

theorem dropBytes?_append (a b : Text) : dropBytes? a.byteLength (a ++ b) = some b := by
  induction a with
  | nil => simp [dropBytes?]
  | cons c a ih =>
    have hc := c.utf8Size_pos
    obtain ⟨m, hm⟩ : ∃ m, c.utf8Size + byteLength a = m + 1 :=
      ⟨c.utf8Size + byteLength a - 1, by omega⟩
    have hsub : m + 1 - c.utf8Size = byteLength a := by omega
    have hle : c.utf8Size ≤ m + 1 := by omega
    simp only [byteLength_cons, hm, List.cons_append, dropBytes?, if_pos hle, hsub, ih]

theorem takeBytes?_append (a b : Text) : takeBytes? a.byteLength (a ++ b) = some a := by
  induction a with
  | nil => simp [takeBytes?]
  | cons c a ih =>
    have hc := c.utf8Size_pos
    obtain ⟨m, hm⟩ : ∃ m, c.utf8Size + byteLength a = m + 1 :=
      ⟨c.utf8Size + byteLength a - 1, by omega⟩
    have hsub : m + 1 - c.utf8Size = byteLength a := by omega
    have hle : c.utf8Size ≤ m + 1 := by omega
    simp only [byteLength_cons, hm, List.cons_append, takeBytes?, if_pos hle, hsub, ih,
      Option.map_some]

/-- The middle of three parts is the slice between its offsets. -/
theorem slice?_append (a b c : Text) :
    slice? (a ++ b ++ c) a.byteLength (a.byteLength + b.byteLength) = some b := by
  have hdrop : dropBytes? a.byteLength (a ++ b ++ c) = some (b ++ c) := by
    rw [List.append_assoc]
    exact dropBytes?_append a (b ++ c)
  rw [slice?, if_pos (Nat.le_add_right _ _), hdrop, Nat.add_sub_cancel_left]
  exact takeBytes?_append b c

theorem isDigit_of_mem_toString {n : Nat} {c : Char} (h : c ∈ (toString n).toList) :
    c.isDigit = true := by
  rw [Nat.toString_eq_repr, Nat.toList_repr] at h
  exact Nat.isDigit_of_mem_toDigits (by decide) (by decide) h

/-- A number is read back from its digits. -/
theorem ofDigitChars_toString (n : Nat) : Nat.ofDigitChars 10 (toString n).toList 0 = n := by
  rw [Nat.toString_eq_repr, Nat.toList_repr, Nat.ofDigitChars_ten_toDigits]

end Text

/-- The bytes from offset `start` up to, not including, `stop`; empty when they are not in order. -/
structure ByteRange where
  start : Nat
  stop : Nat
deriving DecidableEq, Repr, Inhabited

namespace ByteRange

/-- Whether the range has no byte. -/
def isEmpty (r : ByteRange) : Bool := r.stop ≤ r.start

/-- The number of bytes in the range. -/
def length (r : ByteRange) : Nat := r.stop - r.start

/-- Whether the byte at offset `b` is in the range. -/
def contains (r : ByteRange) (b : Nat) : Bool := r.start ≤ b && b < r.stop

instance : Membership Nat ByteRange := ⟨fun r b => r.start ≤ b ∧ b < r.stop⟩

theorem mem_def {r : ByteRange} {b : Nat} : b ∈ r ↔ r.start ≤ b ∧ b < r.stop := Iff.rfl

instance (r : ByteRange) (b : Nat) : Decidable (b ∈ r) := inferInstanceAs (Decidable (_ ∧ _))

theorem contains_iff {r : ByteRange} {b : Nat} : r.contains b = true ↔ b ∈ r := by
  simp [contains, mem_def]

end ByteRange

end FaustLens
