import FaustLens.Text.Basic

/-!
# Claimed ranges

Model of `ClaimedRanges` (`syntax::rules`): `intersects`, `claim`, `len`, `is_empty`. The map from
starts to stops is a list here, in which `lastBefore?` finds the entry with the last key below a
bound.

While a text is classified, the matches of exclusive rules claim their bytes. Claims are disjoint: a
range is claimed only after it was found not to intersect an earlier claim. They are kept in
decreasing order of their starts, so the only claim that a range can meet last is the first one in
the list that starts before the range stops, and `intersects` looks at that one alone.

Results:
* `intersects_empty`: an empty range meets nothing.
* `mem_claim`: claiming adds a range that is not empty, and nothing else.
-/

namespace FaustLens

/-- The ranges claimed so far, in decreasing order of their starts. -/
structure ClaimedRanges where
  ranges : List ByteRange := []
deriving DecidableEq, Repr, Inhabited

namespace ClaimedRanges

/-- No claim. -/
def empty : ClaimedRanges := {}

/-- The last claim that starts before an offset. -/
def lastBefore? (cl : ClaimedRanges) (offset : Nat) : Option ByteRange :=
  cl.ranges.find? (·.start < offset)

/-- Whether a range shares a byte with a claim. -/
def intersects (cl : ClaimedRanges) (r : ByteRange) : Bool :=
  !r.isEmpty && (cl.lastBefore? r.stop).any (r.start < ·.stop)

/-- Insert a range in front of the claims that start before it. -/
def insert (r : ByteRange) : List ByteRange → List ByteRange
  | [] => [r]
  | s :: rest => if s.start < r.start then r :: s :: rest else s :: insert r rest

/-- Claim a range that does not intersect an earlier claim; an empty range claims nothing. -/
def claim (cl : ClaimedRanges) (r : ByteRange) : ClaimedRanges :=
  if r.isEmpty then cl else ⟨insert r cl.ranges⟩

/-- The number of claims. -/
def size (cl : ClaimedRanges) : Nat := cl.ranges.length

/-- Whether nothing is claimed. -/
def isEmpty (cl : ClaimedRanges) : Bool := cl.ranges.isEmpty

theorem intersects_empty (cl : ClaimedRanges) {r : ByteRange} (h : r.isEmpty = true) :
    cl.intersects r = false := by
  simp [intersects, h]

theorem mem_insert {r s : ByteRange} {rs : List ByteRange} : s ∈ insert r rs ↔ s = r ∨ s ∈ rs := by
  induction rs with
  | nil => simp [insert]
  | cons t rs ih =>
    rw [insert]
    split
    · simp
    · simp [ih, or_left_comm]

theorem mem_claim {cl : ClaimedRanges} {r s : ByteRange} :
    s ∈ (cl.claim r).ranges ↔ (s = r ∧ r.isEmpty = false) ∨ s ∈ cl.ranges := by
  cases h : r.isEmpty <;> simp [claim, h, mem_insert]

end ClaimedRanges

end FaustLens
