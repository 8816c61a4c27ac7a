/-!
# Range tables: sets of code points in the notation of the character database

The modules under `FaustLens.Unicode` stand for the tables of the Unicode character database,
version 17, that the library `regex` and the standard library are built with. They are the tables of
general categories, scripts, simple case folding and properties.

A character property is a list of runs in increasing order. A run is written `61-7A` (all code
points from 61 to 7A, in hexadecimal), `AA` (one code point) or `100-12E/2` (every second code point
from 100 to 12E). `RangeTable.ofText` reads that notation, and `RangeTable.contains` decides
membership by binary search for the last run that starts at or below the code point.

Results:
* `Run.holds_of_eq`: a run of one code point holds it.
-/

namespace FaustLens.Unicode

/-- The code points `lo`, `lo + step`, …, up to `hi`. -/
structure Run where
  lo : Nat
  hi : Nat
  step : Nat
deriving DecidableEq, Repr, Inhabited

namespace Run

/-- Whether `n` is one of the run's code points. -/
def holds (r : Run) (n : Nat) : Bool :=
  r.lo ≤ n && n ≤ r.hi && (n - r.lo) % r.step == 0

theorem holds_of_eq (n step : Nat) : (Run.mk n n step).holds n = true := by
  simp [holds]

/-- The value of a hexadecimal digit; other characters count as zero. -/
def hexValue (c : Char) : Nat :=
  if c.isDigit then c.toNat - '0'.toNat
  else if 'A' ≤ c ∧ c ≤ 'F' then c.toNat - 'A'.toNat + 10
  else 0

/-- The number that a hexadecimal numeral in capitals stands for. -/
def ofHex (digits : String) : Nat :=
  digits.toList.foldl (fun n c => 16 * n + hexValue c) 0

/-- Read one run in the notation `lo-hi/step`, where `hi` and `step` may be absent. -/
def ofText (entry : String) : Run :=
  let (bounds, step) :=
    match entry.splitOn "/" with
    | [b, s] => (b, ofHex s)
    | _ => (entry, 1)
  match bounds.splitOn "-" with
  | [lo, hi] => ⟨ofHex lo, ofHex hi, step⟩
  | _ => ⟨ofHex bounds, ofHex bounds, step⟩

end Run

/-- The entries of a table, which spaces and line breaks separate. -/
def entries (text : String) : List String :=
  ((text.splitOn "\n").flatMap (·.splitOn " ")).filter (!·.isEmpty)

/-- A set of code points: disjoint runs in increasing order. -/
structure RangeTable where
  runs : Array Run
deriving DecidableEq, Repr, Inhabited

namespace RangeTable

/-- Read a table. -/
def ofText (text : String) : RangeTable := ⟨((entries text).map Run.ofText).toArray⟩

/-- How many runs start at or below `n`, when those before `lo` do and those from `hi` on do not.
The first argument bounds the number of halvings. -/
def countStarts (t : RangeTable) (n : Nat) : Nat → Nat → Nat → Nat
  | 0, lo, _ => lo
  | fuel + 1, lo, hi =>
    if hi ≤ lo then lo
    else
      let mid := (lo + hi) / 2
      if t.runs[mid]?.any (·.lo ≤ n) then countStarts t n fuel (mid + 1) hi
      else countStarts t n fuel lo mid

/-- Whether the table holds the code point `n`. -/
def contains (t : RangeTable) (n : Nat) : Bool :=
  match countStarts t n t.runs.size 0 t.runs.size with
  | 0 => false
  | k + 1 => t.runs[k]?.any (·.holds n)

end RangeTable

end FaustLens.Unicode
