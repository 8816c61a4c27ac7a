import FaustLens.Pattern.Basic
import Std.Data.TreeSet

/-!
# Search

Stands for the search of the library `regex`, which visits each state of its automaton at most once
at each place.

A depth-first search through a pattern goes from place to place. `Pattern.walk` follows a pattern
from a place and hands each place where the pattern may end to what comes next, the preferred one
first. A *choice* of the pattern is between two alternatives, or between one more iteration and
none. Each choice is made at most once at each place (`Search.fork`): to make it again could only
lead where the first time leads. So the search ends even in a loop around a pattern that can match
the empty text, and an iteration that comes back to its own beginning is given up for the next
alternative of the body.

The choices of a pattern are numbered from left to right; a repetition has the choices of its body
once for each iteration that it counts (`Pattern.choices`).

Results:
* `fork_of_made`, `fork_of_not_made`: a choice is made at most once at a place.
* `distinctFrom_subset`: removing repeated places adds none.
-/

namespace FaustLens

/-! ## Assertions -/

namespace WordEdge

/-- Whether the edge is there, given whether a word character is before and after the place. -/
def holds : WordEdge → (before after : Bool) → Bool
  | boundary, b, a => b != a
  | interior, b, a => b == a
  | wordStart, b, a => !b && a
  | wordEnd, b, a => b && !a
  | notAfterWord, b, _ => !b
  | notBeforeWord, _, a => !a

end WordEdge

namespace Assertion

/-- Whether the assertion holds at a place. -/
def holds : Assertion → Cursor → Bool
  | textStart, cur => cur.prev.isNone
  | textEnd, cur => cur.rest.isEmpty
  | lineStart false, cur => cur.prev.all (· == '\n')
  | lineStart true, cur =>
    cur.prev.all fun c => c == '\n' || (c == '\r' && cur.rest.head? != some '\n')
  | lineEnd false, cur => cur.rest.head?.all (· == '\n')
  | lineEnd true, cur =>
    cur.rest.head?.all fun c => c == '\r' || (c == '\n' && cur.prev != some '\r')
  | wordEdge edge ascii, cur =>
    let isWord := if ascii then Unicode.asciiWord else Unicode.isWord
    edge.holds (cur.prev.any isWord) (cur.rest.head?.any isWord)

end Assertion

/-! ## Choices and ends -/

/-- The progress of a depth-first search. -/
structure Search where
  /-- The choices that were made, by their numbers. -/
  made : Std.TreeSet Nat
  /-- The ends found so far, the newest first. -/
  found : List Cursor

namespace Search

/-- The search that has just begun. -/
def init : Search := ⟨∅, []⟩

/-- Remember an end. -/
def emit (s : Search) (cur : Cursor) : Search := ⟨s.made, cur :: s.found⟩

/-- Make the choice with number `k`: go on with `first` and then with `second`, the other way round
if not `greedy`. A choice that was made before is not made again. -/
def fork (s : Search) (k : Nat) (greedy : Bool) (first second : Search → Search) : Search :=
  if s.made.contains k then s
  else
    let s : Search := ⟨s.made.insert k, s.found⟩
    if greedy then second (first s) else first (second s)

theorem fork_of_made {k : Nat} {s : Search} (h : s.made.contains k = true) (greedy : Bool)
    (first second : Search → Search) : s.fork k greedy first second = s := by
  simp [fork, h]

theorem fork_of_not_made {k : Nat} {s : Search} (h : s.made.contains k = false)
    (first second : Search → Search) :
    s.fork k true first second = second (first ⟨s.made.insert k, s.found⟩) ∧
      s.fork k false first second = first (second ⟨s.made.insert k, s.found⟩) := by
  simp [fork, h]

end Search

namespace Pattern

/-! ## Removing repeated places -/

/-- Keep the first cursor of each offset that is not in `seen`. -/
def distinctFrom (seen : Std.TreeSet Nat) : List Cursor → List Cursor
  | [] => []
  | cur :: rest =>
    if seen.contains cur.offset then distinctFrom seen rest
    else cur :: distinctFrom (seen.insert cur.offset) rest

/-- Keep the first cursor of each offset. -/
def distinct (curs : List Cursor) : List Cursor := distinctFrom ∅ curs

theorem distinctFrom_subset (seen : Std.TreeSet Nat) (curs : List Cursor) :
    distinctFrom seen curs ⊆ curs := by
  induction curs generalizing seen with
  | nil => simp [distinctFrom]
  | cons cur rest ih =>
    rw [distinctFrom]
    split
    · exact fun x hx => List.mem_cons_of_mem _ (ih _ hx)
    · intro x hx
      rcases List.mem_cons.mp hx with h | h
      · exact List.mem_cons.mpr (.inl h)
      · exact List.mem_cons_of_mem _ (ih _ h)

/-! ## Walking through a pattern -/

/-- What a search does from a place on. -/
abbrev Walk := Cursor → Search → Search

/-- The number of choices in a pattern. -/
def choices : Pattern → Nat
  | empty => 0
  | one _ => 0
  | assert _ => 0
  | capture _ p => choices p
  | cat a b => choices a + choices b
  | alt a b => choices a + choices b + 1
  | repeated p least (some m) _ => least * choices p + (m - least) * (choices p + 1)
  | repeated p least none _ => max least 1 * choices p + 2

/-- Take `step` exactly so many times, then go on with `next`. The choices of the iterations are
numbered from `id` on, `width` for each. -/
def turns (step : Nat → Walk → Walk) (width : Nat) : Nat → Nat → Walk → Walk
  | 0, _, next, cur, s => next cur s
  | n + 1, id, next, cur, s => step id (turns step width n (id + width) next) cur s

/-- Take `step` at most so many times, with a choice before each time, then go on with `next`. -/
def atMost (choose : Nat → Walk → Walk → Walk) (step : Nat → Walk → Walk) (width : Nat) :
    Nat → Nat → Walk → Walk
  | 0, _, next, cur, s => next cur s
  | n + 1, id, next, cur, s =>
    choose id (step (id + 1) (atMost choose step width n (id + 1 + width) next)) next cur s

/-- Take `step` any number of times, with the same choice before each time, then go on with `next`.
The first number bounds how many of these choices are made one inside the other. -/
def again (choose : Walk → Walk → Walk) (step : Walk → Walk) : Nat → Walk → Walk
  | 0, next, cur, s => next cur s
  | n + 1, next, cur, s => choose (step (again choose step n next)) next cur s

/-- Walk through a pattern whose choices are numbered from `id` on, then go on with `next`. There
are `total` choices in all, and `size` bounds the length of the text in characters.

An unbounded repetition makes one and the same choice behind each iteration. If no iteration is
needed, that choice also comes first, unless the body may match the empty text: then a choice of
its own comes first. -/
def walk (size total : Nat) : Pattern → Nat → Walk → Walk
  | empty, _, next, cur, s => next cur s
  | one set, _, next, cur, s =>
    match cur.rest with
    | c :: rest => if set.contains c then next (cur.past c rest) s else s
    | [] => s
  | assert a, _, next, cur, s => if a.holds cur then next cur s else s
  | capture _ p, id, next, cur, s => walk size total p id next cur s
  | cat a b, id, next, cur, s =>
    walk size total a id (walk size total b (id + choices a) next) cur s
  | alt a b, id, next, cur, s =>
    choose true id (walk size total a (id + 1) next)
      (walk size total b (id + 1 + choices a) next) cur s
  | repeated p least (some m) greedy, id, next, cur, s =>
    turns (walk size total p) (choices p) least id
      (atMost (choose greedy) (walk size total p) (choices p) (m - least)
        (id + least * choices p) next) cur s
  | repeated p 0 none greedy, id, next, cur, s =>
    let loop := again (choose greedy (id + 1)) (walk size total p (id + 2)) (size + 2) next
    if p.nullable then choose greedy id (walk size total p (id + 2) loop) next cur s
    else loop cur s
  | repeated p (n + 1) none greedy, id, next, cur, s =>
    let last := walk size total p (id + 2 + n * choices p)
    turns (walk size total p) (choices p) n (id + 2)
      (last (again (choose greedy (id + 1)) last (size + 2) next)) cur s
where
  /-- Make the choice `id` of the pattern at a place. -/
  choose (greedy : Bool) (id : Nat) (first second : Walk) (cur : Cursor) (s : Search) : Search :=
    s.fork (cur.offset * total + id) greedy (first cur) (second cur)

/-- The places where a walk through the pattern from `cur` ends, the preferred one first. -/
def searchEnds (size : Nat) (p : Pattern) (cur : Cursor) : List Cursor :=
  let s := walk size p.choices p 0 (fun e s => s.emit e) cur Search.init
  distinct s.found.reverse

end Pattern

end FaustLens
