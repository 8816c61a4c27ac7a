import FaustLens.Pattern.Search

/-!
# Matching

Stands for `Regex::find_iter` of the library `regex`: its matches are leftmost-first.

`Pattern.ends p cur` lists the places where a match of `p` that starts at `cur` may end, the
preferred one first and each once. It is put together from the ends of the parts of `p`. Only an
unbounded repetition of a pattern that may match the empty text is not, because what it prefers
depends on where its iterations have been already: it is searched as a whole (`searchEnds`).

`Pattern.findAll p text` walks through the text and takes the preferred match at each place that
has one. A match starts no earlier than the previous one ends, and an empty match directly at the
end of the previous match is passed over.

Results:
* `runEnds_eq_nil_iff`: a run of a character set is impossible exactly where no member follows.
* `ends_repeated_of_not_nullable`: the ends of an ordinary repetition from those of its body.
-/

namespace FaustLens

namespace Pattern

/-! ## Repetition -/

/-- The ends of at most `n` further iterations from `cur`, added to a search. The body is entered
at most once for each number of remaining iterations that `key` tells apart, and for each place. -/
def explore (body : Cursor → List Cursor) (greedy : Bool) (key : Nat → Cursor → Nat) :
    Nat → Cursor → Search → Search
  | 0, cur, s => s.emit cur
  | n + 1, cur, s =>
    s.fork (key n cur) greedy
      (fun s => (body cur).foldl (fun s e => explore body greedy key n e s) s)
      (fun s => s.emit cur)

/-- The places after one, two, … characters of the set, as long as they last. -/
def runEnds (s : CharSet) (cur : Cursor) : List Cursor :=
  go cur.offset cur.rest
where
  /-- The same, for the text after a place at the given offset. -/
  go (offset : Nat) : Text → List Cursor
    | [] => []
    | c :: rest =>
      if s.contains c then
        ⟨some c, offset + c.utf8Size, rest⟩ :: go (offset + c.utf8Size) rest
      else []

theorem runEnds_eq_nil_iff (s : CharSet) (cur : Cursor) :
    runEnds s cur = [] ↔ cur.rest.head?.all (fun c => !s.contains c) = true := by
  obtain ⟨prev, offset, rest⟩ := cur
  cases rest with
  | nil => simp [runEnds, runEnds.go]
  | cons c rest => cases h : s.contains c <;> simp [runEnds, runEnds.go, h]

/-- The ends of further iterations of `p` from each of the places `starts`, where `body` gives the
ends of one iteration. Without a limit it does not matter how many iterations led to a place; with a
limit it does. `size` bounds the length of the text in characters, hence also the number of
iterations that move forward. -/
def furtherEnds (size : Nat) (p : Pattern) (body : Cursor → List Cursor) (limit : Option Nat)
    (greedy : Bool) (starts : List Cursor) : List Cursor :=
  match p with
  | one set =>
    starts.flatMap fun cur =>
      let run := runEnds set cur
      let run := cur :: (match limit with | none => run | some m => run.take m)
      if greedy then run.reverse else run
  | _ =>
    let key : Nat → Cursor → Nat :=
      match limit with
      | none => fun _ c => c.offset
      | some m => fun n c => c.offset * m + n
    let s := starts.foldl (fun s cur => explore body greedy key (limit.getD size) cur s) Search.init
    distinct s.found.reverse

/-- Do `step` exactly `n` times. -/
def iterate (step : Cursor → List Cursor) : Nat → List Cursor → List Cursor
  | 0, curs => curs
  | _ + 1, [] => []
  | n + 1, curs => iterate step n (distinct (curs.flatMap step))

/-! ## The ends of a match -/

/-- The places where a match of the pattern that starts at `cur` may end, the preferred one first.
`size` bounds the length of the text in characters. -/
def ends (size : Nat) : Pattern → Cursor → List Cursor
  | empty, cur => [cur]
  | one s, cur =>
    match cur.rest with
    | c :: rest => if s.contains c then [cur.past c rest] else []
    | [] => []
  | assert a, cur => if a.holds cur then [cur] else []
  | capture _ p, cur => ends size p cur
  | cat a b, cur => distinct ((ends size a cur).flatMap (ends size b))
  | alt a b, cur => distinct (ends size a cur ++ ends size b cur)
  | repeated p least most greedy, cur =>
    if p.nullable && most.isNone then
      match least with
      | 0 => searchEnds size (repeated p 0 none greedy) cur
      | n + 1 =>
        distinct
          ((iterate (ends size p) n [cur]).flatMap
            (searchEnds size (repeated p 1 none greedy)))
    else
      furtherEnds size p (ends size p) (most.map (· - least)) greedy
        (iterate (ends size p) least [cur])

theorem ends_repeated_of_not_nullable {p : Pattern} (h : p.nullable = false) (size least : Nat)
    (most : Option Nat) (greedy : Bool) (cur : Cursor) :
    ends size (repeated p least most greedy) cur =
      furtherEnds size p (ends size p) (most.map (· - least)) greedy
        (iterate (ends size p) least [cur]) := by
  simp [ends, h]

/-- The match that starts at `cur`, when the previous match, if any, ended at offset `last`. -/
def matchAt (p : Pattern) (size : Nat) (last : Option Nat) (cur : Cursor) : Option ByteRange :=
  if last.any (cur.offset < ·) then none
  else
    match (ends size p cur).head? with
    | none => none
    | some e =>
      if e.offset = cur.offset ∧ last = some cur.offset then none
      else some ⟨cur.offset, e.offset⟩

/-- All matches from a place on, when the previous match, if any, ended at offset `last`. -/
def findFrom (p : Pattern) (size : Nat) (last : Option Nat) (prev : Option Char) (offset : Nat) :
    Text → List ByteRange
  | [] => (matchAt p size last ⟨prev, offset, []⟩).toList
  | c :: rest =>
    match matchAt p size last ⟨prev, offset, c :: rest⟩ with
    | some r => r :: findFrom p size (some r.stop) (some c) (offset + c.utf8Size) rest
    | none => findFrom p size last (some c) (offset + c.utf8Size) rest

/-- The successive matches of the pattern in a text, from left to right. -/
def findAll (p : Pattern) (text : Text) : List ByteRange :=
  findFrom p text.length none none 0 text

end Pattern

end FaustLens
