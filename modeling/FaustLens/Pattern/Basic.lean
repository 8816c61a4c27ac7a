import FaustLens.Pattern.CharSet
import FaustLens.Text.Basic

/-!
# Patterns

The modules under `FaustLens.Pattern` stand for the library `regex` 1 with its default features;
this one for the patterns that it compiles.

A `Pattern` is a regular expression over characters, with assertions on the place between two
characters. Alternatives are ordered and repetitions are greedy or lazy, so a pattern fixes not
only which texts it matches but also which match is preferred. A `Cursor` is a place in a text: the
character before it, its byte offset and the text after it.

`Pattern.iterated` and `Pattern.choice` build repetitions and choices in a form of their own: a
choice between sequences that begin alike takes what they share out in front (`commonParts`), which
leaves the matched texts as they are but decides what is preferred.

Results:
* `commonParts_isPrefix_left`, `commonParts_isPrefix_right`: what two sequences share begins both.
* `foldl_commonParts_isPrefix`: what several sequences share begins each of them.
-/

namespace FaustLens

/-- A place in a text. -/
structure Cursor where
  /-- The character before the place, if it is not the start of the text. -/
  prev : Option Char
  /-- The byte offset of the place. -/
  offset : Nat
  /-- The text after the place. -/
  rest : Text
deriving DecidableEq, Repr, Inhabited

namespace Cursor

/-- The start of a text. -/
def start (text : Text) : Cursor := ⟨none, 0, text⟩

/-- The place behind the character `c` that starts at `cur`, with `rest` after it. -/
def past (cur : Cursor) (c : Char) (rest : Text) : Cursor :=
  ⟨some c, cur.offset + c.utf8Size, rest⟩

end Cursor

/-- How a place lies to the words on both sides. -/
inductive WordEdge
  /-- A word character on exactly one side. -/
  | boundary
  /-- Word characters on both sides or on none. -/
  | interior
  /-- A word begins here. -/
  | wordStart
  /-- A word ends here. -/
  | wordEnd
  /-- No word character before. -/
  | notAfterWord
  /-- No word character after. -/
  | notBeforeWord
deriving DecidableEq, Repr, Inhabited

/-- An assertion on a place. With `crlf`, a carriage return ends a line too, and the pair of a
carriage return and a line feed is not split. -/
inductive Assertion
  | textStart
  | textEnd
  | lineStart (crlf : Bool)
  | lineEnd (crlf : Bool)
  /-- Words are runs of word characters, of ASCII word characters if `ascii`. -/
  | wordEdge (edge : WordEdge) (ascii : Bool)
deriving DecidableEq, Repr, Inhabited

/-- A pattern. -/
inductive Pattern
  /-- Matches the empty text. -/
  | empty
  /-- Matches one character of the set. -/
  | one (s : CharSet)
  /-- Matches the empty text where the assertion holds. -/
  | assert (a : Assertion)
  /-- Matches `p` and is told from other captures by its number. -/
  | capture (number : Nat) (p : Pattern)
  /-- Matches `a`, then `b`. -/
  | cat (a b : Pattern)
  /-- Matches `a` or, second choice, `b`. -/
  | alt (a b : Pattern)
  /-- Matches `p` at least `least` times and at most `most` times, if there is a bound; as often as
  possible if `greedy`, else as seldom as possible. -/
  | repeated (p : Pattern) (least : Nat) (most : Option Nat) (greedy : Bool)
deriving DecidableEq, Repr, Inhabited

namespace Pattern

/-! ## Width -/

/-- Whether the pattern's shape lets it match the empty text at some place. -/
def nullable : Pattern → Bool
  | empty => true
  | one _ => false
  | assert _ => true
  | capture _ p => nullable p
  | cat a b => nullable a && nullable b
  | alt a b => nullable a || nullable b
  | repeated p least _ _ => least == 0 || nullable p

/-- Whether the pattern's shape lets it match the empty text only. -/
def widthless : Pattern → Bool
  | empty => true
  | one _ => false
  | assert _ => true
  | capture _ p => widthless p
  | cat a b => widthless a && widthless b
  | alt a b => widthless a && widthless b
  | repeated p _ most _ => most == some 0 || widthless p

/-! ## Repetitions -/

/-- Matches `p` between `least` and `most` times. A second iteration of a pattern that matches the
empty text only adds nothing, and no iteration or a single one needs no repetition. -/
def iterated (p : Pattern) (least : Nat) (most : Option Nat) (greedy : Bool) : Pattern :=
  let (least, most) :=
    if p.widthless then (min least 1, some (min (most.getD 1) 1)) else (least, most)
  if most = some 0 then empty
  else if least = 1 ∧ most = some 1 then p
  else repeated p least most greedy

/-! ## Choices -/

/-- The parts of a sequence, in order. -/
def parts : Pattern → List Pattern
  | empty => []
  | cat a b => parts a ++ parts b
  | p => [p]

/-- Matches all of the patterns, one after the other. -/
def sequence : List Pattern → Pattern
  | [] => empty
  | [p] => p
  | p :: ps => cat p (sequence ps)

/-- Matches one of the patterns; earlier ones are preferred. -/
def alternatives : List Pattern → Pattern
  | [] => empty
  | [p] => p
  | p :: ps => alt p (alternatives ps)

/-- The parts with which both sequences begin. -/
def commonParts : List Pattern → List Pattern → List Pattern
  | p :: ps, q :: qs => if p = q then p :: commonParts ps qs else []
  | _, _ => []

theorem commonParts_isPrefix_left (ps qs : List Pattern) : commonParts ps qs <+: ps := by
  induction ps generalizing qs with
  | nil => simp [commonParts]
  | cons p ps ih =>
    cases qs with
    | nil => simp [commonParts]
    | cons q qs =>
      rw [commonParts]
      split
      · exact List.prefix_cons_inj p |>.mpr (ih qs)
      · exact List.nil_prefix

theorem commonParts_isPrefix_right (ps qs : List Pattern) : commonParts ps qs <+: qs := by
  induction ps generalizing qs with
  | nil => simp [commonParts]
  | cons p ps ih =>
    cases qs with
    | nil => simp [commonParts]
    | cons q qs =>
      rw [commonParts]
      split
      · next h => exact h ▸ (List.prefix_cons_inj p |>.mpr (ih qs))
      · exact List.nil_prefix

/-- What several sequences share begins each of them. -/
theorem foldl_commonParts_isPrefix (first : List Pattern) (others : List (List Pattern))
    {ps : List Pattern} (h : ps ∈ first :: others) : others.foldl commonParts first <+: ps := by
  induction others generalizing first ps with
  | nil => simp_all
  | cons qs others ih =>
    have hstart := ih (commonParts first qs) List.mem_cons_self
    rcases List.mem_cons.mp h with rfl | h
    · exact hstart.trans (commonParts_isPrefix_left ps qs)
    · rcases List.mem_cons.mp h with rfl | h
      · exact hstart.trans (commonParts_isPrefix_right first ps)
      · exact ih _ (List.mem_cons_of_mem _ h)

/-- Matches one of the patterns; earlier ones are preferred. If all of them are sequences of two or
more parts, the parts with which all of them begin are matched first, and what follows is chosen
behind them. -/
def choice (ps : List Pattern) : Pattern :=
  match ps.map parts with
  | [] => empty
  | first :: others =>
    let shared := others.foldl commonParts first
    if others.isEmpty || shared.isEmpty || (first :: others).any (·.length < 2) then
      alternatives ps
    else
      let rests := (first :: others).map fun s => sequence (s.drop shared.length)
      sequence (shared ++ [alternatives rests])

end Pattern

end FaustLens
