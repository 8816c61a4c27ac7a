import FaustLens.Text.Basic

/-!
# Output

Stands for the writers that `render::render`, `render::dump_spans` and `render::rtf` print to, with
`write_all` of the standard library. Printing breaks off where `Span::text` (`syntax::span`) panics.

Printing is a list of actions: pieces are written in order, and printing breaks off at a span whose
text does not exist. `Output.deliver` carries out the actions on a sink that takes any number of
bytes or only so many; a sink that is full accepts the beginning of the piece that does not fit and
reports the end of its room.

Results:
* `text?_append`, `text?_map_write`: the text of outputs one behind the other, and of pieces.
* `utf8Decode?_bytes`: a text is decoded from its bytes.
* `deliver_none_of_text?`: an unlimited sink receives the whole text.
-/

namespace FaustLens

/-- The UTF-8 bytes of a text. -/
def Text.bytes (text : Text) : List UInt8 := text.flatMap String.utf8EncodeChar

/-- One action of printing. -/
inductive Action
  /-- Write a piece of text. -/
  | write (piece : Text)
  /-- Ask for the text of a span that has none. -/
  | missingSlice
deriving DecidableEq, Repr, Inhabited

/-- The actions of printing, in order. -/
abbrev Output := List Action

/-- How printing ended. -/
inductive Ending
  /-- Everything was written. -/
  | finished
  /-- The sink had no more room. -/
  | limitReached
  /-- The text of a span does not exist. -/
  | missingSlice
deriving DecidableEq, Repr, Inhabited

namespace Output

/-- Write a string. -/
def say (s : String) : Output := [.write s.toList]

/-- The whole text, if every span has its text. -/
def text? : Output → Option Text
  | [] => some []
  | .write piece :: rest => (text? rest).map (piece ++ ·)
  | .missingSlice :: _ => none

/-- Carry out the actions on a sink with room for `room` bytes, or for any number. The result is
what the sink received and how printing ended. -/
def deliver : Option Nat → Output → List UInt8 × Ending
  | _, [] => ([], .finished)
  | _, .missingSlice :: _ => ([], .missingSlice)
  | none, .write piece :: rest =>
    let (bytes, ending) := deliver none rest
    (piece.bytes ++ bytes, ending)
  | some room, .write piece :: rest =>
    if piece.bytes.length ≤ room then
      let (bytes, ending) := deliver (some (room - piece.bytes.length)) rest
      (piece.bytes ++ bytes, ending)
    else (piece.bytes.take room, .limitReached)

theorem text?_append {out : Output} {text : Text} (h : out.text? = some text) (rest : Output) :
    text? (out ++ rest) = rest.text?.map (text ++ ·) := by
  induction out generalizing text with
  | nil =>
    obtain rfl := Option.some.inj h
    simp
  | cons a out ih =>
    cases a with
    | missingSlice => simp [text?] at h
    | write piece =>
      obtain ⟨t, ht, rfl⟩ := Option.map_eq_some_iff.mp h
      simp [text?, ih ht, Function.comp_def]

theorem text?_map_write (pieces : List Text) : text? (pieces.map .write) = some pieces.flatten := by
  induction pieces with
  | nil => rfl
  | cons piece pieces ih => simp [text?, ih]

theorem bytes_append (a b : Text) : Text.bytes (a ++ b) = a.bytes ++ b.bytes := by
  simp [Text.bytes]

/-- A text is decoded from its bytes. -/
theorem utf8Decode?_bytes (text : Text) :
    text.bytes.toByteArray.utf8Decode? = some text.toArray :=
  List.utf8Decode?_utf8Encode

theorem bytes_injective {a b : Text} (h : a.bytes = b.bytes) : a = b := by
  have hdecode := utf8Decode?_bytes a
  rw [h, utf8Decode?_bytes] at hdecode
  exact (List.toArray_inj (Option.some.inj hdecode)).symm

theorem deliver_none_of_text? {out : Output} {text : Text} (h : out.text? = some text) :
    deliver none out = (text.bytes, .finished) := by
  induction out generalizing text with
  | nil =>
    simp only [text?, Option.some.injEq] at h
    simp [deliver, ← h, Text.bytes]
  | cons a out ih =>
    cases a with
    | missingSlice => simp [text?] at h
    | write piece =>
      obtain ⟨t, ht, rfl⟩ := Option.map_eq_some_iff.mp h
      simp [deliver, ih ht, bytes_append]

end Output

end FaustLens
