import FaustLens.Output

/-!
# A terminal

Stands for a terminal as far as it reads the control sequences of the library `crossterm`. It shows
characters, each in the current look, and changes this look when it reads a control sequence: an
escape character, a bracket, some numbers with semicolons between them, and the letter `m`.
`Machine.step` reads one character. A machine that reads anything else behind an escape character,
or a number that it does not know, stops.

Results:
* `Shows.append`: what is shown for two texts is shown for both of them together.
* `shows_plain`: a text without escape characters is shown in the current look.
* `shows_sequence`: a control sequence shows nothing and changes the look.
* `display_bytes`: a terminal reads the characters whose bytes it gets.
-/

namespace FaustLens.Terminal

/-- The colour of a character on the terminal. -/
inductive Ink
  /-- The terminal's own foreground. -/
  | automatic
  /-- An entry of the terminal's palette. -/
  | palette (index : Nat)
  /-- A 24-bit colour. -/
  | direct (red green blue : Nat)
deriving DecidableEq, Repr, Inhabited

/-- How the terminal shows a character. -/
structure Look where
  ink : Ink := .automatic
  bold : Bool := false
  dim : Bool := false
  italic : Bool := false
deriving DecidableEq, Repr, Inhabited

/-- A character as it is shown. -/
structure Cell where
  char : Char
  look : Look
deriving DecidableEq, Repr, Inhabited

/-- The look after the numbers of a control sequence. -/
def Look.select (look : Look) : List Nat → Option Look
  | [] => some look
  | 0 :: rest => select {} rest
  | 1 :: rest => select { look with bold := true } rest
  | 2 :: rest => select { look with dim := true } rest
  | 3 :: rest => select { look with italic := true } rest
  | 22 :: rest => select { look with bold := false, dim := false } rest
  | 38 :: 2 :: red :: green :: blue :: rest =>
    select { look with ink := .direct red green blue } rest
  | 38 :: 5 :: index :: rest => select { look with ink := .palette index } rest
  | 39 :: rest => select { look with ink := .automatic } rest
  | _ => none

/-- What the machine is reading. -/
inductive Mode
  /-- Text. -/
  | text
  /-- What follows an escape character. -/
  | escape
  /-- The numbers of a control sequence: those that are complete, and the current one. -/
  | control (complete : List Nat) (current : Nat)
deriving DecidableEq, Repr, Inhabited

/-- The state of a terminal. -/
structure Machine where
  mode : Mode := .text
  look : Look := {}
deriving DecidableEq, Repr, Inhabited

namespace Machine

/-- Read a character: the next state, and the character as it is shown, if it is. -/
def step (m : Machine) (c : Char) : Option (Machine × Option Cell) :=
  match m.mode with
  | .text =>
    if c = '\x1b' then some ({ m with mode := .escape }, none) else some (m, some ⟨c, m.look⟩)
  | .escape => if c = '[' then some ({ m with mode := .control [] 0 }, none) else none
  | .control complete current =>
    if c.isDigit then
      some ({ m with mode := .control complete (10 * current + (c.toNat - '0'.toNat)) }, none)
    else if c = ';' then some ({ m with mode := .control (complete ++ [current]) 0 }, none)
    else if c = 'm' then
      (m.look.select (complete ++ [current])).map fun look => (⟨.text, look⟩, none)
    else none

/-- Read a text: the characters as they are shown, and the state behind them. -/
def run (m : Machine) : Text → Option (List Cell × Machine)
  | [] => some ([], m)
  | c :: rest =>
    (m.step c).bind fun (next, shown) =>
      (next.run rest).map fun (cells, last) => (shown.toList ++ cells, last)

end Machine

/-- What a terminal shows when it gets some bytes, and its state behind them. -/
def display (bytes : List UInt8) : Option (List Cell × Machine) :=
  bytes.toByteArray.utf8Decode?.bind fun chars => ({} : Machine).run chars.toList

theorem display_bytes (text : Text) : display text.bytes = ({} : Machine).run text := by
  unfold display
  rw [Output.utf8Decode?_bytes]
  rfl

/-! ## What is shown -/

/-- The machine shows the cells for the text and is then in the second state. -/
def Shows (m : Machine) (text : Text) (cells : List Cell) (last : Machine) : Prop :=
  m.run text = some (cells, last)

variable {m m' m'' : Machine} {a b : Text} {cells cells' : List Cell} {look look' : Look}

theorem shows_nil (m : Machine) : Shows m [] [] m := rfl

theorem shows_cons {c : Char} {shown : Option Cell} (hstep : m.step c = some (m', shown))
    (h : Shows m' a cells m'') : Shows m (c :: a) (shown.toList ++ cells) m'' := by
  unfold Shows at h ⊢
  simp only [Machine.run, hstep, Option.bind_some, h, Option.map_some]

/-- **What is shown for two texts** is shown for both of them together. -/
theorem Shows.append (h : Shows m a cells m') (h' : Shows m' b cells' m'') :
    Shows m (a ++ b) (cells ++ cells') m'' := by
  induction a generalizing m cells with
  | nil =>
    obtain ⟨rfl, rfl⟩ := Prod.mk.inj (Option.some.inj h)
    exact h'
  | cons c a ih =>
    unfold Shows at h
    rw [Machine.run] at h
    obtain ⟨⟨next, shown⟩, hstep, h⟩ := Option.bind_eq_some_iff.mp h
    obtain ⟨⟨rest, last⟩, hrun, heq⟩ := Option.map_eq_some_iff.mp h
    obtain ⟨rfl, rfl⟩ := Prod.mk.inj heq
    rw [List.append_assoc]
    exact shows_cons hstep (ih hrun)

/-- **Text without escape characters** is shown in the current look. -/
theorem shows_plain (look : Look) (h : '\x1b' ∉ a) :
    Shows ⟨.text, look⟩ a (a.map (⟨·, look⟩)) ⟨.text, look⟩ := by
  induction a with
  | nil => exact shows_nil _
  | cons c a ih =>
    obtain ⟨hc, ha⟩ := List.ne_and_not_mem_of_not_mem_cons h
    have hstep : Machine.step ⟨.text, look⟩ c = some (⟨.text, look⟩, some ⟨c, look⟩) := by
      unfold Machine.step
      simp only [if_neg hc.symm]
    exact shows_cons hstep (ih ha)

/-! ## Control sequences -/

/-- The digits of a number. -/
def digits (n : Nat) : Text := (toString n).toList

/-- Digits add to the current number. -/
theorem shows_digits (look : Look) (complete : List Nat) :
    ∀ {ds : Text} (current : Nat), (∀ c ∈ ds, c.isDigit = true) →
      Shows ⟨.control complete current, look⟩ ds []
        ⟨.control complete (Nat.ofDigitChars 10 ds current), look⟩
  | [], current, _ => shows_nil _
  | c :: ds, current, h => by
    obtain ⟨hc, hds⟩ := List.forall_mem_cons.mp h
    have hstep : Machine.step ⟨.control complete current, look⟩ c =
        some (⟨.control complete (10 * current + (c.toNat - '0'.toNat)), look⟩, none) := by
      unfold Machine.step
      simp only [hc, if_true]
    rw [Nat.ofDigitChars_cons]
    exact shows_cons hstep (shows_digits look complete _ hds)

/-- The digits of a number are read as this number. -/
theorem shows_number (look : Look) (complete : List Nat) (n : Nat) :
    Shows ⟨.control complete 0, look⟩ (digits n) [] ⟨.control complete n, look⟩ := by
  have hdigits : ∀ c ∈ digits n, c.isDigit = true := fun _ => Text.isDigit_of_mem_toString
  have h := shows_digits look complete 0 hdigits
  have hread : Nat.ofDigitChars 10 (digits n) 0 = n := Text.ofDigitChars_toString n
  rwa [hread] at h

/-- Numbers with semicolons between them. -/
def numbers : List Nat → Text
  | [] => []
  | [n] => digits n
  | n :: rest => digits n ++ ';' :: numbers rest

/-- **Numbers with an `m` behind them** change the look. -/
theorem shows_numbers : ∀ {rest : List Nat} {n : Nat} {complete : List Nat},
    look.select (complete ++ n :: rest) = some look' →
      Shows ⟨.control complete 0, look⟩ (numbers (n :: rest) ++ ['m']) [] ⟨.text, look'⟩
  | [], n, complete, h => by
    have hstep : Machine.step ⟨.control complete n, look⟩ 'm' = some (⟨.text, look'⟩, none) := by
      have hselect : (Machine.step ⟨.control complete n, look⟩ 'm') =
        (look.select (complete ++ [n])).map fun look => (⟨.text, look⟩, none) := rfl
      rw [hselect, h]
      rfl
    exact (shows_number look complete n).append (shows_cons hstep (shows_nil _))
  | p :: rest, n, complete, h => by
    have hstep : Machine.step ⟨.control complete n, look⟩ ';' =
        some (⟨.control (complete ++ [n]) 0, look⟩, none) := rfl
    have hselect : look.select ((complete ++ [n]) ++ p :: rest) = some look' := by
      rwa [List.append_assoc]
    rw [numbers, List.append_assoc, List.cons_append]
    · exact (shows_number look complete n).append (shows_cons hstep (shows_numbers hselect))
    · exact List.cons_ne_nil p rest

/-- **A control sequence** shows nothing and changes the look. -/
theorem shows_sequence {ps : List Nat} (hne : ps ≠ []) (h : look.select ps = some look') :
    Shows ⟨.text, look⟩ ('\x1b' :: '[' :: (numbers ps ++ ['m'])) [] ⟨.text, look'⟩ := by
  obtain ⟨n, rest, rfl⟩ := List.exists_cons_of_ne_nil hne
  have hescape : Machine.step ⟨.text, look⟩ '\x1b' = some (⟨.escape, look⟩, none) := rfl
  have hbracket : Machine.step ⟨.escape, look⟩ '[' = some (⟨.control [] 0, look⟩, none) := rfl
  exact shows_cons hescape (shows_cons hbracket (shows_numbers h))

end FaustLens.Terminal
