import FaustLens.Proofs.Pattern.Words

/-!
# Literals with a common beginning

A choice between sequences that begin alike takes what they share out in front (`Pattern.choice`). In
general this changes what is preferred. Between literals it does not: each of them can be read in one
way only, so the choice still chooses between the same texts in the same order.

Results:
* `spellings_of_parts`: a sequence of single characters reads their text.
* `spellings_choice`: a choice between literals chooses between their texts, in the order of the list.
* `nullable_iff_of_spellings`: a choice between texts may match the empty text iff it is one of them.
-/

namespace FaustLens.Pattern

variable {p : Pattern} {ps : List Pattern} {w : Text} {ws : List Text}

/-- Matches one character, as it is. -/
def letter (c : Char) : Pattern := one (.single c)

theorem spellings_letter (c : Char) : (letter c).spellings = some [[c]] := by
  rw [letter, CharSet.single, spellings, if_pos rfl]

theorem spellings_cat {a b : Pattern} {us vs : List Text} (ha : a.spellings = some us)
    (hb : b.spellings = some vs) :
    (cat a b).spellings = some (us.flatMap fun u => vs.map (u ++ ·)) := by
  rw [spellings, ha, hb]

theorem spellings_alt {a b : Pattern} {us vs : List Text} (ha : a.spellings = some us)
    (hb : b.spellings = some vs) : (alt a b).spellings = some (us ++ vs) := by
  rw [spellings, ha, hb]

/-- What is in a list of single characters is one of them. -/
theorem eq_letter_of_map_eq (h : [p] = w.map letter) : ∃ c, w = [c] ∧ p = letter c := by
  cases w with
  | nil => exact absurd h (by simp)
  | cons c w =>
    obtain ⟨rfl, hw⟩ := List.cons.inj h
    exact ⟨c, by rw [List.map_eq_nil_iff.mp hw.symm], rfl⟩

/-- **A sequence of single characters** reads their text. -/
theorem spellings_of_parts : ∀ {p : Pattern} {w : Text}, p.parts = w.map letter →
    p.spellings = some [w]
  | empty, w, h => by
    rw [List.map_eq_nil_iff.mp h.symm]
    rfl
  | cat a b, w, h => by
    rw [parts] at h
    obtain ⟨u, v, rfl, hu, hv⟩ := List.map_eq_append_iff.mp h.symm
    rw [spellings_cat (spellings_of_parts hu.symm) (spellings_of_parts hv.symm)]
    rfl
  | one s, w, h => by
    obtain ⟨c, rfl, hc⟩ := eq_letter_of_map_eq h
    rw [hc, spellings_letter]
  | assert a, w, h => by
    obtain ⟨c, -, hc⟩ := eq_letter_of_map_eq h
    exact absurd hc (by simp [letter])
  | capture n p, w, h => by
    obtain ⟨c, -, hc⟩ := eq_letter_of_map_eq h
    exact absurd hc (by simp [letter])
  | alt a b, w, h => by
    obtain ⟨c, -, hc⟩ := eq_letter_of_map_eq h
    exact absurd hc (by simp [letter])
  | repeated p least most greedy, w, h => by
    obtain ⟨c, -, hc⟩ := eq_letter_of_map_eq h
    exact absurd hc (by simp [letter])

theorem sequence_cons {ps : List Pattern} (h : ps ≠ []) (p : Pattern) :
    sequence (p :: ps) = cat p (sequence ps) := by
  cases ps with
  | nil => exact absurd rfl h
  | cons q ps => rfl

theorem alternatives_cons {ps : List Pattern} (h : ps ≠ []) (p : Pattern) :
    alternatives (p :: ps) = alt p (alternatives ps) := by
  cases ps with
  | nil => exact absurd rfl h
  | cons q ps => rfl

theorem spellings_sequence_letters : ∀ w : Text, (sequence (w.map letter)).spellings = some [w]
  | [] => rfl
  | [c] => spellings_letter c
  | c :: d :: w => by
    have htail := spellings_sequence_letters (d :: w)
    rw [List.map_cons, sequence_cons (by simp), spellings_cat (spellings_letter c) htail]
    rfl

/-- Single characters in front of a choice between texts stand in front of each of them. -/
theorem spellings_sequence_append (hp : p.spellings = some ws) :
    ∀ u : Text, (sequence (u.map letter ++ [p])).spellings = some (ws.map (u ++ ·))
  | [] => by simpa [sequence] using hp
  | c :: u => by
    rw [List.map_cons, List.cons_append, sequence_cons (by simp),
      spellings_cat (spellings_letter c) (spellings_sequence_append hp u)]
    simp

theorem spellings_alternatives {f : Text → Pattern} {g : Text → Text} : ∀ {ws : List Text},
    ws ≠ [] → (∀ w ∈ ws, (f w).spellings = some [g w]) →
      (alternatives (ws.map f)).spellings = some (ws.map g)
  | [w], _, h => h w List.mem_cons_self
  | w :: v :: ws, _, h => by
    have htail := spellings_alternatives (List.cons_ne_nil v ws)
      fun x hx => h x (List.mem_cons_of_mem _ hx)
    rw [List.map_cons, alternatives_cons (by simp), spellings_alt (h w List.mem_cons_self) htail]
    rfl

theorem letter_injective : Function.Injective letter := by
  intro c d h
  rw [letter, letter, CharSet.single, CharSet.single] at h
  injection h with h
  injection h

/-- **A choice between literals** chooses between their texts, in the order of the list, whether
or not it takes out what they share. -/
theorem spellings_choice {f : Text → Pattern} (hne : ws ≠ [])
    (h : ∀ w ∈ ws, (f w).parts = w.map letter) : (choice (ws.map f)).spellings = some ws := by
  have hparts : (ws.map f).map parts = ws.map (List.map letter) := by
    rw [List.map_map]
    exact List.map_congr_left h
  unfold choice
  rw [hparts]
  split
  · rename_i hnil
    exact absurd (List.map_eq_nil_iff.mp hnil) hne
  · rename_i first others hall
    simp only
    split
    · simpa using spellings_alternatives (g := id) hne fun w hw => spellings_of_parts (h w hw)
    · generalize hshared : others.foldl commonParts first = shared
      -- what is taken out is the same beginning of all the literals
      obtain ⟨w₀, hw₀⟩ := List.exists_mem_of_ne_nil ws hne
      have htake : ∀ w ∈ ws, shared = (w.take shared.length).map letter := by
        intro w hw
        have hbegins : shared <+: w.map letter := hshared ▸
          foldl_commonParts_isPrefix first others (hall ▸ List.mem_map.mpr ⟨w, hw, rfl⟩)
        rw [List.map_take]
        exact List.prefix_iff_eq_take.mp hbegins
      have hwhole : (ws.map (·.drop shared.length)).map (w₀.take shared.length ++ ·) = ws := by
        rw [List.map_map]
        refine (List.map_congr_left fun w hw => ?_).trans (List.map_id' ws)
        have hmap := (htake w₀ hw₀).symm.trans (htake w hw)
        rw [Function.comp_apply, letter_injective.list_map hmap, List.take_append_drop]
      have hrests : (first :: others).map (fun s => sequence (s.drop shared.length)) =
          ws.map fun w => sequence ((w.drop shared.length).map letter) := by
        rw [← hall, List.map_map]
        exact List.map_congr_left fun w _ => by rw [Function.comp_apply, List.map_drop]
      have hchoice := spellings_sequence_append (spellings_alternatives (g := (·.drop shared.length))
        hne fun w _ => spellings_sequence_letters (w.drop shared.length)) (w₀.take shared.length)
      rw [← htake w₀ hw₀, hwhole] at hchoice
      rw [hrests]
      exact hchoice

/-- A choice between texts may match the empty text iff it is one of them. -/
theorem nullable_iff_of_spellings : ∀ {p : Pattern} {ws : List Text}, p.spellings = some ws →
    (p.nullable = true ↔ [] ∈ ws)
  | empty, ws, h => by
    obtain rfl := Option.some.inj h
    simp [nullable]
  | one (.range lo hi), ws, h => by
    rw [spellings] at h
    split at h
    · obtain rfl := Option.some.inj h
      simp [nullable]
    · exact absurd h (by simp)
  | capture _ p, ws, h => nullable_iff_of_spellings (p := p) h
  | cat a b, ws, h => by
    rw [spellings] at h
    split at h
    · rename_i us vs hus hvs
      obtain rfl := Option.some.inj h
      rw [nullable, Bool.and_eq_true, nullable_iff_of_spellings hus, nullable_iff_of_spellings hvs]
      simp
    · exact absurd h (by simp)
  | alt a b, ws, h => by
    rw [spellings] at h
    split at h
    · rename_i us vs hus hvs
      obtain rfl := Option.some.inj h
      rw [nullable, Bool.or_eq_true, nullable_iff_of_spellings hus, nullable_iff_of_spellings hvs,
        List.mem_append]
    · exact absurd h (by simp)

end FaustLens.Pattern
