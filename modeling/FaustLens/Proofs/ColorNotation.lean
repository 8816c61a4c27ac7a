import FaustLens.Color
import FaustLens.Text.Basic
import Mathlib.Data.List.Forall2

/-!
# The notation of colours

A colour is written as a number sign and three pairs of hexadecimal digits, or by its name, where
letters may be of either case and an underscore may stand for a hyphen (`Documented`). Every such
text is read as its colour (`Color::parse`, `syntax::style`).

Reading accepts a little more (`Accepted`): a pair may also be a plus sign and one digit, as if it
were a number with a sign, and the Kelvin sign, whose small letter is a `k`, may stand for that
letter in a name. Both notations are instances of one (`Denotes`), whose parameters say what a pair
and a sign of a name may look like. So a text that is read and has neither of the two signs is in the
documented notation.

Results:
* `hexValue?_eq_some_iff`: the hexadecimal digits and their values.
* `channel?_eq_some_iff`, `parseChannels?_eq_some_iff`: what is read as a channel, and as three.
* `plainName_eq_iff`: what is read as a name.
* `parse?_eq_some_iff`: what is read as a colour.
* `parse?_plus`: a text that is read and is not in the documented notation.
-/

namespace FaustLens

/-- In a list with distinct keys, the value of a key is the one that stands with it. -/
theorem lookup_eq_some_iff_mem {α β : Type} [DecidableEq α] {l : List (α × β)}
    (hkeys : (l.map (·.1)).Nodup) {key : α} {value : β} :
    l.lookup key = some value ↔ (key, value) ∈ l := by
  induction l with
  | nil => simp
  | cons e l ih =>
    obtain ⟨k, v⟩ := e
    rw [List.map_cons, List.nodup_cons] at hkeys
    rw [List.lookup_cons, List.mem_cons, Prod.mk.injEq]
    by_cases h : key = k
    · subst h
      have hnot : (key, value) ∉ l := fun hmem =>
        hkeys.1 (List.mem_map.mpr ⟨_, hmem, rfl⟩)
      simp [hnot, eq_comm]
    · rw [beq_eq_false_iff_ne.mpr h]
      simp [h, ih hkeys.2]

/-- A list is mapped to another one iff each of its members is related to the one in its place, if for
these the relation says that they are mapped to each other. -/
theorem map_eq_iff_forall₂ {α β : Type} {f : α → β} {R : α → β → Prop} {l : List α} {m : List β}
    (h : ∀ b ∈ m, ∀ a, f a = b ↔ R a b) : l.map f = m ↔ List.Forall₂ R l m := by
  induction m generalizing l with
  | nil => simp
  | cons b m ih =>
    rw [List.forall_mem_cons] at h
    cases l with
    | nil => simp
    | cons a l => rw [List.map_cons, List.cons.injEq, List.forall₂_cons, h.1, ih h.2]

namespace Color

/-! ## Hexadecimal digits -/

/-- The character is the hexadecimal digit for `n`, a letter being small or a capital. -/
def IsHexDigit (c : Char) (n : Nat) : Prop :=
  n < 16 ∧ (c = n.digitChar ∨ c = n.digitChar.toUpper)

instance (c : Char) (n : Nat) : Decidable (IsHexDigit c n) :=
  inferInstanceAs (Decidable (_ ∧ (_ ∨ _)))

theorem toNat_lt_of_hexValue? {c : Char} {n : Nat} (h : hexValue? c = some n) : c.toNat < 128 := by
  have hle : c ≤ '9' ∨ c ≤ 'f' ∨ c ≤ 'F' := by
    unfold hexValue? at h
    split at h
    · rename_i hdigit
      simp only [Char.isDigit, Bool.and_eq_true, decide_eq_true_eq] at hdigit
      exact Or.inl (Char.le_def.mpr hdigit.2)
    · split at h
      · rename_i hsmall
        exact Or.inr (Or.inl hsmall.2)
      · split at h
        · rename_i hcapital
          exact Or.inr (Or.inr hcapital.2)
        · exact absurd h (by simp)
  have hbound : ∀ d : Char, d.toNat < 128 → c ≤ d → c.toNat < 128 := fun d hd hcd =>
    Nat.lt_of_le_of_lt (UInt32.le_iff_toNat_le.mp (Char.le_def.mp hcd)) hd
  rcases hle with h | h | h
  · exact hbound '9' (by decide) h
  · exact hbound 'f' (by decide) h
  · exact hbound 'F' (by decide) h

/-- **A hexadecimal digit** has the value `n` iff it is the digit for `n`. -/
theorem hexValue?_eq_some_iff {c : Char} {n : Nat} : hexValue? c = some n ↔ IsHexDigit c n := by
  constructor
  · intro h
    have hascii : ∀ k < 128, ∀ n ∈ hexValue? (Char.ofNat k), IsHexDigit (Char.ofNat k) n := by
      decide
    have hdigit := hascii c.toNat (toNat_lt_of_hexValue? h)
    rw [Char.ofNat_toNat] at hdigit
    exact hdigit n h
  · rintro ⟨hlt, rfl | rfl⟩
    · exact hexValue?_digitChar hlt
    · have hcapital : ∀ n < 16, hexValue? (Nat.digitChar n).toUpper = some n := by decide
      exact hcapital n hlt

/-! ## The notation -/

/-- Two hexadecimal digits write a channel. -/
def HexPair (a b : Char) (v : UInt8) : Prop :=
  ∃ high low, IsHexDigit a high ∧ IsHexDigit b low ∧ v.toNat = 16 * high + low

/-- A plus sign and a digit are read as a channel too. -/
def AcceptedPair (a b : Char) (v : UInt8) : Prop :=
  HexPair a b v ∨ a = '+' ∧ IsHexDigit b v.toNat

/-- A character of a text stands for one of a name: the same letter up to its case in ASCII, or an
underscore for a hyphen. -/
def NameSign (c d : Char) : Prop := c.toLower = d.toLower ∨ c = '_' ∧ d = '-'

/-- The Kelvin sign is read as a `k` too. -/
def AcceptedSign (c d : Char) : Prop := NameSign c d ∨ c = '\u212a' ∧ d = 'k'

/-- The text denotes the colour, if `pair` says how a channel is written in two characters and `sign`
which characters stand for those of a name. -/
inductive Denotes (pair : Char → Char → UInt8 → Prop) (sign : Char → Char → Prop) :
    Text → Color → Prop
  | rgb {r₁ r₂ g₁ g₂ b₁ b₂ : Char} {r g b : UInt8} (hr : pair r₁ r₂ r) (hg : pair g₁ g₂ g)
      (hb : pair b₁ b₂ b) : Denotes pair sign ['#', r₁, r₂, g₁, g₂, b₁, b₂] (.rgb ⟨r, g, b⟩)
  | name {text : Text} {name : String} {c : Color} (hname : (name, c) ∈ names)
      (hsigns : List.Forall₂ sign text name.toList) : Denotes pair sign text c

/-- The notation as it is documented. -/
def Documented : Text → Color → Prop := Denotes HexPair NameSign

/-- The notation as it is read. -/
def Accepted : Text → Color → Prop := Denotes AcceptedPair AcceptedSign

/-! ## Channels -/

theorem ofNat_eq_iff {n : Nat} (h : n < 256) {v : UInt8} : UInt8.ofNat n = v ↔ v.toNat = n := by
  constructor
  · rintro rfl
    exact UInt8.toNat_ofNat_of_lt' h
  · rintro rfl
    exact UInt8.ofNat_toNat

theorem not_isHexDigit_plus (n : Nat) : ¬ IsHexDigit '+' n := by
  have hnone : hexValue? '+' = none := by decide
  rw [← hexValue?_eq_some_iff, hnone]
  simp

/-- **A channel** is read from two characters iff they write it. -/
theorem channel?_eq_some_iff {a b : Char} {v : UInt8} :
    channel? a b = some v ↔ AcceptedPair a b v := by
  constructor
  · intro h
    unfold channel? at h
    split at h
    · exact absurd h (by simp)
    · rename_i low hlow
      have hb := hexValue?_eq_some_iff.mp hlow
      split at h
      · rename_i hplus
        have hlt : low < 256 := Nat.lt_trans hb.1 (by decide)
        have hv : v.toNat = low := (ofNat_eq_iff hlt).mp (Option.some.inj h)
        exact Or.inr ⟨hplus, hv ▸ hb⟩
      · obtain ⟨high, hhigh, hv⟩ := Option.map_eq_some_iff.mp h
        have ha := hexValue?_eq_some_iff.mp hhigh
        have hdigits : high < 16 ∧ low < 16 := ⟨ha.1, hb.1⟩
        have hlt : 16 * high + low < 256 := by omega
        exact Or.inl ⟨high, low, ha, hb, (ofNat_eq_iff hlt).mp hv⟩
  · rintro (⟨high, low, ha, hb, hv⟩ | ⟨rfl, hb⟩)
    · have hplus : a ≠ '+' := by
        rintro rfl
        exact not_isHexDigit_plus high ha
      have hv' : UInt8.ofNat (16 * high + low) = v := (ofNat_eq_iff (hv ▸ v.toNat_lt)).mpr hv
      simp only [channel?, hexValue?_eq_some_iff.mpr hb, if_neg hplus,
        hexValue?_eq_some_iff.mpr ha, Option.map_some, hv']
    · simp only [channel?, hexValue?_eq_some_iff.mpr hb, if_true, UInt8.ofNat_toNat]

/-- **Three channels** are read from six characters. -/
theorem parseChannels?_eq_some_iff {digits : Text} {v : Rgb} : parseChannels? digits = some v ↔
    ∃ r₁ r₂ g₁ g₂ b₁ b₂, digits = [r₁, r₂, g₁, g₂, b₁, b₂] ∧ AcceptedPair r₁ r₂ v.red ∧
      AcceptedPair g₁ g₂ v.green ∧ AcceptedPair b₁ b₂ v.blue := by
  simp only [← channel?_eq_some_iff]
  constructor
  · intro h
    unfold parseChannels? at h
    split at h
    · rename_i r₁ r₂ g₁ g₂ b₁ b₂
      obtain ⟨r, hr, h⟩ := Option.bind_eq_some_iff.mp h
      obtain ⟨g, hg, h⟩ := Option.bind_eq_some_iff.mp h
      obtain ⟨b, hb, h⟩ := Option.bind_eq_some_iff.mp h
      obtain rfl := Option.some.inj h
      exact ⟨r₁, r₂, g₁, g₂, b₁, b₂, rfl, hr, hg, hb⟩
    · exact absurd h (by simp)
  · rintro ⟨r₁, r₂, g₁, g₂, b₁, b₂, rfl, hr, hg, hb⟩
    simp [parseChannels?, hr, hg, hb]

/-! ## Names -/

/-- A character that names are written in: no capital letter, and none that stands for another. -/
def IsPlainSign (d : Char) : Prop := d.toLower = d ∧ d ≠ '_' ∧ d ≠ '\u212a' ∧ d ≠ '#'

theorem isPlainSign_of_mem_names {name : String} {c : Color} (h : (name, c) ∈ names) {d : Char}
    (hd : d ∈ name.toList) : IsPlainSign d := by
  have hall : (names.all fun e => e.1.toList.all fun d =>
      d.toLower == d && (d != '_' && (d != '\u212a' && d != '#'))) = true := by decide +kernel
  simp only [List.all_eq_true, Bool.and_eq_true, beq_iff_eq, bne_iff_ne] at hall
  exact hall _ h d hd

theorem plainSign_eq_iff {c d : Char} (hd : IsPlainSign d) :
    (if c = '_' then '-' else lowerChar c) = d ↔ AcceptedSign c d := by
  obtain ⟨hlower, hunderscore, hkelvin, -⟩ := hd
  unfold AcceptedSign NameSign lowerChar
  rw [hlower]
  by_cases hc : c = '_'
  · subst hc
    simp [hunderscore, eq_comm]
  · by_cases hk : c = '\u212a'
    · subst hk
      simp [hkelvin, eq_comm]
    · simp [hc, hk]

/-- **A name** is read from the texts whose characters stand for its own. -/
theorem plainName_eq_iff {s name : String} {c : Color} (hname : (name, c) ∈ names) :
    plainName s = name ↔ List.Forall₂ AcceptedSign s.toList name.toList := by
  unfold plainName
  rw [← String.toList_inj, String.toList_ofList]
  exact map_eq_iff_forall₂ fun d hd c => plainSign_eq_iff (isPlainSign_of_mem_names hname hd)

/-- No name is written with a number sign in front, so channels follow it. -/
theorem Denotes.of_numberSign {pair : Char → Char → UInt8 → Prop} {sign : Char → Char → Prop}
    {digits : Text} {c : Color} (h : Denotes pair sign ('#' :: digits) c)
    (hsign : ∀ a d, sign a d → AcceptedSign a d) :
    ∃ r₁ r₂ g₁ g₂ b₁ b₂ v, digits = [r₁, r₂, g₁, g₂, b₁, b₂] ∧ c = .rgb v ∧ pair r₁ r₂ v.red ∧
      pair g₁ g₂ v.green ∧ pair b₁ b₂ v.blue := by
  generalize htext : '#' :: digits = text at h
  cases h with
  | rgb hr hg hb =>
    exact ⟨_, _, _, _, _, _, _, (List.cons.inj htext).2, rfl, hr, hg, hb⟩
  | name hname hsigns =>
    rw [← htext] at hsigns
    obtain ⟨d, signs, hd, -, hcons⟩ := List.forall₂_cons_left_iff.mp hsigns
    have hplain := isPlainSign_of_mem_names hname (hcons ▸ List.mem_cons_self)
    have heq : '#' = d := (plainSign_eq_iff hplain).mpr (hsign _ _ hd)
    exact absurd heq.symm hplain.2.2.2

theorem nodup_names : (names.map (·.1)).Nodup := by decide +kernel

/-! ## Colours -/

/-- **A colour** is read from a text iff the text denotes it in the accepted notation. -/
theorem parse?_eq_some_iff_accepted {s : String} {c : Color} :
    parse? s = some c ↔ Accepted s.toList c := by
  unfold parse?
  split
  · rename_i digits htext
    rw [htext]
    constructor
    · intro h
      obtain ⟨v, hv, rfl⟩ := Option.map_eq_some_iff.mp h
      obtain ⟨r₁, r₂, g₁, g₂, b₁, b₂, rfl, hr, hg, hb⟩ := parseChannels?_eq_some_iff.mp hv
      exact .rgb hr hg hb
    · intro h
      obtain ⟨r₁, r₂, g₁, g₂, b₁, b₂, v, hdigits, rfl, hchannels⟩ :=
        Denotes.of_numberSign h fun _ _ hsign => hsign
      have hv := parseChannels?_eq_some_iff.mpr ⟨r₁, r₂, g₁, g₂, b₁, b₂, hdigits, hchannels⟩
      exact congrArg (Option.map rgb) hv
  · rename_i hno
    rw [lookup_eq_some_iff_mem nodup_names]
    constructor
    · exact fun h => .name h ((plainName_eq_iff h).mp rfl)
    · intro h
      generalize htext : s.toList = text at h
      cases h with
      | rgb => exact absurd htext (hno _)
      | name hname hsigns =>
        subst htext
        rwa [(plainName_eq_iff hname).mpr hsigns]

theorem Denotes.imp {pair pair' : Char → Char → UInt8 → Prop} {sign sign' : Char → Char → Prop}
    {text : Text} {c : Color} (h : Denotes pair sign text c)
    (hpair : ∀ a ∈ text, ∀ b v, pair a b v → pair' a b v)
    (hsign : ∀ a ∈ text, ∀ d, sign a d → sign' a d) : Denotes pair' sign' text c := by
  cases h with
  | rgb hr hg hb =>
    exact .rgb (hpair _ (by simp) _ _ hr) (hpair _ (by simp) _ _ hg) (hpair _ (by simp) _ _ hb)
  | name hname hsigns =>
    have hmem := (List.forall₂_and_left text _).mpr ⟨fun a (ha : a ∈ text) => ha, hsigns⟩
    exact .name hname (hmem.imp fun a d h => hsign a h.1 d h.2)

/-- A text in the documented notation is accepted. -/
theorem Documented.accepted {text : Text} {c : Color} (h : Documented text c) : Accepted text c :=
  Denotes.imp h (fun _ _ _ _ hpair => Or.inl hpair) (fun _ _ _ hsign => Or.inl hsign)

/-- **A text that is accepted** and has no plus sign and no Kelvin sign is in the documented
notation. -/
theorem Accepted.documented {text : Text} {c : Color} (h : Accepted text c) (hplus : '+' ∉ text)
    (hkelvin : '\u212a' ∉ text) : Documented text c := by
  refine Denotes.imp h (fun a ha b v hpair => ?_) (fun a ha d hsign => ?_)
  · rcases hpair with hdigits | ⟨rfl, -⟩
    · exact hdigits
    · exact absurd ha hplus
  · rcases hsign with hsign | ⟨rfl, -⟩
    · exact hsign
    · exact absurd ha hkelvin

/-- **The texts of colours.** A text is read as a colour iff it denotes the colour in the accepted
notation: a number sign and three pairs that write the channels in order, or a name. All texts in the
documented notation are read so, and of those with no plus sign and no Kelvin sign only these. -/
theorem parse?_eq_some_iff (s : String) :
    (∀ c, parse? s = some c ↔ Accepted s.toList c) ∧
    (∀ c, Documented s.toList c → parse? s = some c) ∧
    ('+' ∉ s.toList → '\u212a' ∉ s.toList →
      ∀ c, parse? s = some c ↔ Documented s.toList c) := by
  have hdocumented : ∀ c, Documented s.toList c → parse? s = some c := fun c h =>
    parse?_eq_some_iff_accepted.mpr h.accepted
  refine ⟨fun c => parse?_eq_some_iff_accepted, hdocumented, fun hplus hkelvin c => ?_⟩
  exact ⟨fun h => (parse?_eq_some_iff_accepted.mp h).documented hplus hkelvin, hdocumented c⟩

/-- The theorem for digits in letters of both cases, and for three of them only. -/
theorem parse?_eq_some_iff_digits :
    Documented "#fF9500".toList (.rgb ⟨255, 149, 0⟩) ∧
      parse? "#fF9500" = some (.rgb ⟨255, 149, 0⟩) ∧
      ('+' ∉ "#FFF".toList ∧ '\u212a' ∉ "#FFF".toList) ∧ ¬ ∃ c, Documented "#FFF".toList c := by
  have hdocumented : Documented "#fF9500".toList (.rgb ⟨255, 149, 0⟩) :=
    .rgb ⟨15, 15, by decide, by decide, rfl⟩ ⟨9, 5, by decide, by decide, rfl⟩
      ⟨0, 0, by decide, by decide, rfl⟩
  have hsigns : '+' ∉ "#FFF".toList ∧ '\u212a' ∉ "#FFF".toList := by decide
  refine ⟨hdocumented, (parse?_eq_some_iff _).2.1 _ hdocumented, hsigns, ?_⟩
  rintro ⟨c, h⟩
  have hread := ((parse?_eq_some_iff "#FFF").2.2 hsigns.1 hsigns.2 c).mpr h
  have hnone : parse? "#FFF" = none := by decide +kernel
  exact absurd (hnone.symm.trans hread) (by simp)

/-- **Not every text that is read** is in the documented notation: a pair may have a plus sign. -/
theorem parse?_plus : parse? "#+1+2+3" = some (.rgb ⟨1, 2, 3⟩) ∧
    ¬ ∃ c, Documented "#+1+2+3".toList c := by
  refine ⟨by decide +kernel, ?_⟩
  rintro ⟨c, h⟩
  have htext : "#+1+2+3".toList = '#' :: ['+', '1', '+', '2', '+', '3'] := by decide
  rw [htext] at h
  obtain ⟨r₁, r₂, g₁, g₂, b₁, b₂, v, hdigits, -, hpair, -⟩ :=
    Denotes.of_numberSign h fun _ _ hsign => Or.inl hsign
  obtain ⟨rfl, -⟩ := List.cons.inj hdigits
  obtain ⟨high, -, hplus, -⟩ := hpair
  exact not_isHexDigit_plus high hplus

end Color

end FaustLens
