import FaustLens.Proofs.Faust.BlockComment
import FaustLens.Proofs.Pattern.Scan

/-!
# The scan for block comments

Block comments are found by a scan from left to right. At an opening mark it takes everything up to
the first closing mark behind it, if there is one; otherwise it goes on. So a comment ends at its
first closing mark, and the two marks have no character in common.

Results:
* `upToClosing?_eq_some_iff`: what the first closing mark is.
* `matchesOf_blockComment_eq_scan`: the scan finds the matches of the block comment rule.
-/

namespace FaustLens.Faust

open Pattern

/-- The text up to its first `*/` and including it, if there is one. -/
def upToClosing? : Text → Option Text
  | [] => none
  | c :: rest =>
    if c = '*' ∧ rest.head? = some '/' then some ['*', '/'] else (upToClosing? rest).map (c :: ·)

/-- The block comment with which a text begins, if it does: an opening mark and everything behind it
up to the first closing mark. -/
def comment? : Text → Option Text
  | '/' :: '*' :: rest => (upToClosing? rest).map ('/' :: '*' :: ·)
  | _ => none

/-! ## The first closing mark -/

theorem closingMark_infix_cons_iff {c : Char} {rest : Text} :
    ['*', '/'] <:+: c :: rest ↔ (c = '*' ∧ rest.head? = some '/') ∨ ['*', '/'] <:+: rest := by
  rw [List.infix_cons_iff, List.cons_prefix_cons]
  refine or_congr_left (and_congr eq_comm ?_)
  cases rest <;> simp [List.cons_prefix_cons, eq_comm]

/-- **The first closing mark** is one with no other before it. -/
theorem upToClosing?_eq_some_iff {rest w : Text} : upToClosing? rest = some w ↔
    ∃ x b, rest = x ++ '*' :: '/' :: b ∧ w = x ++ ['*', '/'] ∧ ¬ ['*', '/'] <:+: x ++ ['*'] := by
  constructor
  · intro h
    induction rest generalizing w with
    | nil => exact absurd h (by simp [upToClosing?])
    | cons c rest ih =>
      rw [upToClosing?] at h
      split at h
      · rename_i hmark
        obtain ⟨rfl, hhead⟩ := hmark
        obtain ⟨b, rfl⟩ := List.head?_eq_some_iff.mp hhead
        exact ⟨[], b, rfl, (Option.some.inj h).symm, by simp [closingMark_infix_cons_iff]⟩
      · rename_i hmark
        obtain ⟨v, hv, rfl⟩ := Option.map_eq_some_iff.mp h
        obtain ⟨x, b, rfl, rfl, hfirst⟩ := ih hv
        refine ⟨c :: x, b, rfl, rfl, ?_⟩
        rw [List.cons_append, closingMark_infix_cons_iff, not_or]
        refine ⟨fun h => hmark ⟨h.1, ?_⟩, hfirst⟩
        cases x with
        | nil => exact absurd h.2 (by simp)
        | cons d x => exact h.2
  · rintro ⟨x, b, rfl, rfl, hfirst⟩
    induction x with
    | nil => rfl
    | cons c x ih =>
      rw [List.cons_append, closingMark_infix_cons_iff, not_or] at hfirst
      have hmark : ¬ (c = '*' ∧ (x ++ '*' :: '/' :: b).head? = some '/') := by
        refine fun h => hfirst.1 ⟨h.1, ?_⟩
        cases x with
        | nil => exact absurd h.2 (by simp)
        | cons d x => exact h.2
      rw [List.cons_append, upToClosing?, if_neg hmark, ih hfirst.2]
      rfl

theorem commentEnd_eq : ∀ rest : Text, commentEnd rest = (upToClosing? rest).map Text.byteLength
  | [] => rfl
  | [c] => by simp [commentEnd, upToClosing?]
  | c :: d :: rest => by
    have hbytes : Text.byteLength ['*', '/'] = 2 := by decide
    rw [commentEnd, upToClosing?, commentEnd_eq (d :: rest)]
    simp only [List.head?_cons, Option.some_inj]
    split
    · rw [Option.map_some, hbytes]
    · rw [Option.map_map, Option.map_map]
      rfl

/-! ## The scan -/

theorem comment?_eq_some_iff {b w : Text} : comment? b = some w ↔
    ∃ rest v, b = '/' :: '*' :: rest ∧ upToClosing? rest = some v ∧ w = '/' :: '*' :: v := by
  constructor
  · intro h
    unfold comment? at h
    split at h
    · obtain ⟨v, hv, rfl⟩ := Option.map_eq_some_iff.mp h
      exact ⟨_, v, rfl, hv, rfl⟩
    · exact absurd h (by simp)
  · rintro ⟨rest, v, rfl, hv, rfl⟩
    rw [comment?, hv, Option.map_some]

theorem takes_comment? : Takes fun _ => comment? := by
  intro _ b w h
  obtain ⟨rest, v, rfl, hv, rfl⟩ := comment?_eq_some_iff.mp h
  obtain ⟨x, z, rfl, rfl, -⟩ := upToClosing?_eq_some_iff.mp hv
  exact ⟨by simp, z, by simp⟩

/-- The pattern of block comments matches what the scan may take. -/
theorem matchesAt_blockPattern_iff_comment? {text : Text} {r : ByteRange} :
    MatchesAt blockPattern text r ↔
      ∃ a w z, text.Parts r a w z ∧ comment? (w ++ z) = some w := by
  have hmark : Text.byteLength ['/', '*'] = 2 := by decide
  have hbytes : ∀ a v : Text, (a ++ '/' :: '*' :: v).byteLength = a.byteLength + 2 + v.byteLength := by
    intro a v
    have hopen : '/' :: '*' :: v = ['/', '*'] ++ v := rfl
    rw [hopen, Text.byteLength_append, Text.byteLength_append, hmark, Nat.add_assoc]
  rw [matchesAt_blockPattern_iff]
  constructor
  · rintro ⟨a, rest, n, rfl, hn, rfl⟩
    rw [commentEnd_eq] at hn
    obtain ⟨v, hv, rfl⟩ := Option.map_eq_some_iff.mp hn
    have hcomment := comment?_eq_some_iff.mpr ⟨rest, v, rfl, hv, rfl⟩
    obtain ⟨-, z, hz⟩ := takes_comment? [] _ _ hcomment
    exact ⟨a, '/' :: '*' :: v, z, ⟨by rw [List.append_assoc, hz], by rw [hbytes]⟩, hz ▸ hcomment⟩
  · rintro ⟨a, w, z, ⟨rfl, rfl⟩, hw⟩
    obtain ⟨rest, v, hrest, hv, rfl⟩ := comment?_eq_some_iff.mp hw
    exact ⟨a, rest, _, by rw [List.append_assoc, hrest], by rw [commentEnd_eq, hv]; rfl,
      by rw [hbytes]⟩

/-- A match goes from an opening mark to the first closing mark behind it. -/
theorem exists_of_mem_matchesOf_blockComment {text : Text} {r : ByteRange}
    (h : r ∈ matchesOf blockComment text) : ∃ a x b,
      text = a ++ '/' :: '*' :: (x ++ '*' :: '/' :: b) ∧
      r = ⟨a.byteLength, (a ++ '/' :: '*' :: (x ++ ['*', '/'])).byteLength⟩ ∧
      ¬ ['*', '/'] <:+: x ++ ['*'] := by
  rw [matchesOf_blockComment] at h
  obtain ⟨a, w, z, hparts, hw⟩ := matchesAt_blockPattern_iff_comment?.mp (matchesAt_of_mem_findAll h)
  obtain ⟨rest, v, hrest, hv, rfl⟩ := comment?_eq_some_iff.mp hw
  obtain ⟨x, b, rfl, rfl, hfirst⟩ := upToClosing?_eq_some_iff.mp hv
  exact ⟨a, x, b, by rw [hparts.text_eq, List.append_assoc, hrest], hparts.range_eq, hfirst⟩

/-- From an opening mark on that nothing closes, there is no match. -/
theorem start_lt_of_unterminated {text a rest : Text} (htext : text = a ++ '/' :: '*' :: rest)
    (hno : ¬ ['*', '/'] <:+: rest) : ∀ r ∈ matchesOf blockComment text, r.start < a.byteLength := by
  intro r hr
  refine Nat.lt_of_not_le fun hle => hno ?_
  obtain ⟨a', x, b, htext', rfl, -⟩ := exists_of_mem_matchesOf_blockComment hr
  obtain ⟨m, rfl, hrest⟩ := Text.exists_middle (htext.symm.trans htext') hle
  -- the closing mark of a match from here on is behind this opening mark too
  have hclosing : ∀ u : Text, ['*', '/'] <:+: u ++ '*' :: '/' :: b := fun u => ⟨u, b, by simp⟩
  by_cases hm : m = []
  · subst hm
    obtain rfl : rest = x ++ '*' :: '/' :: b := (List.cons.inj (List.cons.inj hrest).2).2
    exact hclosing x
  · obtain ⟨u, rfl⟩ := exists_of_two_openings hm hrest
    have hassoc : u ++ '/' :: '*' :: (x ++ '*' :: '/' :: b) =
        (u ++ '/' :: '*' :: x) ++ '*' :: '/' :: b := by simp
    rw [hassoc]
    exact hclosing _

/-- **Block comments** are what the scan finds: from an opening mark up to the first closing mark
behind it. An opening mark with no closing mark behind it opens nothing. -/
theorem matchesOf_blockComment_eq_scan (text : Text) :
    matchesOf blockComment text = scan (fun _ => comment?) text ∧
      (∀ r ∈ matchesOf blockComment text, ∃ a x b,
        text = a ++ '/' :: '*' :: (x ++ '*' :: '/' :: b) ∧
        r = ⟨a.byteLength, (a ++ '/' :: '*' :: (x ++ ['*', '/'])).byteLength⟩ ∧
        ¬ ['*', '/'] <:+: x ++ ['*']) ∧
      (∀ a rest, text = a ++ '/' :: '*' :: rest → ¬ ['*', '/'] <:+: rest →
        ∀ r ∈ matchesOf blockComment text, r.start < a.byteLength) ∧
      matchesOf blockComment ['/', '*', '/'] = [] := by
  refine ⟨?_, fun r hr => exists_of_mem_matchesOf_blockComment hr,
    fun a rest htext => start_lt_of_unterminated htext, ?_⟩
  · rw [matchesOf_blockComment]
    exact findAll_eq_scan rfl takes_comment? fun r => matchesAt_blockPattern_iff_comment?
  · refine List.eq_nil_iff_forall_not_mem.mpr fun r hr => ?_
    have hopening : ['/', '*', '/'] = [] ++ '/' :: '*' :: ['/'] := rfl
    exact Nat.not_lt_zero _ (start_lt_of_unterminated hopening (by decide) r hr)

end FaustLens.Faust
