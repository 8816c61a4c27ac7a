import FaustLens.Proofs.Pattern.Reach
import Mathlib.Data.List.Basic

/-!
# The order of preference

The ends of a pattern are listed in the order of preference, each once. Two lists that differ only
in repetitions of earlier members prefer the same (`SameOrder`): whatever is looked for, both find
it first at the same place. Up to this the ends of a pattern are those of plain backtracking:
`cat` tries the second part from each end of the first, `alt` appends, and a repetition tries one
more iteration before or after it stops (`rounds`, `loops`). The exploration that computes the ends
of a repetition enters each place once; it may, because what it would find there a second time is
among what it has found already (`Settled`).

Results:
* `sameOrder_distinct`: removing repeated places changes no preference.
* `explore_spec`: an exploration finds what plain backtracking finds, in the same order.
* `sameOrder_cat`, `sameOrder_alt`, `sameOrder_repeated`: the ends of a pattern from its parts.
* `loops_eq_of_length_le`: the bound on the iterations of an unbounded loop has no effect.
-/

namespace FaustLens

/-- The lists hold the same places in the same order, up to repetitions of earlier members. -/
def SameOrder (as bs : List Cursor) : Prop :=
  ∀ (β : Type) (k : Cursor → Option β), as.findSome? k = bs.findSome? k

/-- In the list, the offset is a name. -/
def Named (curs : List Cursor) : Prop := ∀ c ∈ curs, ∀ e ∈ curs, c.offset = e.offset → c = e

theorem named_of_reaches {cur : Cursor} {curs : List Cursor} (h : ∀ e ∈ curs, cur.Reaches e) :
    Named curs := fun c hc e he ho => (h c hc).eq_of_offset (h e he) ho

namespace SameOrder

variable {as as' bs bs' : List Cursor}

theorem refl (as : List Cursor) : SameOrder as as := fun _ _ => rfl

theorem symm (h : SameOrder as bs) : SameOrder bs as := fun β k => (h β k).symm

theorem trans {cs : List Cursor} (h : SameOrder as bs) (h' : SameOrder bs cs) : SameOrder as cs :=
  fun β k => (h β k).trans (h' β k)

theorem append (h : SameOrder as as') (h' : SameOrder bs bs') :
    SameOrder (as ++ bs) (as' ++ bs') := by
  intro β k
  rw [List.findSome?_append, List.findSome?_append, h, h']

theorem findSome?_flatMap {β : Type} (k : Cursor → Option β) (f : Cursor → List Cursor)
    (as : List Cursor) : (as.flatMap f).findSome? k = as.findSome? fun c => (f c).findSome? k := by
  induction as with
  | nil => rfl
  | cons c as ih =>
    rw [List.flatMap_cons, List.findSome?_append, List.findSome?_cons, ih]
    cases (f c).findSome? k <;> rfl

theorem flatMap_congr {f g : Cursor → List Cursor} (h : ∀ c ∈ as, SameOrder (f c) (g c)) :
    SameOrder (as.flatMap f) (as.flatMap g) := by
  induction as with
  | nil => exact refl _
  | cons c as ih =>
    exact (h c List.mem_cons_self).append (ih fun x hx => h x (List.mem_cons_of_mem _ hx))

theorem flatMap (h : SameOrder as bs) {f g : Cursor → List Cursor}
    (hfg : ∀ c ∈ as, SameOrder (f c) (g c)) : SameOrder (as.flatMap f) (bs.flatMap g) := by
  refine (flatMap_congr hfg).trans fun β k => ?_
  rw [findSome?_flatMap, findSome?_flatMap, h]

theorem mem_iff (h : SameOrder as bs) {e : Cursor} : e ∈ as ↔ e ∈ bs := by
  have key : ∀ l : List Cursor,
      (l.findSome? fun c => if c = e then some () else none) = none ↔ e ∉ l := by
    intro l
    rw [List.findSome?_eq_none_iff]
    constructor
    · intro h he
      simpa using h e he
    · intro he c hc
      have hce : c ≠ e := fun hce => he (hce ▸ hc)
      rw [if_neg hce]
  have h' := key as
  rw [h, key bs] at h'
  exact not_iff_not.mp h'.symm

/-- What repeats earlier members may be left out. -/
theorem append_of_subset (h : ∀ e ∈ bs, e ∈ as) : SameOrder (as ++ bs) as := by
  intro β k
  rw [List.findSome?_append]
  cases hk : as.findSome? k with
  | some x => rfl
  | none =>
    rw [Option.none_or, List.findSome?_eq_none_iff]
    exact fun e he => List.findSome?_eq_none_iff.mp hk e (h e he)

end SameOrder

namespace Pattern

theorem findSome?_distinctFrom {β : Type} (k : Cursor → Option β) (seen : Std.TreeSet Nat) :
    ∀ {curs : List Cursor}, Named curs →
      (distinctFrom seen curs).findSome? k =
        (curs.filter fun c => !seen.contains c.offset).findSome? k
  | [], _ => rfl
  | cur :: curs, h => by
    have htail : Named curs := fun c hc e he =>
      h c (List.mem_cons_of_mem _ hc) e (List.mem_cons_of_mem _ he)
    rw [distinctFrom]
    cases hs : seen.contains cur.offset with
    | true =>
      rw [if_pos rfl, findSome?_distinctFrom k seen htail, List.filter_cons_of_neg (by simp [hs])]
    | false =>
      rw [if_neg (by simp), List.filter_cons_of_pos (by simp [hs]), List.findSome?_cons,
        List.findSome?_cons]
      cases hk : k cur with
      | some x => rfl
      | none =>
        simp only
        rw [findSome?_distinctFrom k _ htail]
        -- the members that only the left side drops are repetitions of `cur`
        have hdrop : ∀ c ∈ curs, c.offset = cur.offset → k c = none := by
          intro c hc ho
          rw [h c (List.mem_cons_of_mem _ hc) cur List.mem_cons_self ho, hk]
        clear htail hs h
        induction curs with
        | nil => rfl
        | cons c curs ih =>
          have ih := ih fun x hx => hdrop x (List.mem_cons_of_mem _ hx)
          have hc := hdrop c List.mem_cons_self
          by_cases ho : c.offset = cur.offset
          · rw [List.filter_cons_of_neg (by simp [Std.TreeSet.contains_insert, ho]), ih,
              List.filter_cons]
            split
            · rw [List.findSome?_cons, hc ho]
            · rfl
          · have hsame : (seen.insert cur.offset).contains c.offset = seen.contains c.offset := by
              rw [Std.TreeSet.contains_insert]
              simp [Ne.symm ho]
            rw [List.filter_cons, List.filter_cons, hsame]
            split
            · rw [List.findSome?_cons, List.findSome?_cons, ih]
            · exact ih

theorem sameOrder_distinct {curs : List Cursor} (h : Named curs) :
    SameOrder (distinct curs) curs := by
  intro β k
  rw [distinct, findSome?_distinctFrom k ∅ h]
  simp

/-! ## Plain backtracking -/

section Backtracking

variable (body : Cursor → List Cursor) (greedy : Bool)

/-- The ends of exactly `n` iterations. -/
def rounds : Nat → Cursor → List Cursor
  | 0, cur => [cur]
  | n + 1, cur => (body cur).flatMap (rounds n)

/-- The ends of at most `n` iterations. -/
def loops : Nat → Cursor → List Cursor
  | 0, cur => [cur]
  | n + 1, cur =>
    if greedy then (body cur).flatMap (loops n) ++ [cur] else cur :: (body cur).flatMap (loops n)

variable {body greedy}

/-- **The bound has no effect** once it reaches the length of the text: an iteration that moves on
takes at least one character. -/
theorem loops_eq_of_length_le (hbody : ∀ c e, e ∈ body c → e.rest.length < c.rest.length) :
    ∀ (n m : Nat) {cur : Cursor}, cur.rest.length ≤ n → cur.rest.length ≤ m →
      loops body greedy n cur = loops body greedy m cur := by
  have hstuck : ∀ {cur : Cursor}, cur.rest.length ≤ 0 → body cur = [] := fun {cur} h =>
    List.eq_nil_iff_forall_not_mem.mpr fun e he => by
      have := hbody cur e he
      omega
  intro n
  induction n with
  | zero =>
    intro m cur hn _
    cases m with
    | zero => rfl
    | succ m => cases greedy <;> simp [loops, hstuck hn]
  | succ n ih =>
    intro m cur hn hm
    cases m with
    | zero => cases greedy <;> simp [loops, hstuck hm]
    | succ m =>
      have hflat : (body cur).flatMap (loops body greedy n) =
          (body cur).flatMap (loops body greedy m) := List.flatMap_congr fun e he => by
        have := hbody cur e he
        exact ih m (by omega) (by omega)
      rw [loops, loops, hflat]

/-- Cutting repeated places out between the iterations changes no preference. -/
theorem sameOrder_iterate (hbody : ∀ c e, e ∈ body c → c.Reaches e) {cur : Cursor} :
    ∀ (n : Nat) {curs : List Cursor}, (∀ c ∈ curs, cur.Reaches c) →
      SameOrder (iterate body n curs) (curs.flatMap (rounds body n))
  | 0, curs, _ => by
    rw [iterate]
    simp only [rounds, List.flatMap_singleton']
    exact SameOrder.refl curs
  | n + 1, [], _ => SameOrder.refl _
  | n + 1, c :: curs, h => by
    have hstep : ∀ e ∈ (c :: curs).flatMap body, cur.Reaches e := by
      intro e he
      obtain ⟨x, hx, hxe⟩ := List.mem_flatMap.mp he
      exact (h x hx).trans (hbody x e hxe)
    have hassoc : (c :: curs).flatMap (rounds body (n + 1)) =
        ((c :: curs).flatMap body).flatMap (rounds body n) := by
      rw [List.flatMap_assoc]
      rfl
    have hiter : iterate body (n + 1) (c :: curs) =
        iterate body n (distinct ((c :: curs).flatMap body)) := rfl
    rw [hiter, hassoc]
    refine (sameOrder_iterate hbody n fun e he => hstep e (mem_of_mem_distinct he)).trans ?_
    exact (sameOrder_distinct (named_of_reaches hstep)).flatMap fun _ _ => SameOrder.refl _

end Backtracking

/-! ## Exploration -/

section Exploration

variable (body : Cursor → List Cursor) (greedy : Bool) (key : Nat → Cursor → Nat)
  (fits : Nat → Cursor → Prop)

/-- What an exploration needs of the choices it numbers: an iteration moves on and leads to places
that fit again, and choices with one number are at one place and lead to the same ends. -/
structure Numbered : Prop where
  move : ∀ n c e, fits (n + 1) c → e ∈ body c → fits n e ∧ c.offset < e.offset
  same : ∀ n c m e, fits (n + 1) c → fits (m + 1) e → key n c = key m e →
    c.offset = e.offset ∧ loops body greedy (n + 1) c = loops body greedy (m + 1) e

/-- Where a choice was made, and is not still pending, all it leads to has been found. -/
def Settled (pending : Nat → Prop) (s : Search) : Prop :=
  ∀ n c, fits (n + 1) c → s.made.contains (key n c) = true →
    pending (key n c) ∨ ∀ e ∈ loops body greedy (n + 1) c, e ∈ s.found

/-- No choice at an offset from `offset` on is pending. -/
def FreeFrom (pending : Nat → Prop) (offset : Nat) : Prop :=
  ∀ n c, fits (n + 1) c → offset ≤ c.offset → ¬ pending (key n c)

variable {body greedy key fits}

theorem Settled.grow {pending : Nat → Prop} {s s' : Search}
    (h : Settled body greedy key fits pending s) (hm : s'.made = s.made)
    (hf : ∀ e ∈ s.found, e ∈ s'.found) : Settled body greedy key fits pending s' := by
  intro n c hc hmade
  rw [hm] at hmade
  exact (h n c hc hmade).imp_right fun hall e he => hf e (hall e he)

/-- Making a choice leaves everything settled while this choice is pending. -/
theorem Settled.choose {pending : Nat → Prop} {s : Search}
    (h : Settled body greedy key fits pending s) (n : Nat) (c : Cursor) :
    Settled body greedy key fits (fun k => pending k ∨ k = key n c)
      ⟨s.made.insert (key n c), s.found⟩ := by
  intro m e he hmade
  rw [Std.TreeSet.contains_insert, Bool.or_eq_true] at hmade
  rcases hmade with hk | hk
  · exact Or.inl (Or.inr (Std.LawfulEqCmp.compare_eq_iff_eq.mp (beq_iff_eq.mp hk)).symm)
  · exact (h m e he hk).imp_left Or.inl

/-- When all that a choice leads to has been found, the choice need not be pending any more. -/
theorem Settled.finish (hnum : Numbered body greedy key fits) {pending : Nat → Prop} {s : Search}
    {n : Nat} {c : Cursor} (hc : fits (n + 1) c)
    (h : Settled body greedy key fits (fun k => pending k ∨ k = key n c) s)
    (hall : ∀ e ∈ loops body greedy (n + 1) c, e ∈ s.found) :
    Settled body greedy key fits pending s := by
  intro m e he hmade
  rcases h m e he hmade with (hp | hk) | hfound
  · exact Or.inl hp
  · rw [(hnum.same m e n c he hc hk).2]
    exact Or.inr hall
  · exact Or.inr hfound

/-- Behind the place of a choice nothing is pending, even while the choice is. -/
theorem FreeFrom.choose (hnum : Numbered body greedy key fits) {pending : Nat → Prop} {n : Nat}
    {c e : Cursor} (h : FreeFrom key fits pending c.offset) (hc : fits (n + 1) c)
    (hlt : c.offset < e.offset) :
    FreeFrom key fits (fun k => pending k ∨ k = key n c) e.offset := by
  rintro m x hx hle (hp | hk)
  · exact h m x hx (Nat.le_trans (Nat.le_of_lt hlt) hle) hp
  · have := (hnum.same m x n c hx hc hk).1
    omega

/-- What exploring from the places `es` does, if it is known what exploring from each of them does:
nothing but finding the plain ends, in their order. -/
theorem settled_foldl {pending : Nat → Prop} {found : Search → Cursor → Search}
    {plain : Cursor → List Cursor} : ∀ (es : List Cursor) (s : Search),
    (∀ e ∈ es, ∀ s, Settled body greedy key fits pending s →
      Settled body greedy key fits pending (found s e) ∧
        SameOrder (found s e).found.reverse (s.found.reverse ++ plain e)) →
    Settled body greedy key fits pending s →
    Settled body greedy key fits pending (es.foldl found s) ∧
      SameOrder (es.foldl found s).found.reverse (s.found.reverse ++ es.flatMap plain)
  | [], s, _, hs => ⟨hs, by rw [List.flatMap_nil, List.append_nil]; exact SameOrder.refl _⟩
  | e :: es, s, h, hs => by
    obtain ⟨hs₁, ho₁⟩ := h e List.mem_cons_self s hs
    obtain ⟨hs₂, ho₂⟩ :=
      settled_foldl es (found s e) (fun x hx => h x (List.mem_cons_of_mem _ hx)) hs₁
    refine ⟨hs₂, ho₂.trans ?_⟩
    rw [List.flatMap_cons, ← List.append_assoc]
    exact ho₁.append (SameOrder.refl _)

/-- **An exploration is plain backtracking**: it finds the same ends in the same order. -/
theorem explore_spec (hnum : Numbered body greedy key fits) : ∀ (n : Nat) (c : Cursor) (s : Search)
    (pending : Nat → Prop), fits n c → FreeFrom key fits pending c.offset →
    Settled body greedy key fits pending s →
    Settled body greedy key fits pending (explore body greedy key n c s) ∧
      SameOrder (explore body greedy key n c s).found.reverse
        (s.found.reverse ++ loops body greedy n c)
  | 0, c, s, pending, _, _, hs => by
    refine ⟨hs.grow rfl fun e he => List.mem_cons_of_mem _ he, ?_⟩
    have hfound : (explore body greedy key 0 c s).found.reverse = s.found.reverse ++ [c] :=
      List.reverse_cons
    rw [hfound]
    exact SameOrder.refl _
  | n + 1, c, s, pending, hc, hfree, hs => by
    cases hm : s.made.contains (key n c) with
    | true =>
      rw [explore, Search.fork_of_made hm]
      -- the choice is not pending, so what it leads to is found already
      have hall := (hs n c hc hm).resolve_left (hfree n c hc (Nat.le_refl _))
      refine ⟨hs, (SameOrder.append_of_subset fun e he => ?_).symm⟩
      exact List.mem_reverse.mpr (hall e he)
    | false =>
      -- while the iterations are explored, this choice is pending
      let pending' : Nat → Prop := fun k => pending k ∨ k = key n c
      let s₀ : Search := ⟨s.made.insert (key n c), s.found⟩
      have hs₀ : Settled body greedy key fits pending' s₀ := hs.choose n c
      have hiter : ∀ s, Settled body greedy key fits pending' s →
          Settled body greedy key fits pending'
              ((body c).foldl (fun s e => explore body greedy key n e s) s) ∧
            SameOrder ((body c).foldl (fun s e => explore body greedy key n e s) s).found.reverse
              (s.found.reverse ++ (body c).flatMap (loops body greedy n)) := by
        refine fun s hs => settled_foldl _ s (fun e he s hs => ?_) hs
        obtain ⟨hfit, hlt⟩ := hnum.move n c e hc he
        exact explore_spec hnum n e s pending' hfit (hfree.choose hnum hc hlt) hs
      cases greedy with
      | true =>
        rw [explore, (Search.fork_of_not_made hm _ _).1]
        obtain ⟨hs₁, ho₁⟩ := hiter s₀ hs₀
        have horder : SameOrder
            (((body c).foldl (fun s e => explore body true key n e s) s₀).emit c).found.reverse
            (s.found.reverse ++ loops body true (n + 1) c) := by
          rw [loops, if_pos rfl, ← List.append_assoc]
          have hrev : (((body c).foldl (fun s e => explore body true key n e s)
              s₀).emit c).found.reverse = ((body c).foldl (fun s e => explore body true key n e s)
              s₀).found.reverse ++ [c] := List.reverse_cons
          rw [hrev]
          exact ho₁.append (SameOrder.refl [c])
        have hs₂ : Settled body true key fits pending'
            (((body c).foldl (fun s e => explore body true key n e s) s₀).emit c) :=
          hs₁.grow rfl fun e he => List.mem_cons_of_mem _ he
        refine ⟨hs₂.finish hnum hc fun e he => ?_, horder⟩
        exact List.mem_reverse.mp (horder.mem_iff.mpr (List.mem_append_right _ he))
      | false =>
        rw [explore, (Search.fork_of_not_made hm _ _).2]
        obtain ⟨hs₁, ho₁⟩ := hiter (s₀.emit c)
          (hs₀.grow rfl fun e he => List.mem_cons_of_mem _ he)
        have horder : SameOrder
            ((body c).foldl (fun s e => explore body false key n e s) (s₀.emit c)).found.reverse
            (s.found.reverse ++ loops body false (n + 1) c) := by
          have hrev : (s₀.emit c).found.reverse = s.found.reverse ++ [c] := List.reverse_cons
          rw [hrev, List.append_assoc] at ho₁
          exact ho₁
        refine ⟨hs₁.finish hnum hc fun e he => ?_, horder⟩
        exact List.mem_reverse.mp (horder.mem_iff.mpr (List.mem_append_right _ he))

end Exploration

/-! ## The ends of a pattern from its parts -/

variable {size : Nat} {cur : Cursor}

theorem sameOrder_cat (size : Nat) (a b : Pattern) (cur : Cursor) :
    SameOrder (ends size (cat a b) cur) ((ends size a cur).flatMap (ends size b)) := by
  have hreach : ∀ e ∈ (ends size a cur).flatMap (ends size b), cur.Reaches e := by
    intro e he
    obtain ⟨c, hc, he⟩ := List.mem_flatMap.mp he
    exact (reaches_of_mem_ends size a cur c hc).trans (reaches_of_mem_ends size b c e he)
  exact sameOrder_distinct (named_of_reaches hreach)

theorem sameOrder_alt (size : Nat) (a b : Pattern) (cur : Cursor) :
    SameOrder (ends size (alt a b) cur) (ends size a cur ++ ends size b cur) := by
  have hreach : ∀ e ∈ ends size a cur ++ ends size b cur, cur.Reaches e := by
    intro e he
    rcases List.mem_append.mp he with he | he
    · exact reaches_of_mem_ends size a cur e he
    · exact reaches_of_mem_ends size b cur e he
  exact sameOrder_distinct (named_of_reaches hreach)

/-- The run of a character set is what looping around the set finds. -/
theorem loops_one (size : Nat) (set : CharSet) (greedy : Bool) : ∀ (n : Nat) (cur : Cursor),
    loops (ends size (one set)) greedy n cur =
      if greedy then (cur :: (runEnds set cur).take n).reverse else cur :: (runEnds set cur).take n
  | 0, cur => by cases greedy <;> simp [loops]
  | n + 1, ⟨prev, offset, []⟩ => by
    cases greedy <;> simp [loops, ends, runEnds, runEnds.go]
  | n + 1, ⟨prev, offset, c :: rest⟩ => by
    have hrun : runEnds set ⟨prev, offset, c :: rest⟩ =
        if set.contains c then
          ⟨some c, offset + c.utf8Size, rest⟩ :: runEnds set ⟨some c, offset + c.utf8Size, rest⟩
        else [] := rfl
    rw [loops, hrun]
    cases hc : set.contains c with
    | false => cases greedy <;> simp [ends, hc]
    | true =>
      have hends : ends size (one set) ⟨prev, offset, c :: rest⟩ =
          [⟨some c, offset + c.utf8Size, rest⟩] := by simp [ends, hc, Cursor.past]
      rw [hends, List.flatMap_singleton, loops_one size set greedy n]
      cases greedy <;> simp

theorem length_runEnds_le (set : CharSet) (cur : Cursor) :
    (runEnds set cur).length ≤ cur.rest.length := by
  unfold runEnds
  generalize cur.offset = offset
  induction cur.rest generalizing offset with
  | nil => simp [runEnds.go]
  | cons c rest ih =>
    rw [runEnds.go]
    split
    · have := ih (offset + c.utf8Size)
      rw [List.length_cons, List.length_cons]
      omega
    · exact Nat.zero_le _

/-- The place is reached with `n` iterations left: without a limit these are enough for the text
behind the place, and with a limit there are no more than it allows. -/
def Fits (limit : Option Nat) (root : Cursor) (n : Nat) (c : Cursor) : Prop :=
  root.Reaches c ∧ match limit with
    | none => c.rest.length ≤ n
    | some m => n ≤ m

/-- The choices of an exploration are numbered well: without a limit by their place, since the
iterations that are left do not matter, and with a limit by place and iterations left. -/
theorem numbered_choiceKey {body : Cursor → List Cursor}
    (hbody : ∀ c e, e ∈ body c → c.Reaches e ∧ c.offset < e.offset) (greedy : Bool)
    (limit : Option Nat) (root : Cursor) :
    Numbered body greedy (choiceKey limit) (Fits limit root) := by
  have hshort : ∀ c e, e ∈ body c → e.rest.length < c.rest.length := fun c e he =>
    (hbody c e he).1.length_lt (hbody c e he).2
  refine ⟨fun n c e ⟨hr, hn⟩ he => ⟨⟨hr.trans (hbody c e he).1, ?_⟩, (hbody c e he).2⟩, ?_⟩
  · cases limit with
    | none =>
      have hn : c.rest.length ≤ n + 1 := hn
      have := hshort c e he
      exact Nat.le_of_lt_succ (Nat.lt_of_lt_of_le this hn)
    | some m => exact Nat.le_of_succ_le hn
  · rintro n c m e ⟨hc, hn⟩ ⟨he, hm⟩ hkey
    cases limit with
    | none =>
      have ho : c.offset = e.offset := hkey
      obtain rfl := hc.eq_of_offset he ho
      exact ⟨rfl, loops_eq_of_length_le hshort _ _ hn hm⟩
    | some l =>
      have hn : n < l := hn
      have hm : m < l := hm
      have hkey : c.offset * l + n = e.offset * l + m := hkey
      obtain rfl : n = m := by
        have hmod := congrArg (· % l) hkey
        simp only [Nat.mul_add_mod_self_right] at hmod
        rwa [Nat.mod_eq_of_lt hn, Nat.mod_eq_of_lt hm] at hmod
      have ho : c.offset = e.offset :=
        Nat.eq_of_mul_eq_mul_right (by omega) (Nat.add_right_cancel hkey)
      obtain rfl := hc.eq_of_offset he ho
      exact ⟨rfl, rfl⟩

/-- Further iterations of one character are plain backtracking. -/
theorem sameOrder_furtherEnds_one (set : CharSet) (limit : Option Nat) (greedy : Bool)
    {starts : List Cursor} (hsize : ∀ c ∈ starts, c.rest.length ≤ size) :
    SameOrder (furtherEnds size (one set) (ends size (one set)) limit greedy starts)
      (starts.flatMap (loops (ends size (one set)) greedy (limit.getD size))) := by
  rw [furtherEnds_one]
  refine SameOrder.flatMap_congr fun c hc => ?_
  have htake : (runEnds set c).take (limit.getD (runEnds set c).length) =
      (runEnds set c).take (limit.getD size) := by
    cases limit with
    | some m => rfl
    | none =>
      have hle := Nat.le_trans (length_runEnds_le set c) (hsize c hc)
      rw [Option.getD_none, Option.getD_none, List.take_of_length_le (Nat.le_refl _),
        List.take_of_length_le hle]
  rw [loops_one, htake]
  exact SameOrder.refl _

/-- Further iterations of any other body are explored, which is plain backtracking as well. -/
theorem sameOrder_furtherEnds {p : Pattern} (hp : p.nullable = false) (hone : ∀ set, p ≠ one set)
    (limit : Option Nat) (greedy : Bool) (hsize : cur.rest.length ≤ size) {starts : List Cursor}
    (hstarts : ∀ c ∈ starts, cur.Reaches c) :
    SameOrder (furtherEnds size p (ends size p) limit greedy starts)
      (starts.flatMap (loops (ends size p) greedy (limit.getD size))) := by
  have hreach := reaches_of_mem_ends size p
  have hnum := numbered_choiceKey
    (fun c e he => ⟨hreach c e he, lt_of_mem_ends size hp c e he⟩) greedy limit cur
  let search : Search := starts.foldl
    (fun s c => explore (ends size p) greedy (choiceKey limit) (limit.getD size) c s) Search.init
  have hends : furtherEnds size p (ends size p) limit greedy starts =
      distinct search.found.reverse := furtherEnds_of_ne_one size hone _ _ _ _
  have hwithin : search.Within cur.Reaches := within_foldl _
    (fun c hc s hs => within_explore (Cursor.kept_reaches cur) greedy (choiceKey limit) hreach
      (limit.getD size) c s (hstarts c hc) hs) (Search.within_init _)
  have hnamed : Named search.found.reverse :=
    named_of_reaches fun e he => hwithin e (List.mem_reverse.mp he)
  -- at the start no choice is made, so none is pending
  have hsettled : Settled (ends size p) greedy (choiceKey limit) (Fits limit cur) (fun _ => False)
      Search.init := fun n c _ hm => absurd hm (by simp [Search.init])
  rw [hends]
  refine (sameOrder_distinct hnamed).trans (settled_foldl _ Search.init (fun c hc s hs =>
    explore_spec hnum (limit.getD size) c s _ ⟨hstarts c hc, ?_⟩ (fun _ _ _ _ hp => hp) hs)
    hsettled).2
  cases limit with
  | none => exact Nat.le_trans (hstarts c hc).length_le hsize
  | some m => exact Nat.le_refl _

/-- **A repetition is plain backtracking**: the iterations that are needed, then further ones. Its
body must not match the empty text. -/
theorem sameOrder_repeated {p : Pattern} (hp : p.nullable = false) (least : Nat)
    (most : Option Nat) (greedy : Bool) (hsize : cur.rest.length ≤ size) :
    SameOrder (ends size (repeated p least most greedy) cur)
      ((rounds (ends size p) least cur).flatMap
        (loops (ends size p) greedy ((most.map (· - least)).getD size))) := by
  have hreach := reaches_of_mem_ends size p
  have hself : ∀ c ∈ [cur], cur.Reaches c := fun c hc =>
    List.mem_singleton.mp hc ▸ Cursor.reaches_refl cur
  have hstarts : ∀ c ∈ iterate (ends size p) least [cur], cur.Reaches c :=
    kept_of_mem_iterate (Cursor.kept_reaches cur) hreach least hself
  have hrounds : SameOrder (iterate (ends size p) least [cur]) (rounds (ends size p) least cur) := by
    have := sameOrder_iterate hreach least hself
    rwa [List.flatMap_singleton] at this
  refine SameOrder.trans ?_ (hrounds.flatMap fun _ _ => SameOrder.refl _)
  rw [ends_repeated_of_not_nullable hp]
  by_cases hone : ∃ set, p = one set
  · obtain ⟨set, rfl⟩ := hone
    exact sameOrder_furtherEnds_one set _ greedy fun c hc =>
      Nat.le_trans (hstarts c hc).length_le hsize
  · exact sameOrder_furtherEnds hp (fun set hs => hone ⟨set, hs⟩) _ greedy hsize hstarts

end Pattern

end FaustLens
