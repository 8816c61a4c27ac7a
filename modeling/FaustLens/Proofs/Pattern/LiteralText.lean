import FaustLens.Proofs.Pattern.Factoring
import FaustLens.Rule

/-!
# The text of a choice between literals

A choice between literals is written with a backslash before each character that means something in
patterns, with bars between the literals and in parentheses that capture nothing. Read back, this
text says what it was made from: an escaped character stands for itself, so no character of a
literal can end its alternative or change what stands around it.

Results:
* `readFrom_of_run`: the steps of the reader lead to the same expression whatever the limit on them.
* `run_literal`, `run_choice`: the reader passes over a literal and over a choice between literals.
* `read?_literalText`, `toPattern?_literalsExpr`: the expression that the text says, and its pattern.
-/

namespace FaustLens

namespace Reader

/-! ## Runs of the reader -/

/-- The reader gets from the state `st` before the text `s` to the state `st'` before `s'`, outside of
verbose mode. -/
inductive Run : State → Text → State → Text → Prop
  | done (st : State) (s : Text) : Run st s st s
  | more {st st' st'' : State} {c : Char} {s s' s'' : Text} : st.verbose = false →
      step st c s = some (st', s') → s'.length ≤ s.length → Run st' s' st'' s'' →
      Run st (c :: s) st'' s''

namespace Run

variable {st st' st'' : State} {s s' s'' : Text}

theorem trans (h : Run st s st' s') (h' : Run st' s' st'' s'') : Run st s st'' s'' := by
  induction h with
  | done => exact h'
  | more hv hstep hle _ ih => exact .more hv hstep hle (ih h')

theorem single {c : Char} (hv : st.verbose = false) (hstep : step st c s = some (st', s'))
    (hle : s'.length ≤ s.length) : Run st (c :: s) st' s' := .more hv hstep hle (.done st' s')

end Run

/-- **A run to the end of a text** outside of all groups gives the expression of its last state. -/
theorem readFrom_of_run {st st' : State} {s : Text} (h : Run st s st' []) (hlevels : st'.levels = []) :
    ∀ n, s.length < n → readFrom n st s = some st'.body := by
  generalize hend : ([] : Text) = rest at h
  induction h with
  | done st s =>
    subst hend
    intro n hn
    obtain ⟨n, rfl⟩ := Nat.exists_eq_add_one_of_ne_zero (Nat.ne_of_gt (Nat.zero_lt_of_lt hn))
    have hblank : skipBlank st.verbose [] = [] := by cases st.verbose <;> rfl
    rw [readFrom, hblank]
    simp [hlevels]
  | more hv hstep hle _ ih =>
    intro n hn
    obtain ⟨n, rfl⟩ := Nat.exists_eq_add_one_of_ne_zero (Nat.ne_of_gt (Nat.zero_lt_of_lt hn))
    rw [List.length_cons] at hn
    rw [readFrom, hv]
    simp only [skipBlank, Bool.false_eq_true, if_false, hstep]
    exact ih hlevels hend n (by omega)

/-! ## Literals -/

theorem step_of_not_meta {c : Char} (hc : metaChars.contains c = false) (st : State) (rest : Text) :
    step st c rest = some (st.push (.char c), rest) := by
  unfold step
  split
  case h_13 => rfl
  all_goals exact absurd hc (by decide)

theorem step_backslash {c : Char} (hc : metaChars.contains c = true) (st : State) (rest : Text) :
    step st '\\' (c :: rest) = some (st.push (.char c), rest) := by
  have hescapable : isEscapable c = true := by rw [isEscapable, hc, Bool.true_or]
  have hescape : escape st.verbose (c :: rest) = some (.char c, rest) := by
    unfold escape
    exact if_pos hescapable
  change (escape st.verbose (c :: rest)).map _ = _
  rw [hescape, Option.map_some]

/-- **The reader passes over a literal** and adds its characters, one after the other. -/
theorem run_literal : ∀ (w : Text) (st : State) (rest : Text), st.verbose = false →
    Run st (Rule.escapeLiteral w ++ rest)
      { st with items := (w.map Expr.char).reverse ++ st.items } rest
  | [], st, rest, _ => .done st rest
  | c :: w, st, rest, hv => by
    have htail := run_literal w (st.push (.char c)) rest hv
    have hitems : { st.push (.char c) with
        items := (w.map Expr.char).reverse ++ (st.push (.char c)).items } =
        { st with items := ((c :: w).map Expr.char).reverse ++ st.items } := by
      simp [State.push]
    rw [hitems] at htail
    have hhead : Rule.escapeLiteral (c :: w) =
        (if metaChars.contains c then ['\\', c] else [c]) ++ Rule.escapeLiteral w := rfl
    rw [hhead, List.append_assoc]
    cases hc : metaChars.contains c with
    | true => exact .more hv (step_backslash hc st _) (Nat.le_succ _) htail
    | false => exact .more hv (step_of_not_meta hc st _) (Nat.le_refl _) htail

/-- What the text of a literal says. -/
def literalExpr (w : Text) : Expr := sequence (w.map Expr.char).reverse

/-! ## Choices -/

/-- The text of several literals with bars between them. -/
def barred (ws : List Text) : Text := ['|'].intercalate (ws.map Rule.escapeLiteral)

/-- The alternatives of the innermost open group of `st'` are those of `st` and the new ones `es`, and
everything else is as it was. -/
structure Collected (st : State) (es : List Expr) (st' : State) : Prop where
  verbose : st'.verbose = st.verbose
  levels : st'.levels = st.levels
  captures : st'.captures = st.captures
  alternatives : sequence st'.items :: st'.branches = es.reverse ++ st.branches

/-- The reader passes over literals with bars between them and collects them as alternatives. -/
theorem exists_run_barred : ∀ (ws : List Text) (st : State) (rest : Text), ws ≠ [] →
    st.verbose = false → st.items = [] →
      ∃ st', Run st (barred ws ++ rest) st' rest ∧ Collected st (ws.map literalExpr) st'
  | [w], st, rest, _, hv, hitems => by
    have hrun := run_literal w st rest hv
    rw [hitems, List.append_nil] at hrun
    rw [barred, List.map_singleton, List.intercalate_singleton]
    exact ⟨_, hrun, rfl, rfl, rfl, rfl⟩
  | w :: v :: ws, st, rest, _, hv, hitems => by
    have hrun := run_literal w st ('|' :: (barred (v :: ws) ++ rest)) hv
    rw [hitems, List.append_nil] at hrun
    have hsplit : barred (w :: v :: ws) ++ rest =
        Rule.escapeLiteral w ++ '|' :: (barred (v :: ws) ++ rest) := by
      rw [barred, List.map_cons, List.map_cons, List.intercalate_cons_cons, barred, List.map_cons]
      simp
    -- the bar ends the alternative of `w`, and the others follow
    obtain ⟨st', hrun', hcol⟩ := exists_run_barred (v :: ws)
      (State.branch { st with items := (w.map Expr.char).reverse }) rest (by simp) hv rfl
    refine ⟨st', ?_, hcol.verbose, hcol.levels, hcol.captures, ?_⟩
    · rw [hsplit]
      exact hrun.trans (.more hv rfl (Nat.le_refl _) hrun')
    · rw [hcol.alternatives]
      simp [State.branch, literalExpr]

/-- What the text of a choice between literals in parentheses says. -/
def choiceExpr (ws : List Text) : Expr :=
  .group (.plain []) (choice (ws.map literalExpr).reverse)

/-- **The reader passes over a choice between literals** in parentheses and adds it as one item. -/
theorem run_choice {ws : List Text} (st : State) (rest : Text) (hne : ws ≠ [])
    (hv : st.verbose = false) :
    Run st ('(' :: '?' :: ':' :: (barred ws ++ ')' :: rest)) (st.push (choiceExpr ws)) rest := by
  have hopen : step st '(' ('?' :: ':' :: (barred ws ++ ')' :: rest)) =
      some (st.openGroup [], barred ws ++ ')' :: rest) := by
    change groupHeader st _ = _
    simp [groupHeader, hv, skipBlank, flagLetters]
  obtain ⟨st', hrun, hcol⟩ := exists_run_barred ws (st.openGroup []) (')' :: rest) hne hv rfl
  have hclose : step st' ')' rest = some (st.push (choiceExpr ws), rest) := by
    have halternatives := hcol.alternatives
    change (State.closeGroup st').map _ = _
    rw [State.closeGroup, hcol.levels]
    simp only [State.openGroup, List.append_nil] at halternatives ⊢
    rw [Option.map_some, State.body, halternatives, hcol.captures]
    rfl
  refine .more hv hopen (Nat.le_add_right _ 2) (hrun.trans (.single ?_ hclose (Nat.le_refl _)))
  rw [hcol.verbose]
  exact hv

/-! ## Word boundaries around the choice -/

theorem step_boundary {s : Text} (hs : s.head? ≠ some '\x7b') (st : State) :
    step st '\\' ('b' :: s) = some (st.push (.wordEdge .boundary), s) := by
  have hescape : escape st.verbose ('b' :: s) = some (.wordEdge .boundary, s) := by
    change boundary st.verbose s = _
    unfold boundary
    split
    · exact absurd rfl hs
    · rfl
  change (escape st.verbose ('b' :: s)).map _ = _
  rw [hescape, Option.map_some]

/-- The reader passes over a word boundary and adds it. -/
theorem run_boundary {s : Text} (hs : s.head? ≠ some '\x7b') (st : State)
    (hv : st.verbose = false) :
    Run st ('\\' :: 'b' :: s) (st.push (.wordEdge .boundary)) s :=
  .single hv (step_boundary hs st) (Nat.le_succ _)

/-- The text of a choice between literals, between two word boundaries if `bounded`. -/
def literalText (ws : List Text) (bounded : Bool) : Text :=
  let choice := '(' :: '?' :: ':' :: (barred ws ++ [')'])
  if bounded then '\\' :: 'b' :: (choice ++ ['\\', 'b']) else choice

/-- What the text of a choice between literals says. -/
def literalsExpr (ws : List Text) (bounded : Bool) : Expr :=
  if bounded then .cat (.cat (.wordEdge .boundary) (choiceExpr ws)) (.wordEdge .boundary)
  else choiceExpr ws

theorem toList_literalSource (alternatives : List String) (bounded : Bool) :
    (Rule.literalSource alternatives bounded).toList =
      literalText (alternatives.map String.toList) bounded := by
  have hbar : "|".toList = ['|'] := rfl
  have hopen : "(?:".toList = ['(', '?', ':'] := rfl
  have hclose : ")".toList = [')'] := rfl
  have hedge : "\\b".toList = ['\\', 'b'] := rfl
  have hinner : ("|".intercalate (alternatives.map fun alt =>
      String.ofList (Rule.escapeLiteral alt.toList))).toList =
        barred (alternatives.map String.toList) := by
    rw [String.toList_intercalate, hbar, List.map_map, barred, List.map_map]
    refine congrArg _ (List.map_congr_left fun alt _ => ?_)
    rw [Function.comp_apply, String.toList_ofList]
    rfl
  unfold Rule.literalSource literalText
  cases bounded <;> simp [String.toList_append, hinner, hopen, hclose, hedge]

/-- **The reader gets back** what the text of a choice between literals was made from. -/
theorem readFrom_literalText {ws : List Text} (hne : ws ≠ []) (bounded : Bool) :
    readFrom ((literalText ws bounded).length + 1) {} (literalText ws bounded) =
      some (literalsExpr ws bounded) := by
  cases bounded with
  | false =>
    exact readFrom_of_run (run_choice {} [] hne rfl) rfl _ (Nat.lt_succ_self _)
  | true =>
    have hfront := run_boundary (s := '(' :: '?' :: ':' :: (barred ws ++ ')' :: ['\\', 'b']))
      (by simp) {} rfl
    have hrun := (hfront.trans (run_choice _ ['\\', 'b'] hne rfl)).trans
      (run_boundary (by simp) _ rfl)
    have hassoc : literalText ws true =
        '\\' :: 'b' :: '(' :: '?' :: ':' :: (barred ws ++ ')' :: ['\\', 'b']) := by
      simp [literalText]
    rw [hassoc]
    exact readFrom_of_run hrun rfl _ (Nat.lt_succ_self _)

/-! ## Names and nesting -/

variable {m : Nat}

theorem height_cat_le {a b : Expr} (ha : a.height ≤ m) (hb : b.height ≤ m) :
    (Expr.cat a b).height ≤ m + 1 := by
  unfold Expr.height
  split <;> omega

/-- A sequence that goes on counts once. -/
theorem height_cat_cat_le {a b c : Expr} (hab : (Expr.cat a b).height ≤ m + 1)
    (hc : c.height ≤ m) : (Expr.cat (.cat a b) c).height ≤ m + 1 := by
  change max ((Expr.cat a b).height - 1) c.height + 1 ≤ m + 1
  omega

theorem height_sequence_le : ∀ es : List Expr, (∀ e ∈ es, e.height ≤ m) →
    (sequence es).height ≤ m + 1
  | [], _ => Nat.zero_le _
  | [e], h => Nat.le_succ_of_le (h e List.mem_cons_self)
  | [e, d], h => height_cat_le (h d (by simp)) (h e (by simp))
  | e :: d :: f :: es, h =>
    height_cat_cat_le (height_sequence_le (d :: f :: es)
      fun x hx => h x (List.mem_cons_of_mem _ hx)) (h e List.mem_cons_self)

theorem height_alt_le {a b : Expr} (ha : a.height ≤ m) (hb : b.height ≤ m) :
    (Expr.alt a b).height ≤ m + 1 := by
  unfold Expr.height
  split <;> omega

theorem height_alt_alt_le {a b c : Expr} (hab : (Expr.alt a b).height ≤ m + 1)
    (hc : c.height ≤ m) : (Expr.alt (.alt a b) c).height ≤ m + 1 := by
  change max ((Expr.alt a b).height - 1) c.height + 1 ≤ m + 1
  omega

theorem height_choice_le : ∀ es : List Expr, (∀ e ∈ es, e.height ≤ m) →
    (choice es).height ≤ m + 1
  | [], _ => Nat.zero_le _
  | [e], h => Nat.le_succ_of_le (h e List.mem_cons_self)
  | [e, d], h => height_alt_le (h d (by simp)) (h e (by simp))
  | e :: d :: f :: es, h =>
    height_alt_alt_le (height_choice_le (d :: f :: es)
      fun x hx => h x (List.mem_cons_of_mem _ hx)) (h e List.mem_cons_self)

theorem groupNames_sequence : ∀ es : List Expr, (∀ e ∈ es, e.groupNames = []) →
    (sequence es).groupNames = []
  | [], _ => rfl
  | [e], h => h e List.mem_cons_self
  | e :: d :: es, h => by
    have htail := groupNames_sequence (d :: es) fun x hx => h x (List.mem_cons_of_mem _ hx)
    rw [sequence, Expr.groupNames, htail, h e List.mem_cons_self]
    · rfl
    · simp

theorem groupNames_choice : ∀ es : List Expr, (∀ e ∈ es, e.groupNames = []) →
    (choice es).groupNames = []
  | [], _ => rfl
  | [e], h => h e List.mem_cons_self
  | e :: d :: es, h => by
    have htail := groupNames_choice (d :: es) fun x hx => h x (List.mem_cons_of_mem _ hx)
    rw [choice, Expr.groupNames, htail, h e List.mem_cons_self]
    · rfl
    · simp

theorem height_choiceExpr_le (ws : List Text) : (choiceExpr ws).height ≤ 3 := by
  refine Nat.succ_le_succ (height_choice_le _ fun e he => ?_)
  obtain ⟨w, -, rfl⟩ := List.mem_map.mp (List.mem_reverse.mp he)
  refine height_sequence_le _ fun e he => ?_
  obtain ⟨c, -, rfl⟩ := List.mem_map.mp (List.mem_reverse.mp he)
  exact Nat.le_refl 0

theorem groupNames_choiceExpr (ws : List Text) : (choiceExpr ws).groupNames = [] := by
  refine groupNames_choice _ fun e he => ?_
  obtain ⟨w, -, rfl⟩ := List.mem_map.mp (List.mem_reverse.mp he)
  refine groupNames_sequence _ fun e he => ?_
  obtain ⟨c, -, rfl⟩ := List.mem_map.mp (List.mem_reverse.mp he)
  rfl

theorem height_literalsExpr_le (ws : List Text) (bounded : Bool) :
    (literalsExpr ws bounded).height ≤ Expr.maxHeight := by
  have hle : (literalsExpr ws bounded).height ≤ 4 := by
    cases bounded with
    | false => exact Nat.le_succ_of_le (height_choiceExpr_le ws)
    | true =>
      exact height_cat_cat_le (height_cat_le (Nat.zero_le 3) (height_choiceExpr_le ws))
        (Nat.zero_le 3)
  exact Nat.le_trans hle (by decide)

theorem groupNames_literalsExpr (ws : List Text) (bounded : Bool) :
    (literalsExpr ws bounded).groupNames = [] := by
  cases bounded with
  | false => exact groupNames_choiceExpr ws
  | true =>
    rw [literalsExpr, if_pos rfl, Expr.groupNames, Expr.groupNames, groupNames_choiceExpr]
    rfl

end Reader

open Reader (literalExpr choiceExpr literalText literalsExpr)

/-- **The text of a choice between literals is well formed** and says what it was made from. -/
theorem Expr.read?_literalText {ws : List Text} (hne : ws ≠ []) (bounded : Bool) :
    Expr.read? (literalText ws bounded) = some (literalsExpr ws bounded) := by
  have hnames : (literalsExpr ws bounded).groupNames.Nodup := by
    rw [Reader.groupNames_literalsExpr]
    exact List.nodup_nil
  rw [Expr.read?, Reader.readFrom_literalText hne]
  exact if_pos ⟨hnames, Reader.height_literalsExpr_le ws bounded⟩

/-! ## The pattern -/

namespace Pattern

/-- Matches the characters of a text one after the other, given the last one first. -/
def backward : Text → Pattern
  | [] => empty
  | [c] => letter c
  | c :: w => cat (backward w) (letter c)

/-- Matches a literal. -/
def literal (w : Text) : Pattern := backward w.reverse

/-- Matches one of the literals, between two word boundaries if `bounded`. -/
def ofLiterals (ws : List Text) (bounded : Bool) : Pattern :=
  let p := choice (ws.map literal)
  if bounded then cat (cat boundary p) boundary else p

theorem parts_backward : ∀ w : Text, (backward w).parts = (w.map letter).reverse
  | [] => rfl
  | [_] => rfl
  | c :: d :: w => by
    have hlast : (letter c).parts = [letter c] := rfl
    rw [backward, parts, parts_backward (d :: w), hlast, ← List.reverse_cons]
    · rfl
    · simp

theorem parts_literal (w : Text) : (literal w).parts = w.map letter := by
  rw [literal, parts_backward, List.map_reverse, List.reverse_reverse]

theorem choice_singleton (p : Pattern) : choice [p] = p := rfl

end Pattern

namespace Expr

open Pattern (backward literal choice_singleton)

theorem branches_char (c : Char) : branches {} (.char c) = some ([Pattern.letter c], {}) := rfl

theorem branches_cat {a b : Expr} {p q : Pattern} (ha : branches {} a = some ([p], {}))
    (hb : branches {} b = some ([q], {})) : branches {} (.cat a b) = some ([.cat p q], {}) := by
  simp only [branches, ha, hb, Option.bind_eq_bind, Option.bind_some, choice_singleton]
  rfl

theorem branches_sequence : ∀ w : Text,
    branches {} (Reader.sequence (w.map .char)) = some ([backward w], {})
  | [] => rfl
  | [c] => branches_char c
  | c :: d :: w => branches_cat (branches_sequence (d :: w)) (branches_char c)

theorem branches_literalExpr (w : Text) : branches {} (literalExpr w) = some ([literal w], {}) := by
  rw [literalExpr, ← List.map_reverse, branches_sequence, literal]

theorem branches_choice : ∀ ws : List Text, ws ≠ [] →
    branches {} (Reader.choice (ws.map literalExpr)) = some ((ws.map literal).reverse, {})
  | [w], _ => branches_literalExpr w
  | w :: v :: ws, _ => by
    have htail := branches_choice (v :: ws) (List.cons_ne_nil v ws)
    rw [List.map_cons] at htail
    rw [List.map_cons, List.map_cons, Reader.choice, branches, htail]
    · simp [branches_literalExpr, choice_singleton]
    · simp

/-- **The pattern of a choice between literals.** -/
theorem toPattern?_literalsExpr {ws : List Text} (hne : ws ≠ []) (bounded : Bool) :
    (literalsExpr ws bounded).toPattern? = some (Pattern.ofLiterals ws bounded) := by
  have hchoice : branches {} (choiceExpr ws) = some ([Pattern.choice (ws.map literal)], {}) := by
    have hbody := branches_choice ws.reverse (by simpa using hne)
    rw [List.map_reverse, List.map_reverse, List.reverse_reverse] at hbody
    have hflags : Flags.setAll {} (GroupKind.plain []).edits = {} := rfl
    rw [choiceExpr, branches, hflags, hbody]
    rfl
  cases bounded with
  | false =>
    rw [toPattern?, literalsExpr, if_neg Bool.false_ne_true, hchoice]
    rfl
  | true =>
    have hedge : branches {} (.wordEdge .boundary) = some ([Pattern.boundary], {}) := rfl
    rw [toPattern?, literalsExpr, if_pos rfl, branches_cat (branches_cat hedge hchoice) hedge]
    rfl

end Expr

end FaustLens
