import FaustLens.Claims
import FaustLens.Rule
import FaustLens.Span

/-!
# Classification

Model of `Highlighter` (`syntax::highlighter`): `new`, `faust`, `classify`, `runs`.

A highlighter is an ordered table of rules. All matches of the first rule, then all of the second
and so on, are judged in this order: a match that meets a claim is discarded, any other is accepted,
and an accepted match of an exclusive rule is claimed. Accepted matches paint their bytes, later
ones over earlier ones. `Highlighter.classify` cuts the painted text into runs of one category.

Results:
* `judge_append`: judging goes match by match and carries nothing but the claims.
* `expand_runs`: the runs of a list of categories, expanded again, give the list back.
-/

namespace FaustLens

/-- A match of a rule. -/
structure Hit where
  rule : Rule
  range : ByteRange
deriving Repr, Inhabited

/-! ## Judging matches -/

/-- The claims after a match: an accepted match of an exclusive rule is claimed. -/
def ClaimedRanges.afterHit (cl : ClaimedRanges) (h : Hit) : ClaimedRanges :=
  if cl.intersects h.range then cl
  else if h.rule.exclusive then cl.claim h.range else cl

/-- The claims after some matches. -/
def ClaimedRanges.afterHits (cl : ClaimedRanges) (hits : List Hit) : ClaimedRanges :=
  hits.foldl ClaimedRanges.afterHit cl

namespace Hit

/-- Pair each match with whether it is accepted, given the claims before the first one. -/
def judge (cl : ClaimedRanges) : List Hit → List (Hit × Bool)
  | [] => []
  | h :: hits => (h, !cl.intersects h.range) :: judge (cl.afterHit h) hits

/-- The accepted matches. -/
def accepted (cl : ClaimedRanges) (hits : List Hit) : List Hit :=
  ((judge cl hits).filter (·.2)).map (·.1)

/-- The discarded matches. -/
def discarded (cl : ClaimedRanges) (hits : List Hit) : List Hit :=
  ((judge cl hits).filter (!·.2)).map (·.1)

theorem judge_append (cl : ClaimedRanges) (as bs : List Hit) :
    judge cl (as ++ bs) = judge cl as ++ judge (cl.afterHits as) bs := by
  induction as generalizing cl with
  | nil => rfl
  | cons a as ih => simp [judge, ih, ClaimedRanges.afterHits]

end Hit

/-! ## Painting -/

/-- Paint `n` bytes from offset `start` on, as far as the text goes. -/
def paint (category : Category) (start : Nat) : Nat → Array Category → Array Category
  | 0, bytes => bytes
  | n + 1, bytes => paint category (start + 1) n (bytes.setIfInBounds start category)

/-- Paint the bytes of a match. -/
def Hit.paint (bytes : Array Category) (h : Hit) : Array Category :=
  FaustLens.paint h.rule.category h.range.start h.range.length bytes

/-- Paint a text of `size` bytes with some matches, in order. -/
def paintAll (size : Nat) (hits : List Hit) : Array Category :=
  hits.foldl Hit.paint (Array.replicate size .plain)

theorem size_paint (c : Category) (start n : Nat) (bytes : Array Category) :
    (paint c start n bytes).size = bytes.size := by
  induction n generalizing start bytes with
  | zero => rfl
  | succ n ih => simp [paint, ih]

theorem size_paintAll (size : Nat) (hits : List Hit) : (paintAll size hits).size = size := by
  have step : ∀ bytes : Array Category, (hits.foldl Hit.paint bytes).size = bytes.size := by
    induction hits with
    | nil => intro bytes; rfl
    | cons h hits ih => intro bytes; simp [ih, Hit.paint, size_paint]
  simp [paintAll, step]

/-! ## Runs -/

/-- The runs of the categories from offset `pos` on, where the run from `start` of category `c` is
still open. -/
def runsFrom (start : Nat) (c : Category) (pos : Nat) : List Category → List Span
  | [] => [⟨start, pos, c⟩]
  | d :: rest =>
    if d = c then runsFrom start c (pos + 1) rest
    else ⟨start, pos, c⟩ :: runsFrom pos d (pos + 1) rest

/-- The maximal runs of equal categories. -/
def runs : List Category → List Span
  | [] => []
  | c :: rest => runsFrom 0 c 1 rest

/-- One category per byte of each span. -/
def expand (spans : List Span) : List Category :=
  spans.flatMap fun s => List.replicate s.length s.category

theorem expand_runsFrom (start pos : Nat) (c : Category) (cs : List Category) (h : start ≤ pos) :
    expand (runsFrom start c pos cs) = List.replicate (pos - start) c ++ cs := by
  induction cs generalizing start pos c with
  | nil => simp [runsFrom, expand, Span.length, Span.range, ByteRange.length]
  | cons d cs ih =>
    rw [runsFrom]
    split
    · next hd =>
      subst hd
      rw [ih start (pos + 1) d (by omega), Nat.succ_sub h, List.replicate_succ']
      simp
    · have hrun := ih pos (pos + 1) d (by omega)
      have hone : pos + 1 - pos = 1 := by omega
      rw [hone] at hrun
      simp only [expand, List.flatMap_cons] at hrun ⊢
      rw [hrun]
      simp [Span.length, Span.range, ByteRange.length, List.replicate]

/-- **Nothing is lost in runs**: they expand to the categories they were made from. -/
theorem expand_runs (cs : List Category) : expand (runs cs) = cs := by
  cases cs with
  | nil => rfl
  | cons c cs => simpa [runs] using expand_runsFrom 0 1 c cs (by omega)

/-! ## Highlighters -/

/-- What a classification found. -/
structure Classification where
  /-- The matches that met a claim, in order. -/
  discarded : List Hit
  /-- The ranges claimed by exclusive rules. -/
  claims : ClaimedRanges
  /-- The maximal runs of one category. -/
  spans : List Span
deriving Repr, Inhabited

/-- An ordered table of rules. -/
structure Highlighter where
  rules : List Rule
deriving Repr, Inhabited

namespace Highlighter

/-- All matches in a text: those of the first rule from left to right, then those of the second,
and so on. -/
def hits (h : Highlighter) (text : Text) : List Hit :=
  h.rules.flatMap fun r => (r.findAll text).map (Hit.mk r)

/-- Classify a text and tell what was claimed and discarded. -/
def scan (h : Highlighter) (text : Text) : Classification :=
  let hits := h.hits text
  { discarded := Hit.discarded .empty hits
    claims := ClaimedRanges.empty.afterHits hits
    spans := runs (paintAll text.byteLength (Hit.accepted .empty hits)).toList }

/-- Classify a text into spans. -/
def classify (h : Highlighter) (text : Text) : List Span := (h.scan text).spans

end Highlighter

end FaustLens
