import StaticSite.Text.Basic

/-!
# Similar texts

How alike two texts are, and the nearest of several candidates. The measure is the share of
characters in matching blocks: the longest common block, then the same on its left and right.
-/

namespace StaticSite.Text

/-- A common block of two texts: where it begins in each, and its length. -/
structure Block where
  left : Nat
  right : Nat
  size : Nat

/-- The characters that start no block: in a long text, those that make up more than a hundredth
of it (and one more). -/
def frequentChars (s : Text) : List Char :=
  if s.length < 200 then []
  else s.eraseDups.filter fun c => s.length / 100 + 1 < s.count c

/-- Extends the runs that end at the previous character of the left text by the character `a`:
one entry per place of the right text. -/
def extendRuns (frequent : List Char) (a : Char) : Nat → Text → List Nat → List Nat
  | _, [], _ => []
  | before, c :: s, runs =>
      (if a == c && !frequent.contains c then before + 1 else 0) ::
        extendRuns frequent a (runs.headD 0) s runs.tail

/-- The best block so far after a row of runs that end at the left place `i`. -/
def bestOfRow (i : Nat) : Nat → List Nat → Block → Block
  | _, [], best => best
  | j, run :: runs, best =>
      bestOfRow i (j + 1) runs
        (if best.size < run then ⟨i + 1 - run, j + 1 - run, run⟩ else best)

def bestOfRows (frequent : List Char) (right : Text) : Nat → Text → List Nat → Block → Block
  | _, [], _, best => best
  | i, a :: left, runs, best =>
      let row := extendRuns frequent a 0 right runs
      bestOfRows frequent right (i + 1) left row (bestOfRow i 0 row best)

def commonStart : Text → Text → Nat
  | a :: s, c :: t => if a = c then commonStart s t + 1 else 0
  | _, _ => 0

/-- The longest block of characters that are not frequent, grown on both sides by any characters
that agree. Of equally long blocks it is the first on the left, then the first on the right. -/
def longestBlock (frequent : List Char) (left right : Text) : Block :=
  let best := bestOfRows frequent right 0 left [] ⟨0, 0, 0⟩
  let before := commonStart (left.take best.left).reverse (right.take best.right).reverse
  let after := commonStart (left.drop (best.left + best.size)) (right.drop (best.right + best.size))
  ⟨best.left - before, best.right - before, before + best.size + after⟩

/-- The number of characters in matching blocks; `fuel` bounds the nesting of blocks. -/
def matchedWithin (frequent : List Char) : Nat → Text → Text → Nat
  | 0, _, _ => 0
  | fuel + 1, left, right =>
      let block := longestBlock frequent left right
      if block.size = 0 then 0
      else
        matchedWithin frequent fuel (left.take block.left) (right.take block.right) + block.size +
          matchedWithin frequent fuel (left.drop (block.left + block.size))
            (right.drop (block.right + block.size))

def matched (left right : Text) : Nat :=
  matchedWithin (frequentChars right) (left.length + 1) left right

/-- How alike two texts are: the fraction `2 * matched / total`, kept as numerator and
denominator. Two empty texts are equal. -/
structure Likeness where
  matched : Nat
  total : Nat

def Likeness.of (left right : Text) : Likeness :=
  if left.length + right.length = 0 then ⟨1, 2⟩
  else ⟨Text.matched left right, left.length + right.length⟩

def Likeness.isClose (l : Likeness) : Bool := 3 * l.total ≤ 10 * l.matched

/-- Whether a candidate with its likeness comes before another: more alike, or equally alike and
the greater text. -/
def Likeness.beats (l m : Likeness × Text) : Bool :=
  m.1.matched * l.1.total < l.1.matched * m.1.total ||
    (m.1.matched * l.1.total == l.1.matched * m.1.total && le m.2 l.2)

/-- The candidate that is most like `s`, if one is close to it. -/
def nearest? (s : Text) (candidates : List Text) : Option Text :=
  ((candidates.map fun t => (Likeness.of t s, t)).filter (·.1.isClose)).foldl
    (fun best l => match best with
      | some b => if Likeness.beats l b then some l else best
      | none => some l) none
  |>.map (·.2)

end StaticSite.Text
