/-
  How alike two words are: the characters in common blocks, counted in both words, as a share of
  all their characters. The blocks are found from the longest common run outwards, on either
  side of it. `closest` picks the candidates that are alike enough to be taken for a slip.
-/

namespace AnnotatedApi.Text

/-- The length of the common start of two texts. -/
def commonStart : List Char → List Char → Nat
  | c :: s, d :: t => if c = d then commonStart s t + 1 else 0
  | _, _ => 0

/-- A run of characters that two texts have in common: where it starts in each, and its length. -/
structure CommonRun where
  left : Nat
  right : Nat
  length : Nat

/-- The longest run that starts at the front of `s` and somewhere in the other text, which is
seen from its place `j` on. Of equally long ones the first. -/
def longestFrom (s : List Char) (j : Nat) : List Char → CommonRun
  | [] => ⟨0, j, 0⟩
  | d :: t =>
    let here := commonStart s (d :: t)
    let later := longestFrom s (j + 1) t
    if here < later.length then later else ⟨0, j, here⟩

/-- The longest run of two texts; of equally long ones the first in the first text, then the
first in the second. -/
def longestRun : List Char → List Char → CommonRun
  | [], _ => ⟨0, 0, 0⟩
  | c :: s, t =>
    let here := longestFrom (c :: s) 0 t
    let later := longestRun s t
    if here.length < later.length then { later with left := later.left + 1 } else here

/-- The number of characters in common blocks: the longest run, then those before it and those
behind it. Each block takes a character of the first text, which bounds their number. -/
def matched : Nat → List Char → List Char → Nat
  | 0, _, _ => 0
  | fuel + 1, s, t =>
    let run := longestRun s t
    if run.length = 0 then 0
    else
      run.length + matched fuel (s.take run.left) (t.take run.right) +
        matched fuel (s.drop (run.left + run.length)) (t.drop (run.right + run.length))

/-- How alike two words are, as a fraction. -/
structure Likeness where
  common : Nat
  total : Nat

namespace Likeness

def of (s t : List Char) : Likeness := ⟨2 * matched s.length s t, s.length + t.length⟩

def le (a b : Likeness) : Bool := a.common * b.total ≤ b.common * a.total

/-- The least likeness of a slip: three fifths. -/
def least : Likeness := ⟨3, 5⟩

end Likeness

/-- The three candidates at most that are most like a word, the best first; of equally good ones
the greater text comes first. -/
def closest (word : List Char) (candidates : List String) : List String :=
  let rated := candidates.map fun c => (Likeness.of c.toList word, c)
  let alike := rated.filter fun r => Likeness.least.le r.1
  let better (a b : Likeness × String) : Bool :=
    if a.1.le b.1 then b.1.le a.1 && b.2 ≤ a.2 else true
  ((alike.mergeSort better).take 3).map Prod.snd

end AnnotatedApi.Text
