/-
  Sets of characters as lists of closed intervals of code points. The tables of the
  character classes are written in this form.
-/

namespace AnnotatedApi.Text

/-- The code points from the first number to the second, both included. -/
abbrev Span := Nat × Nat

/-- Whether the code point `n` lies in one of the intervals. -/
def within (spans : List Span) (n : Nat) : Bool :=
  spans.any fun s => s.1 ≤ n && n ≤ s.2

end AnnotatedApi.Text
