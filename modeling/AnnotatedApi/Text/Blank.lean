/-
  Blank characters, and the two things blanks decide: where a text is trimmed and where it
  falls apart into words. `isBlank` is Unicode's white space with the four information
  separators U+001C to U+001F counted in.
-/
import AnnotatedApi.Text.Span

namespace AnnotatedApi.Text

/-- The blank characters beyond ASCII. -/
def wideBlanks : List Span :=
  [(0x85, 0x85), (0xA0, 0xA0), (0x1680, 0x1680), (0x2000, 0x200A), (0x2028, 0x2029),
   (0x202F, 0x202F), (0x205F, 0x205F), (0x3000, 0x3000)]

def isBlank (c : Char) : Bool :=
  let n := c.toNat
  if n < 128 then (9 ≤ n && n ≤ 13) || (28 ≤ n && n ≤ 32) else within wideBlanks n

/-- Blanks at the front removed. -/
def trimLeft (s : List Char) : List Char := s.dropWhile isBlank

/-- Blanks at the back removed. -/
def trimRight : List Char → List Char
  | [] => []
  | c :: s =>
    match trimRight s with
    | [] => if isBlank c then [] else [c]
    | t => c :: t

def trim (s : List Char) : List Char := trimRight (trimLeft s)

/-- The words read so far, the first one still growing: `word` holds its characters. -/
def wordsFrom (word : List Char) : List Char → List (List Char)
  | [] => if word.isEmpty then [] else [word.reverse]
  | c :: s =>
    if isBlank c then
      if word.isEmpty then wordsFrom [] s else word.reverse :: wordsFrom [] s
    else wordsFrom (c :: word) s

/-- The maximal runs of characters that are not blank. -/
def words (s : List Char) : List (List Char) := wordsFrom [] s

end AnnotatedApi.Text
