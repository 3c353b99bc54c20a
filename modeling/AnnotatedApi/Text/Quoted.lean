/-
  A text as a quoted literal, on one line and in printable characters. Single quotes enclose
  it, unless it holds a single quote and no double quote.
-/
import AnnotatedApi.Text.Digit
import AnnotatedApi.Text.Printable

namespace AnnotatedApi.Text

/-- The escape of a code point by the shortest of the three numeric forms. -/
def escapedPoint (n : Nat) : List Char :=
  if n < 0x100 then '\\' :: 'x' :: hexPadded false 2 n
  else if n < 0x10000 then '\\' :: 'u' :: hexPadded false 4 n
  else '\\' :: 'U' :: hexPadded false 8 n

def quotedChar (quote c : Char) : List Char :=
  if c = quote || c = '\\' then ['\\', c]
  else if c = '\t' then ['\\', 't']
  else if c = '\n' then ['\\', 'n']
  else if c = '\r' then ['\\', 'r']
  else if isPrintable c then [c]
  else escapedPoint c.toNat

/-- The quote that encloses a text. -/
def quoteFor (s : List Char) : Char :=
  if s.contains '\'' && !s.contains '"' then '"' else '\''

def quoted (s : List Char) : List Char :=
  let q := quoteFor s
  q :: (s.flatMap (quotedChar q) ++ [q])

end AnnotatedApi.Text
