/-
  Line breaks of files. A carriage return, alone or before a line feed, is read as a line feed.
-/

namespace AnnotatedApi.Text

/-- Every line break as a line feed. -/
def unixLines : List Char → List Char
  | [] => []
  | '\r' :: '\n' :: s => '\n' :: unixLines s
  | c :: s => (if c = '\r' then '\n' else c) :: unixLines s

end AnnotatedApi.Text
