/-
  A place in a YAML text: what is still to be read, and how far in the text, in its lines and
  in the current line the place is. A byte order mark takes no column. The length of the text
  goes along, so that what is left need not be counted.
-/

namespace AnnotatedApi.Yaml

/-- Why a text has no value. Only `malformed` is an error of the format itself, and `endless` is the
limit of this reader: values are finite, and one that contains itself is none. The others come from
scalars that resolve to a type whose notation they do not keep to. -/
inductive Fault where
  | malformed
  | endless
  | invalidNumber
  | noDigits
  | unknownTruth
  | notATimestamp
  | timestampOfMapping
  | overflow
deriving DecidableEq

/-- Characters that end a line. -/
def isBreak (c : Char) : Bool :=
  c = '\n' || c = '\r' || c = '\x85' || c = '\u2028' || c = '\u2029'

/-- Characters that end a line, blanks and tabs. -/
def isGap (c : Char) : Bool := c = ' ' || c = '\t' || isBreak c

/-- Characters that a YAML text may hold. -/
def isAllowed (c : Char) : Bool :=
  let n := c.toNat
  n = 9 || n = 10 || n = 13 || (0x20 ≤ n && n ≤ 0x7E) || n = 0x85 ||
    (0xA0 ≤ n && n ≤ 0xFFFD) || 0x10000 ≤ n

/-- Whether the text is at its end or before a character of the class. -/
def endOr (p : Char → Bool) (s : List Char) : Bool :=
  match s with
  | [] => true
  | c :: _ => p c

structure Cursor where
  rest : List Char
  index : Nat
  line : Nat
  column : Nat
  length : Nat

namespace Cursor

def start (s : List Char) : Cursor := ⟨s, 0, 0, 0, s.length⟩

/-- The number of characters from here to the end of the text. -/
def left (p : Cursor) : Nat := p.length - p.index

def peek (p : Cursor) : Option Char := p.rest.head?

/-- Whether the next character is `c`. -/
def sees (p : Cursor) (c : Char) : Bool := p.peek = some c

/-- One character further. -/
def next (p : Cursor) : Cursor :=
  match p.rest with
  | [] => p
  | c :: s =>
    if isBreak c && !(c = '\r' && s.head? = some '\n') then
      ⟨s, p.index + 1, p.line + 1, 0, p.length⟩
    else ⟨s, p.index + 1, p.line, if c = '\uFEFF' then p.column else p.column + 1, p.length⟩

/-- Behind `run`, which is the start of the rest and holds no line break. -/
def skip (p : Cursor) (run : List Char) : Cursor :=
  ⟨p.rest.drop run.length, p.index + run.length, p.line,
    p.column + (run.filter (· ≠ '\uFEFF')).length, p.length⟩

/-- The characters of a class without line breaks, up to the first that is not in it. -/
def run (ok : Char → Bool) (p : Cursor) : List Char × Cursor :=
  let s := p.rest.takeWhile ok
  (s, p.skip s)

def skipSpaces (p : Cursor) : Cursor := (p.run (· = ' ')).2

def skipBlanks (p : Cursor) : Cursor := (p.run fun c => c = ' ' || c = '\t').2

/-- To the end of the line. -/
def skipLine (p : Cursor) : Cursor := (p.run fun c => !isBreak c).2

/-- The line break at the cursor, as the character it is read as, and the place behind it. -/
def lineBreak (p : Cursor) : Option (Char × Cursor) :=
  match p.rest with
  | '\r' :: '\n' :: s => some ('\n', ⟨s, p.index + 2, p.line + 1, 0, p.length⟩)
  | c :: _ =>
    if c = '\u2028' || c = '\u2029' then some (c, p.next)
    else if isBreak c then some ('\n', p.next)
    else none
  | [] => none

/-- Whether a line that starts or ends a document begins here. -/
def atMark (mark : Char) (p : Cursor) : Bool :=
  match p.rest with
  | a :: b :: c :: s => a = mark && b = mark && c = mark && endOr isGap s
  | _ => false

def atSeparator (p : Cursor) : Bool := p.atMark '-' || p.atMark '.'

/-- The rest of a line that may hold a comment only, with its line break. -/
def commentLine? (p : Cursor) : Option Cursor :=
  let p := p.skipSpaces
  let p := if p.sees '#' then p.skipLine else p
  match p.lineBreak with
  | some (_, q) => some q
  | none => if p.rest.isEmpty then some p else none

end Cursor

end AnnotatedApi.Yaml
