/-
  Reading scalars: quoted ones with escapes and folded lines, plain ones, which end at an
  indicator, a comment or a line that is indented too little, and block scalars with their
  header. Each reader starts behind the opening indicator and gives the content and the place
  after the scalar.
-/
import AnnotatedApi.Text.Digit
import AnnotatedApi.Yaml.Token

namespace AnnotatedApi.Yaml

/-- The line breaks of the empty lines that follow a line break in a quoted scalar. -/
def flowBreaks : Nat → Cursor → Except Fault (List Char × Cursor)
  | 0, _ => .error .malformed
  | fuel + 1, p =>
    if p.atSeparator then .error .malformed
    else
      let p := p.skipBlanks
      match p.lineBreak with
      | none => .ok ([], p)
      | some (c, q) => do
        let (cs, q) ← flowBreaks fuel q
        return (c :: cs, q)

/-- What a line break followed by `breaks` more stands for in a folded scalar. -/
def folded (c : Char) (breaks : List Char) : List Char :=
  (if c ≠ '\n' then [c] else if breaks.isEmpty then [' '] else []) ++ breaks

/-- The character that a one-letter escape stands for. -/
def escape? (c : Char) : Option Char :=
  [('0', '\x00'), ('a', '\x07'), ('b', '\x08'), ('t', '\t'), ('\t', '\t'), ('n', '\n'),
   ('v', '\x0b'), ('f', '\x0c'), ('r', '\r'), ('e', '\x1b'), (' ', ' '), ('"', '"'),
   ('\\', '\\'), ('/', '/'), ('N', '\x85'), ('_', '\xa0'), ('L', '\u2028'),
   ('P', '\u2029')].lookup c

/-- The number of digits that a numeric escape has. -/
def escapeWidth? (c : Char) : Option Nat := [('x', 2), ('u', 4), ('U', 8)].lookup c

/-- The code point that `width` hexadecimal digits spell. -/
def hexPoint? (width : Nat) (s : List Char) : Option Nat :=
  let ds := s.take width
  if ds.length = width then (ds.mapM Text.hexValue?).map (Text.ofDigits 16) else none

/-- A code point that an escape spells. A number beyond the last code point is refused, and one
that does not fit a signed word of 32 bits is not even compared with it. -/
def codePoint (n : Nat) : Except Fault Nat :=
  if n < 0x110000 then .ok n
  else if n < 0x80000000 then .error .invalidNumber
  else .error .overflow

/-- What an escape sequence in double quotes stands for; `p` is behind the backslash. -/
def escapeSequence (fuel : Nat) (p : Cursor) : Except Fault (List Nat × Cursor) :=
  match p.rest with
  | [] => .error .malformed
  | c :: s =>
    match escape? c, escapeWidth? c with
    | some e, _ => .ok ([e.toNat], p.next)
    | none, some width =>
      match hexPoint? width s with
      | none => .error .malformed
      | some n => do return ([← codePoint n], p.skip (c :: s.take width))
    | none, none =>
      match p.lineBreak with
      | none => .error .malformed
      | some (_, q) => do
        let (breaks, q) ← flowBreaks fuel q
        return (breaks.map Char.toNat, q)

/-- The rest of a quoted scalar, as code points, with the closing quote read. -/
def quotedRest (double : Bool) : Nat → Cursor → Except Fault (List Nat × Cursor)
  | 0, _ => .error .malformed
  | fuel + 1, p =>
    match p.rest with
    | [] => .error .malformed
    | c :: s =>
      if c = '"' && double then .ok ([], p.next)
      else if c = '\'' && !double then
        if s.head? = some '\'' then do
          let (ns, q) ← quotedRest double fuel p.next.next
          return ('\''.toNat :: ns, q)
        else .ok ([], p.next)
      else if c = '\\' && double then do
        let (ns, q) ← escapeSequence fuel p.next
        let (ms, q) ← quotedRest double fuel q
        return (ns ++ ms, q)
      else if isGap c then do
        let (blanks, q) := p.run fun c => c = ' ' || c = '\t'
        match q.lineBreak with
        | some (b, q) =>
          let (breaks, q) ← flowBreaks fuel q
          let (ms, q) ← quotedRest double fuel q
          return ((folded b breaks).map Char.toNat ++ ms, q)
        | none =>
          let (ms, q) ← quotedRest double fuel q
          return (blanks.map Char.toNat ++ ms, q)
      else do
        let (ns, q) ← quotedRest double fuel p.next
        return (c.toNat :: ns, q)

def quotedScalar (double : Bool) (p : Cursor) : Except Fault (Content × Cursor) := do
  let (ns, q) ← quotedRest double (p.left + 1) p
  return (Content.ofPoints ns, q)

/-- Characters that a plain scalar in a flow collection cannot hold. -/
def isFlowIndicator (c : Char) : Bool :=
  c = ',' || c = '[' || c = ']' || c = '\x7b' || c = '\x7d'

/-- The characters of a plain scalar up to a blank or an indicator. -/
def plainRun (flow : Bool) : List Char → List Char
  | [] => []
  | c :: s =>
    if isGap c || (c = ':' && endOr (fun d => isGap d || (flow && isFlowIndicator d)) s) ||
        (flow && (isFlowIndicator c || c = '?')) then []
    else c :: plainRun flow s

/-- The line breaks after the first one between two lines of a plain scalar; nothing if a
document separator follows. -/
def plainBreaks : Nat → Cursor → Option (List Char) × Cursor
  | 0, p => (some [], p)
  | fuel + 1, p =>
    let p := p.skipSpaces
    match p.lineBreak with
    | none => (some [], p)
    | some (c, q) =>
      if q.atSeparator then (none, q)
      else
        let (breaks, q) := plainBreaks fuel q
        (breaks.map (c :: ·), q)

/-- The space between two runs of a plain scalar: the characters it stands for, the place
behind it, and whether it went over a line break. -/
def plainGap (p : Cursor) : List Char × Cursor × Bool :=
  let (blanks, q) := p.run (· = ' ')
  match q.lineBreak with
  | none => (blanks, q, false)
  | some (c, q) =>
    if q.atSeparator then ([], q, true)
    else
      let (breaks, q) := plainBreaks q.left q
      match breaks with
      | none => ([], q, true)
      | some cs => (folded c cs, q, true)

/-- A plain scalar from `p` on: its characters, the place behind it and the space after it, and
whether that space went over a line break. -/
def plainRest (flow : Bool) (indent : Int) (newLine : Bool) :
    Nat → Cursor → List Char × Cursor × Bool
  | 0, p => ([], p, newLine)
  | fuel + 1, p =>
    let run := plainRun flow p.rest
    if p.sees '#' || run.isEmpty then ([], p, newLine)
    else
      let (gap, q, wrapped) := plainGap (p.skip run)
      if gap.isEmpty || q.sees '#' || (!flow && (q.column : Int) < indent) then (run, q, wrapped)
      else
        let (more, r, wrapped) := plainRest flow indent wrapped fuel q
        if more.isEmpty then (run, r, wrapped) else (run ++ gap ++ more, r, wrapped)

def plainScalar (flow : Bool) (indent : Int) (p : Cursor) : List Char × Cursor × Bool :=
  plainRest flow indent false (p.left + 1) p

/-- What is done with the line breaks at the end of a block scalar. -/
inductive Chomping where
  | clip
  | strip
  | keep

structure BlockHeader where
  chomping : Chomping
  increment : Option Nat

def chomping? (c : Char) : Option Chomping :=
  if c = '+' then some .keep else if c = '-' then some .strip else none

/-- The indicators behind the bar or the angle of a block scalar. -/
def blockHeader (p : Cursor) : Except Fault (BlockHeader × Cursor) := do
  let increment (p : Cursor) : Except Fault (Option Nat × Cursor) :=
    match p.peek with
    | some c =>
      if Text.isAsciiDigit c then
        if c = '0' then .error .malformed else .ok (some (c.toNat - 48), p.next)
      else .ok (none, p)
    | none => .ok (none, p)
  let (header, q) ← match p.peek.bind chomping? with
    | some ch => do
      let (n, q) ← increment p.next
      pure (⟨ch, n⟩, q)
    | none => do
      let (n, q) ← increment p
      match if n.isSome then q.peek.bind chomping? else none with
      | some ch => pure (⟨ch, n⟩, q.next)
      | none => pure (⟨.clip, n⟩, q)
  match q.commentLine? with
  | some r =>
    if q.rest.head?.all fun c => c = ' ' || isBreak c then .ok (header, r) else .error .malformed
  | none => .error .malformed

/-- The empty lines at the start of a block scalar whose indentation is not given, and the
deepest column among them. -/
def leadingBreaks : Nat → Nat → Cursor → List Char × Nat × Cursor
  | 0, deepest, p => ([], deepest, p)
  | fuel + 1, deepest, p =>
    let p := p.skipSpaces
    let deepest := max deepest p.column
    match p.lineBreak with
    | none => ([], deepest, p)
    | some (c, q) =>
      let (cs, deepest, q) := leadingBreaks fuel deepest q
      (c :: cs, deepest, q)

/-- Up to the column `indent` over spaces. -/
def indentTo (indent : Nat) (p : Cursor) : Cursor :=
  p.skip ((p.rest.takeWhile (· = ' ')).take (indent - p.column))

/-- The line breaks of empty lines, and the place in the next line at `indent` at most. -/
def blockBreaks (indent : Nat) : Nat → Cursor → List Char × Cursor
  | 0, p => ([], p)
  | fuel + 1, p =>
    let p := indentTo indent p
    match p.lineBreak with
    | none => ([], p)
    | some (c, q) =>
      let (cs, q) := blockBreaks indent fuel q
      (c :: cs, q)

/-- Whether a line of a block scalar with indentation `indent` starts here. -/
def inBlock (indent : Nat) (p : Cursor) : Bool := p.column = indent && !p.rest.isEmpty

/-- The end of a block scalar: the last line break and the empty lines after it. -/
def chomped (chomping : Chomping) (last breaks : List Char) : List Char :=
  match chomping with
  | .strip => []
  | .clip => last
  | .keep => last ++ breaks

/-- The lines of a block scalar from `p` on, where a line starts. -/
def blockLines (fold : Bool) (chomping : Chomping) (indent : Nat) :
    Nat → Cursor → List Char × Cursor
  | 0, p => ([], p)
  | fuel + 1, p =>
    let indented (p : Cursor) := p.sees ' ' || p.sees '\t'
    let (line, q) := p.run fun c => !isBreak c
    let (last, q) := match q.lineBreak with
      | some (c, q) => ([c], q)
      | none => ([], q)
    let (breaks, q) := blockBreaks indent (q.left + 1) q
    if inBlock indent q then
      let between :=
        if fold && last = ['\n'] && !indented p && !indented q then
          if breaks.isEmpty then [' '] else []
        else last
      let (more, q) := blockLines fold chomping indent fuel q
      (line ++ between ++ breaks ++ more, q)
    else (line ++ chomped chomping last breaks, q)

/-- A block scalar in a block that is indented to `parent`. -/
def blockScalar (fold : Bool) (parent : Int) (p : Cursor) : Except Fault (List Char × Cursor) := do
  let (header, p) ← blockHeader p
  let least := (parent + 1).toNat.max 1
  let fuel := p.left + 1
  let (breaks, indent, q) := match header.increment with
    | none =>
      let (breaks, deepest, q) := leadingBreaks fuel 0 p
      (breaks, max least deepest, q)
    | some n =>
      let indent := least + n - 1
      let (breaks, q) := blockBreaks indent fuel p
      (breaks, indent, q)
  if inBlock indent q then
    let (lines, q) := blockLines fold header.chomping indent fuel q
    return (breaks ++ lines, q)
  else return (chomped header.chomping [] breaks, q)

end AnnotatedApi.Yaml
