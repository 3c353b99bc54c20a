/-
  From text to tokens. A scalar that turns out to be the key of a mapping gets its key token,
  and the start of the block if it opens one, after the fact: the place where it starts is kept
  as a candidate until the colon behind it is met. The tokens end with the end of the stream, or
  with the fault that keeps the text from being read further; a token in front of which a key
  token may still have to go is not given before the text behind it is read.
-/
import AnnotatedApi.Yaml.Scalar

namespace AnnotatedApi.Yaml

/-- A place where the key of a mapping may have started. -/
structure KeyStart where
  token : Nat  -- the number of tokens before it
  required : Bool
  index : Nat
  line : Nat
  column : Nat

structure Lexer where
  cursor : Cursor
  tokens : List Token  -- the last one first
  count : Nat
  indent : Int
  indents : List Int
  keyAllowed : Bool
  key : Option KeyStart  -- the candidate in the innermost collection
  outerKeys : List (Option KeyStart)  -- those of the flow collections around it
  done : Bool

/-- `x` placed under the first `n` elements. -/
def insertUnder (x : Token) : Nat → List Token → List Token
  | 0, l => x :: l
  | _ + 1, [] => [x]
  | n + 1, y :: l => y :: insertUnder x n l

namespace Lexer

def start (s : List Char) : Lexer :=
  ⟨Cursor.start s, [], 0, -1, [], true, none, [], false⟩

/-- Whether the cursor is inside a flow collection. -/
def flow (x : Lexer) : Bool := !x.outerKeys.isEmpty

def emit (t : Token) (x : Lexer) : Lexer :=
  { x with tokens := t :: x.tokens, count := x.count + 1 }

/-- The token `t` put in front of the token number `n`. -/
def emitAt (n : Nat) (t : Token) (x : Lexer) : Lexer :=
  { x with tokens := insertUnder t (x.count - n) x.tokens, count := x.count + 1 }

def moveTo (p : Cursor) (x : Lexer) : Lexer := { x with cursor := p }

def allowKey (b : Bool) (x : Lexer) : Lexer := { x with keyAllowed := b }

/-- Whether a candidate is given up: a key stays on one line and within 1024 characters. -/
def stale (x : Lexer) (k : KeyStart) : Bool :=
  k.line ≠ x.cursor.line || 1024 < x.cursor.index - k.index

/-- A candidate after a look at its age; one that had to be a key must not be given up. -/
def aged (x : Lexer) : Option KeyStart → Except Fault (Option KeyStart)
  | none => .ok none
  | some k => if x.stale k then if k.required then .error .malformed else .ok none else .ok (some k)

def dropStale (x : Lexer) : Except Fault Lexer := do
  let key ← x.aged x.key
  let outer ← x.outerKeys.mapM x.aged
  return { x with key := key, outerKeys := outer }

/-- The candidate of the innermost collection given up. -/
def dropKey (x : Lexer) : Except Fault Lexer :=
  if x.key.any (·.required) then .error .malformed else .ok { x with key := none }

/-- The token that comes next noted as a candidate, if a key may stand here. -/
def noteKey (x : Lexer) : Except Fault Lexer := do
  if x.keyAllowed then
    let x ← x.dropKey
    let p := x.cursor
    let required := !x.flow && x.indent = (p.column : Int)
    return { x with key := some ⟨x.count, required, p.index, p.line, p.column⟩ }
  else return x

/-- Blocks closed that are indented deeper than `column`. -/
def unwind (column : Int) : List Int → Lexer → Lexer
  | [], x => x
  | i :: is, x =>
    if column < x.indent then
      unwind column is
        { x with indent := i, indents := is, tokens := .blockEnd :: x.tokens, count := x.count + 1 }
    else x

def unwindTo (column : Int) (x : Lexer) : Lexer :=
  if x.flow then x else unwind column x.indents x

/-- A block opened at `column`, if that is deeper than the current one. -/
def opened (column : Nat) (x : Lexer) : Option Lexer :=
  if x.indent < (column : Int) then
    some { x with indents := x.indent :: x.indents, indent := column }
  else none

/-- Over blanks, comments and line breaks to the next token. -/
def toNextToken : Nat → Lexer → Lexer
  | 0, x => x
  | fuel + 1, x =>
    let p := x.cursor.skipSpaces
    let p := if p.sees '#' then p.skipLine else p
    match p.lineBreak with
    | some (_, q) =>
      toNextToken fuel { x with cursor := q, keyAllowed := x.keyAllowed || !x.flow }
    | none => x.moveTo p

def isNameChar (c : Char) : Bool := c.isAlphanum || c = '-' || c = '_'

def isUriChar (c : Char) : Bool := c.isAlphanum || "-;/?:@&=+$,_.!~*'()[]%".toList.contains c

/-- Bytes spelled by percent signs, each with two hexadecimal digits. -/
def percentBytes : List Char → Option (List UInt8 × List Char)
  | '%' :: a :: b :: s => do
    let h ← Text.hexValue? a
    let l ← Text.hexValue? b
    let (bs, rest) ← percentBytes s
    return (UInt8.ofNat (16 * h + l) :: bs, rest)
  | '%' :: _ => none
  | s => some ([], s)

/-- The characters of a URI up to the first that cannot stand in one. -/
def uriRun : Nat → List Char → Option (List Char × List Char)
  | 0, _ => none
  | fuel + 1, s =>
    match s with
    | '%' :: _ => do
      let (bs, rest) ← percentBytes s
      let text ← String.fromUTF8? (ByteArray.mk bs.toArray)
      let (more, rest) ← uriRun fuel rest
      return (text.toList ++ more, rest)
    | c :: t =>
      if isUriChar c then do
        let (more, rest) ← uriRun fuel t
        return (c :: more, rest)
      else some ([], s)
    | [] => some ([], [])

def uri (p : Cursor) : Except Fault (List Char × Cursor) :=
  match uriRun (p.left + 1) p.rest with
  | some (text, rest) =>
    let used := p.rest.length - rest.length
    if used = 0 then .error .malformed else .ok (text, p.skip (p.rest.take used))
  | none => .error .malformed

/-- The handle of a tag: one exclamation mark, or a name between two. -/
def tagHandle (p : Cursor) : Except Fault (List Char × Cursor) :=
  match p.rest with
  | '!' :: s =>
    if s.head? = some ' ' then .ok (['!'], p.next)
    else
      let name := s.takeWhile isNameChar
      if (s.drop name.length).head? = some '!' then
        let handle := '!' :: (name ++ ['!'])
        .ok (handle, p.skip handle)
      else .error .malformed
  | _ => .error .malformed

/-- Whether the cursor is at the end of a word in a directive or a tag. -/
def wordEnds (p : Cursor) : Bool := endOr (fun c => c = ' ' || isBreak c) p.rest

def require (ok : Bool) : Except Fault Unit := if ok then .ok () else .error .malformed

def versionNumber (p : Cursor) : Except Fault (Nat × Cursor) := do
  let (ds, q) := p.run Text.isAsciiDigit
  require !ds.isEmpty
  if 4300 < ds.length then .error .invalidNumber
  else return (Text.ofDigits 10 (ds.map fun c => c.toNat - 48), q)

/-- A directive; the cursor is behind the percent sign. -/
def directive (p : Cursor) : Except Fault (Directive × Cursor) := do
  let (name, p) := p.run isNameChar
  require (!name.isEmpty && wordEnds p)
  let (d, p) ←
    if name = "YAML".toList then do
      let (major, p) ← versionNumber p.skipSpaces
      require (p.sees '.')
      let (_, p) ← versionNumber p.next
      require (wordEnds p)
      pure (Directive.version major, p)
    else if name = "TAG".toList then do
      let (handle, p) ← tagHandle p.skipSpaces
      require (p.sees ' ')
      let (text, p) ← uri p.skipSpaces
      require (wordEnds p)
      pure (Directive.tag handle text, p)
    else pure (Directive.unknown, p.skipLine)
  match p.commentLine? with
  | some p => return (d, p)
  | none => .error .malformed

/-- A tag; the cursor is at its exclamation mark. -/
def tagToken (p : Cursor) : Except Fault (Token × Cursor) := do
  let s := p.rest.drop 1
  let (t, q) ←
    if s.head? = some '<' then do
      let (text, q) ← uri p.next.next
      require (q.sees '>')
      pure (Token.tag none text, q.next)
    else if endOr isGap s then pure (Token.tag none ['!'], p.next)
    else do
      let word := s.takeWhile fun c => !(c = ' ' || isBreak c)
      let (handle, q) ← if word.contains '!' then tagHandle p else pure (['!'], p.next)
      let (text, q) ← uri q
      pure (Token.tag (some handle) text, q)
  require (wordEnds q)
  return (t, q)

/-- The name behind the mark of an anchor or an alias. -/
def anchorName (p : Cursor) : Except Fault (List Char × Cursor) := do
  let (name, q) := p.run isNameChar
  require (!name.isEmpty && endOr (fun c => isGap c || "?:,]\x7d%@`".toList.contains c) q.rest)
  return (name, q)

/-- A token that opens a flow collection. -/
def openFlow (t : Token) (x : Lexer) : Except Fault Lexer := do
  let x ← x.noteKey
  let x := { x with key := none, outerKeys := x.key :: x.outerKeys, keyAllowed := true }
  return (x.moveTo x.cursor.next).emit t

/-- A token that closes a flow collection. -/
def closeFlow (t : Token) (x : Lexer) : Except Fault Lexer := do
  let x ← x.dropKey
  match x.outerKeys with
  | [] => .error .malformed
  | k :: ks =>
    return { x with key := k, outerKeys := ks, keyAllowed := false }.moveTo x.cursor.next |>.emit t

/-- An indicator that stands where a block may open: the token `block` opens it. -/
def indicator (block t : Token) (keyAfter : Bool) (x : Lexer) : Except Fault Lexer := do
  let x ←
    if x.flow then pure x
    else if x.keyAllowed then
      pure (match x.opened x.cursor.column with
        | some y => y.emit block
        | none => x)
    else .error .malformed
  let x ← (x.allowKey keyAfter).dropKey
  return (x.moveTo x.cursor.next).emit t

/-- A colon: the end of the candidate key, if there is one. -/
def colon (x : Lexer) : Except Fault Lexer :=
  match x.key with
  | some k =>
    let y := { x with key := none, keyAllowed := false }.emitAt k.token .key
    let y :=
      if x.flow then y
      else
        match y.opened k.column with
        | some z => z.emitAt k.token .blockMapping
        | none => y
    .ok ((y.moveTo x.cursor.next).emit .value)
  | none => x.indicator .blockMapping .value !x.flow

/-- A token that may start a key and after which none may start. -/
def keyed (read : Cursor → Except Fault (Token × Cursor)) (x : Lexer) : Except Fault Lexer := do
  let x ← x.noteKey
  let (t, p) ← read x.cursor
  return ((x.allowKey false).moveTo p).emit t

def plain (x : Lexer) : Except Fault Lexer := do
  let x ← x.noteKey
  let (s, p, newLine) := plainScalar x.flow (x.indent + 1) x.cursor
  return ((x.allowKey newLine).moveTo p).emit (.scalar (.text s) true)

def block (fold : Bool) (x : Lexer) : Except Fault Lexer := do
  let x ← x.dropKey
  let (s, p) ← blockScalar fold x.indent x.cursor.next
  return ((x.allowKey true).moveTo p).emit (.scalar (.text s) false)

/-- All blocks closed and no key open. -/
def settled (x : Lexer) : Except Fault Lexer := do
  let x ← (x.unwindTo (-1)).dropKey
  return x.allowKey false

/-- Whether a plain scalar may start with `c` before `s`. -/
def startsPlain (flow : Bool) (c : Char) (s : List Char) : Bool :=
  !(isGap c || "-?:,[]\x7b\x7d#&*!|>'\"%@`".toList.contains c) ||
    (!endOr isGap s && (c = '-' || (!flow && (c = '?' || c = ':'))))

/-- The token at the cursor, which stands on no blank. -/
def token (c : Char) (s : List Char) (x : Lexer) : Except Fault Lexer :=
  let p := x.cursor
  let documentMark (t : Token) : Except Fault Lexer := do
    let x ← x.settled
    return (x.moveTo p.next.next.next).emit t
  if c = '%' && p.column = 0 then do
    let x ← x.settled
    let (d, q) ← directive p.next
    return (x.moveTo q).emit (.directive d)
  else if p.column = 0 && p.atMark '-' then documentMark .documentStart
  else if p.column = 0 && p.atMark '.' then documentMark .documentEnd
  else if c = '[' then x.openFlow .flowSequence
  else if c = '\x7b' then x.openFlow .flowMapping
  else if c = ']' then x.closeFlow .flowSequenceEnd
  else if c = '\x7d' then x.closeFlow .flowMappingEnd
  else if c = ',' then do
    let x ← (x.allowKey true).dropKey
    return (x.moveTo p.next).emit .flowEntry
  else if c = '-' && endOr isGap s then x.indicator .blockSequence .blockEntry true
  else if c = '?' && (x.flow || endOr isGap s) then x.indicator .blockMapping .key !x.flow
  else if c = ':' && (x.flow || endOr isGap s) then x.colon
  else if c = '*' then
    x.keyed fun p => do
      let (name, q) ← anchorName p.next
      return (.alias name, q)
  else if c = '&' then
    x.keyed fun p => do
      let (name, q) ← anchorName p.next
      return (.anchor name, q)
  else if c = '!' then x.keyed tagToken
  else if c = '|' && !x.flow then x.block false
  else if c = '>' && !x.flow then x.block true
  else if c = '\'' || c = '"' then
    x.keyed fun p => do
      let (content, q) ← quotedScalar (c = '"') p.next
      return (.scalar content false, q)
  else if startsPlain x.flow c s then x.plain
  else .error .malformed

/-- The next token and what goes with it. -/
def step (x : Lexer) : Except Fault Lexer := do
  let x := toNextToken (x.cursor.left + 1) x
  let x ← x.dropStale
  let x := x.unwindTo x.cursor.column
  match x.cursor.rest with
  | [] =>
    let x ← x.settled
    return { x with done := true }
  | c :: s => x.token c s

/-- The number of tokens whose place is certain: those before the first place where a key may
have started. -/
def certain (x : Lexer) : Nat :=
  (x.key :: x.outerKeys).foldl
    (fun n k =>
      match k with
      | some k => if x.stale k then n else min n k.token
      | none => n)
    x.count

/-- The tokens that can be given when the text cannot be read further, and the fault. -/
def brokenOff (f : Fault) (x : Lexer) : List Token :=
  (Token.fault f :: x.tokens.drop (x.count - x.certain)).reverse

/-- All tokens, in order. -/
def run : Nat → Lexer → List Token
  | 0, x => x.brokenOff .malformed
  | fuel + 1, x =>
    match x.step with
    | .error f => x.brokenOff f
    | .ok y => if y.done then (Token.streamEnd :: y.tokens).reverse else run fuel y

end Lexer

/-- The tokens of a text. A byte order mark at its start says nothing. -/
def tokens (s : List Char) : List Token :=
  let p := Cursor.start s
  let x := Lexer.start s
  (if p.sees '\uFEFF' then x.moveTo p.next else x).run (s.length + 2)

end AnnotatedApi.Yaml
