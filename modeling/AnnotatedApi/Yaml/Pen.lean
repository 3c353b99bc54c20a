/-
  A pen over the text of a document: what is written so far and where the pen stands in its
  line. Scalars are written at an indentation, and long ones are broken after column 80.
-/
import AnnotatedApi.Yaml.Style

namespace AnnotatedApi.Yaml

structure Pen where
  out : List Char := []  -- the last character first
  column : Nat := 0
  blank : Bool := true  -- whether a blank or a line break was written last
  margin : Bool := true  -- whether only blanks and list marks stand in the line so far

namespace Pen

/-- The column after which a line is broken. -/
def width : Nat := 80

def put (s : List Char) (p : Pen) : Pen :=
  { p with out := s.reverse ++ p.out, column := p.column + s.length }

/-- A line break, written with the character `c`. -/
def lineBreak (c : Char) (p : Pen) : Pen :=
  ⟨c :: p.out, 0, true, true⟩

/-- An indicator, with a blank before it if one is needed and missing. -/
def indicator (s : List Char) (needBlank blank margin : Bool) (p : Pen) : Pen :=
  let q := p.put (if p.blank || !needBlank then s else ' ' :: s)
  { q with blank := blank, margin := p.margin && margin }

/-- To the column `indent`, on a new line unless the pen stands in the margin before it. -/
def indentTo (indent : Nat) (p : Pen) : Pen :=
  let p :=
    if !p.margin || indent < p.column || (p.column = indent && !p.blank) then p.lineBreak '\n'
    else p
  if p.column < indent then
    { p.put (List.replicate (indent - p.column) ' ') with blank := true }
  else p

/-- Inside a scalar, where neither blanks nor the margin count. -/
def inside (p : Pen) : Pen := { p with blank := false, margin := false }

end Pen

/-- The kinds of characters that long scalars are broken between. -/
inductive RunKind where
  | spaces
  | breaks
  | others
deriving DecidableEq

def runKind (c : Char) : RunKind :=
  if c = ' ' then .spaces else if isInnerBreak c then .breaks else .others

/-- A text as its maximal runs of characters of one kind. -/
def runs : List Char → List (RunKind × List Char)
  | [] => []
  | c :: s =>
    match runs s with
    | (k, r) :: rest =>
      if k = runKind c then (k, c :: r) :: rest else (runKind c, [c]) :: (k, r) :: rest
    | [] => [(runKind c, [c])]

namespace Pen

/-- A run of spaces, or a line break in the place of a single space beyond the width. -/
def spaceRun (fold : Bool) (indent : Nat) (r : List Char) (p : Pen) : Pen :=
  if fold && r.length = 1 && width < p.column then p.indentTo indent else p.put r

def plain (split : Bool) (indent : Nat) (s : List Char) (p : Pen) : Pen :=
  if s.isEmpty then p
  else
    let p := (if p.blank then p else p.put [' ']).inside
    (runs s).foldl
      (fun p (k, r) => if k = .spaces then (p.spaceRun split indent r).inside else p.put r) p

/-- A run inside single quotes. -/
def singleRun (fold : Bool) (indent : Nat) (k : RunKind) (r : List Char) (p : Pen) : Pen :=
  match k with
  | .spaces => p.spaceRun fold indent r
  | .breaks =>
    let p := if r.head? = some '\n' then p.lineBreak '\n' else p
    (r.foldl (fun p c => p.lineBreak c) p).indentTo indent
  | .others => p.put (r.flatMap fun c => if c = '\'' then ['\'', '\''] else [c])

/-- The runs inside single quotes; a line is not broken at either end. -/
def singleRuns (split : Bool) (indent : Nat) :
    Bool → List (RunKind × List Char) → Pen → Pen
  | _, [], p => p
  | first, (k, r) :: rest, p =>
    singleRuns split indent false rest
      (p.singleRun (split && !first && !rest.isEmpty) indent k r)

def single (split : Bool) (indent : Nat) (s : List Char) (p : Pen) : Pen :=
  let p := p.indicator ['\''] true false false
  (singleRuns split indent true (runs s) p).indicator ['\''] false false false

/-- The letters that escape a character in double quotes. -/
def escapeLetters : List (Nat × Char) :=
  [(0, '0'), (7, 'a'), (8, 'b'), (9, 't'), (10, 'n'), (11, 'v'), (12, 'f'), (13, 'r'), (27, 'e'),
   (34, '"'), (92, '\\'), (0x85, 'N'), (0xA0, '_'), (0x2028, 'L'), (0x2029, 'P')]

def needsEscape (n : Nat) : Bool :=
  [0x22, 0x5C, 0x85, 0x2028, 0x2029, 0xFEFF].contains n ||
    !((0x20 ≤ n && n ≤ 0x7E) || (0xA0 ≤ n && n ≤ 0xD7FF) || (0xE000 ≤ n && n ≤ 0xFFFD))

def escaped (n : Nat) : List Char :=
  match escapeLetters.lookup n with
  | some c => ['\\', c]
  | none =>
    if n ≤ 0xFF then '\\' :: 'x' :: Text.hexPadded true 2 n
    else if n ≤ 0xFFFF then '\\' :: 'u' :: Text.hexPadded true 4 n
    else '\\' :: 'U' :: Text.hexPadded true 8 n

/-- A line broken inside double quotes; a blank that the next line starts with is escaped. -/
def doubleBreak (indent : Nat) (next : Option Nat) (p : Pen) : Pen :=
  let p := ((p.put ['\\']).indentTo indent).inside
  if next = some 32 then p.put ['\\'] else p

/-- Code points inside double quotes. A line is broken before a blank, before a character that
follows an escape, or behind an escape. -/
def doubleRest (split : Bool) (indent : Nat) :
    (first afterEscape : Bool) → List Nat → Pen → Pen
  | _, _, [], p => p
  | first, afterEscape, n :: ns, p =>
    let mayBreak := split && !first && !ns.isEmpty
    if needsEscape n then
      let p := p.put (escaped n)
      let broken := mayBreak && width < p.column - 1
      let p := if broken then p.doubleBreak indent ns.head? else p
      doubleRest split indent false true ns p
    else
      let broken := mayBreak && (n = 32 || afterEscape) && width < p.column
      let p := if broken then p.doubleBreak indent (some n) else p
      doubleRest split indent false false ns (p.put [Char.ofNat n])

def double (split : Bool) (indent : Nat) (s : List Nat) (p : Pen) : Pen :=
  let p := p.indicator ['"'] true false false
  (doubleRest split indent true true s p).indicator ['"'] false false false

/-- The lines of a block, each ended by a line feed. -/
def literal (indent : Nat) (s : List Char) (p : Pen) : Pen :=
  let p := (p.indicator ['|'] true false false).lineBreak '\n'
  (runs s).foldl
    (fun p (k, r) =>
      if k = .breaks then r.foldl (fun p c => p.lineBreak c) p
      else if p.column = 0 then (p.indentTo indent).put r
      else p.put r) p

/-- A scalar at an indentation; `key` says whether its value follows on the line. -/
def scalar (key : Bool) (indent : Nat) (t : ScalarText) (p : Pen) : Pen :=
  let p := if t.showsTag key then p.indicator (ScalarText.tagText t.tag) true false false else p
  match t.style key, t.content with
  | .plain, c => p.plain (!key) indent c.chars
  | .single, c => p.single (!key) indent c.chars
  | .literal, c => p.literal indent c.chars
  | .double, .text s => p.double (!key) indent (s.map Char.toNat)
  | .double, .points ns => p.double (!key) indent ns

end Pen

end AnnotatedApi.Yaml
