/-
  Reading JSON. Beyond the standard notation the words `NaN`, `Infinity` and `-Infinity` are
  numbers; of entries with one key the last counts, in the place of the first. A number with a
  fraction or an exponent is a binary number, any other an integer of at most 4300 digits.
-/
import AnnotatedApi.Assoc
import AnnotatedApi.Number.Numeral
import AnnotatedApi.Text.Surrogate
import AnnotatedApi.Value

namespace AnnotatedApi.Json

inductive Fault where
  | malformed
  | tooLong
deriving DecidableEq

def isBlank (c : Char) : Bool := c = ' ' || c = '\t' || c = '\n' || c = '\r'

def skipBlanks (s : List Char) : List Char := s.dropWhile isBlank

/-- The character that a one-letter escape stands for. -/
def escape? (c : Char) : Option Char :=
  [('"', '"'), ('\\', '\\'), ('/', '/'), ('b', '\x08'), ('f', '\x0c'), ('n', '\n'), ('r', '\r'),
   ('t', '\t')].lookup c

/-- The number that four hexadecimal digits spell. -/
def hexUnit? (a b c d : Char) : Option Nat := do
  return Text.ofDigits 16
    [← Text.hexValue? a, ← Text.hexValue? b, ← Text.hexValue? c, ← Text.hexValue? d]

/-- The code points of a string up to its closing quote, and the rest. -/
def stringRest : List Char → Except Fault (List Nat × List Char)
  | [] => .error .malformed
  | '"' :: s => .ok ([], s)
  | '\\' :: 'u' :: a :: b :: c :: d :: s =>
    match hexUnit? a b c d with
    | none => .error .malformed
    | some n => do
      let (ns, rest) ← stringRest s
      return (n :: ns, rest)
  | '\\' :: e :: s =>
    match escape? e with
    | none => .error .malformed
    | some c => do
      let (ns, rest) ← stringRest s
      return (c.toNat :: ns, rest)
  | c :: s =>
    if c = '\\' || c.toNat < 32 then .error .malformed
    else do
      let (ns, rest) ← stringRest s
      return (c.toNat :: ns, rest)

/-- The text of code points, halves of characters joined. -/
def ofUnits (ns : List Nat) : Value :=
  match Text.ofPoints? (Text.joinPairs ns) with
  | some s => .str s
  | none => .illFormed (Text.joinPairs ns)

/-- The digits at the front. -/
def digits (s : List Char) : List Char × List Char :=
  (s.takeWhile Text.isAsciiDigit, s.dropWhile Text.isAsciiDigit)

/-- A point with digits behind it, if there is one. -/
def fractionPart (s : List Char) : List Char × List Char :=
  match s with
  | '.' :: t =>
    let (ds, rest) := digits t
    if ds.isEmpty then ([], s) else (ds, rest)
  | _ => ([], s)

/-- An exponent, if there is one. -/
def exponentPart (s : List Char) : Option Int × List Char :=
  match s with
  | e :: t =>
    if e = 'e' || e = 'E' then
      let (minus, u) := match t with
        | '-' :: u => (true, u)
        | '+' :: u => (false, u)
        | u => (false, u)
      let (ds, rest) := digits u
      if ds.isEmpty then (none, s)
      else
        let n : Int := Text.ofDigits 10 (ds.map fun c => c.toNat - 48)
        (some (if minus then -n else n), rest)
    else (none, s)
  | [] => (none, s)

/-- The digits of a whole number: a zero, or digits that do not start with one. -/
def wholePart : List Char → Option (List Char × List Char)
  | '0' :: s => some (['0'], s)
  | s =>
    let (ds, rest) := digits s
    if ds.isEmpty then none else some (ds, rest)

/-- A number without its sign. -/
def unsigned (minus : Bool) (s : List Char) : Except Fault (Value × List Char) :=
  match wholePart s with
  | none => .error .malformed
  | some (whole, s) =>
    let (fraction, s) := fractionPart s
    let (exponent, s) := exponentPart s
    let number (ds : List Char) := Text.ofDigits 10 (ds.map fun c => c.toNat - 48)
    if fraction.isEmpty && exponent.isNone then
      if Numeral.digitLimit < whole.length then .error .tooLong
      else
        let n : Int := number whole
        .ok (.int (if minus then -n else n), s)
    else
      let x := Binary64.ofDecimal (number (whole ++ fraction)) (exponent.getD 0 - fraction.length)
      .ok (.float (if minus then x.neg else x), s)

def number (s : List Char) : Except Fault (Value × List Char) :=
  match s with
  | '-' :: t => unsigned true t
  | _ => unsigned false s

/-- The words that are values. -/
def words : List (List Char × Value) :=
  [("null".toList, .null), ("true".toList, .bool true), ("false".toList, .bool false),
   ("NaN".toList, .float Binary64.nan), ("Infinity".toList, .float Binary64.infinity),
   ("-Infinity".toList, .float Binary64.infinity.neg)]

/-- A word or a number. -/
def simple (s : List Char) : Except Fault (Value × List Char) :=
  match words.findSome? fun w => (Text.after? w.1 s).map fun rest => (w.2, rest) with
  | some found => .ok found
  | none => number s

mutual

/-- The value at the front of a text, and the rest. -/
def value : Nat → List Char → Except Fault (Value × List Char)
  | 0, _ => .error .malformed
  | fuel + 1, s =>
    match s with
    | '"' :: s => do
      let (ns, rest) ← stringRest s
      return (ofUnits ns, rest)
    | '[' :: s =>
      match skipBlanks s with
      | ']' :: rest => .ok (.array [], rest)
      | s => do
        let (vs, rest) ← items fuel s
        return (.array vs, rest)
    | '\x7b' :: s =>
      match skipBlanks s with
      | '\x7d' :: rest => .ok (.map none [], rest)
      | s => do
        let (es, rest) ← entries fuel s
        return (.map none (Assoc.ofEntries es), rest)
    | s => simple s

/-- The items of a list, the first of which is at the front. -/
def items : Nat → List Char → Except Fault (List Value × List Char)
  | 0, _ => .error .malformed
  | fuel + 1, s => do
    let (v, s) ← value fuel s
    match skipBlanks s with
    | ']' :: rest => return ([v], rest)
    | ',' :: rest =>
      let (vs, rest) ← items fuel (skipBlanks rest)
      return (v :: vs, rest)
    | _ => .error .malformed

/-- The entries of an object, the first of which is at the front. -/
def entries : Nat → List Char → Except Fault (List (Value × Value) × List Char)
  | 0, _ => .error .malformed
  | fuel + 1, s =>
    match s with
    | '"' :: s => do
      let (ns, s) ← stringRest s
      match skipBlanks s with
      | ':' :: s =>
        let (v, s) ← value fuel (skipBlanks s)
        match skipBlanks s with
        | '\x7d' :: rest => return ([(ofUnits ns, v)], rest)
        | ',' :: rest =>
          let (es, rest) ← entries fuel (skipBlanks rest)
          return ((ofUnits ns, v) :: es, rest)
        | _ => .error .malformed
      | _ => .error .malformed
    | _ => .error .malformed

end

/-- The value that a text is, with blanks around it. An opening bracket and the first item behind it
are two steps of the reader, so it may take two steps for each character. -/
def read (text : String) : Except Fault Value := do
  let s := text.toList
  let (v, rest) ← value (2 * s.length + 1) (skipBlanks s)
  if (skipBlanks rest).isEmpty then return v else .error .malformed

end AnnotatedApi.Json
