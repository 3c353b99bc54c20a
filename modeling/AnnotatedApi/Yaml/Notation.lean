/-
  The values of scalars, by the notations of their types: numbers with signs, bases, underscores
  and sixties, truth values, dates, bytes, texts.
-/
import AnnotatedApi.Number.Numeral
import AnnotatedApi.Text.Base64
import AnnotatedApi.Text.Case
import AnnotatedApi.Value
import AnnotatedApi.Yaml.Schema
import AnnotatedApi.Yaml.Token

namespace AnnotatedApi.Yaml

/-- The faults of a numeral as faults of a text. -/
def ofNumeral {α : Type} : Except Numeral.Fault α → Except Fault α
  | .ok a => .ok a
  | .error _ => .error .invalidNumber

/-- The sign in front of a number and what follows it. -/
def signed (s : List Char) : Except Fault (Bool × List Char) :=
  match s with
  | [] => .error .noDigits
  | '-' :: t => .ok (true, t)
  | '+' :: t => .ok (false, t)
  | t => .ok (false, t)

/-- The number whose digits to base sixty are given, most significant first. -/
def ofSixties (ns : List Int) : Int := ns.foldl (fun n d => 60 * n + d) 0

def intValue (s : List Char) : Except Fault Int := do
  let (minus, t) ← signed (s.filter (· ≠ '_'))
  let n ← match t with
    | ['0'] => pure 0
    | '0' :: 'b' :: u => ofNumeral (Numeral.integer? 2 u)
    | '0' :: 'x' :: u => ofNumeral (Numeral.integer? 16 u)
    | '0' :: _ => ofNumeral (Numeral.integer? 8 t)
    | [] => .error .noDigits
    | _ =>
      if t.contains ':' then do
        let ns ← (Text.splitAt ':' t).mapM fun u => ofNumeral (Numeral.integer? 10 u)
        pure (ofSixties ns)
      else ofNumeral (Numeral.integer? 10 t)
  return if minus then -n else n

/-- The sum of the parts times the powers of sixty, the last part first and rounded at each
step. A power beyond the range of the format is a fault. -/
def sixtiesSum : Nat → Binary64 → List Binary64 → Except Fault Binary64
  | _, sum, [] => .ok sum
  | power, sum, x :: xs =>
    let base := Binary64.ofNat (Nat.pow 60 power)
    if base = Binary64.infinity then .error .overflow
    else sixtiesSum (power + 1) (sum.add (x.mul base)) xs

/-- The sign of a float and what follows it, in lower case. -/
def signedFloat (s : List Char) : Except Fault (Bool × List Char) :=
  signed (Text.lower (s.filter (· ≠ '_')))

/-- Whether a float is written as the constant for what is not a number. -/
def isNotANumber (s : List Char) : Bool :=
  match signedFloat s with
  | .ok (_, t) => t = ".nan".toList
  | .error _ => false

def floatValue (s : List Char) : Except Fault Binary64 := do
  let number (t : List Char) : Except Fault Binary64 :=
    match Numeral.number? t with
    | some x => .ok x
    | none => .error .invalidNumber
  let (minus, t) ← signedFloat s
  if isNotANumber s then return Binary64.nan
  else
    let x ←
      if t = ".inf".toList then pure Binary64.infinity
      else if t.contains ':' then do
        let xs ← (Text.splitAt ':' t).mapM number
        sixtiesSum 0 Binary64.zero xs.reverse
      else number t
    return if minus then x.neg else x

def truthValue (s : List Char) : Except Fault Bool :=
  let t := String.ofList (Text.lower s)
  if ["yes", "true", "on"].contains t then .ok true
  else if ["no", "false", "off"].contains t then .ok false
  else .error .unknownTruth

/-- The number that ASCII digits spell. -/
def digitsValue (s : List Char) : Nat := Text.ofDigits 10 (s.map fun c => c.toNat - 48)

/-- The first six digits of a fraction, as microseconds. -/
def microseconds (s : List Char) : Nat :=
  let ds := s.take 6
  digitsValue (ds ++ List.replicate (6 - ds.length) '0')

/-- The distance from universal time in seconds; less than a day either way. -/
def offsetValue (sign : Char) (hour minute : List Char) : Except Fault Int :=
  let n := digitsValue hour * 3600 + digitsValue minute * 60
  if n < 86400 then .ok (if sign = '-' then -(n : Int) else n) else .error .invalidNumber

def timestampValue (label : Option Label) (s : List Char) : Except Fault Value :=
  match timestamp? (withoutFinalBreak s) with
  | none => .error .notATimestamp
  | some t => do
    let date : Date := ⟨digitsValue t.year, digitsValue t.month, digitsValue t.day⟩
    match t.clock with
    | none => if date.isValid then .ok (.date label date) else .error .invalidNumber
    | some (hour, minute, second) =>
      let offset ← match t.zone with
        | none => pure none
        | some none => pure (some 0)
        | some (some (sign, h, m)) => some <$> offsetValue sign h m
      let moment : Moment :=
        ⟨date, digitsValue hour, digitsValue minute, digitsValue second,
          microseconds t.fraction, offset⟩
      if moment.isValid then .ok (.moment label moment) else .error .invalidNumber

def bytesValue (s : List Char) : Except Fault (List UInt8) :=
  if s.all fun c => c.toNat < 128 then
    match Text.Base64.decode s with
    | some bs => .ok bs
    | none => .error .malformed
  else .error .malformed

def textValue : Content → Value
  | .text s => .str (String.ofList s)
  | .points ps => .illFormed ps

/-- The value of scalar content of a type. -/
def scalarValue (label : Option Label) (tag : Tag) (c : Content) : Except Fault Value :=
  match tag with
  | .null => .ok .null
  | .bool => Value.bool <$> truthValue c.chars
  | .int => Value.int <$> intValue c.chars
  | .float => Value.float <$> floatValue c.chars
  | .str => .ok (textValue c)
  | .binary => Value.bytes <$> bytesValue c.chars
  | .timestamp => timestampValue label c.chars
  | _ => .error .malformed

/-- Whether a type is one of scalars. -/
def Tag.isScalar : Tag → Bool
  | .null | .bool | .int | .float | .str | .binary | .timestamp => true
  | _ => false

/-- Whether a type is one of collections. -/
def Tag.isCollection : Tag → Bool
  | .seq | .map | .set | .orderedMap | .pairs => true
  | _ => false

end AnnotatedApi.Yaml
