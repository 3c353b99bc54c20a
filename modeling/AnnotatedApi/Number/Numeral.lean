/-
  Reading numerals. `natural?` reads the digits of a base, with single underscores between
  digits; `integer?` adds blanks around, a sign and the mark of the base; `number?` reads a
  decimal number with an optional point and exponent, or one of the words for infinity and
  for what is not a number. Digits may be of any script.
-/
import AnnotatedApi.Number.Binary64
import AnnotatedApi.Text.Blank
import AnnotatedApi.Text.Case
import AnnotatedApi.Text.Cut
import AnnotatedApi.Text.Digit

namespace AnnotatedApi.Numeral

/-- Why a numeral is refused. -/
inductive Fault where
  | malformed
  | tooLong
deriving DecidableEq

/-- The most digits a decimal numeral may have. -/
def digitLimit : Nat := 4300

/-- Blanks that may stand around a numeral. The information separators are none of them. -/
def isPadding (c : Char) : Bool := Text.isBlank c && !(28 ≤ c.toNat && c.toNat ≤ 31)

/-- A numeral without the blanks around it. -/
def unpadded (s : List Char) : List Char :=
  ((s.dropWhile isPadding).reverse.dropWhile isPadding).reverse

/-- A digit of any script as an ASCII digit; other characters stay. -/
def asciiDigit (c : Char) : Char :=
  match Text.digitValue? c with
  | some d => Char.ofNat (48 + d)
  | none => c

/-- The digits of a numeral in base `base`; an underscore may stand between two of them. -/
def digits? (base : Nat) : List Char → Option (List Nat)
  | [] => none
  | [c] => (Text.hexValue? c).bind fun d => if d < base then some [d] else none
  | c :: '_' :: s =>
    (Text.hexValue? c).bind fun d => if d < base then (digits? base s).map (d :: ·) else none
  | c :: s =>
    (Text.hexValue? c).bind fun d => if d < base then (digits? base s).map (d :: ·) else none

/-- Whether the digits of a base that is no power of two are few enough. -/
def withinLimit (base : Nat) (ds : List Nat) : Bool :=
  base = 2 || base = 8 || base = 16 || ds.length ≤ digitLimit

def natural? (base : Nat) (s : List Char) : Except Fault Nat :=
  match digits? base s with
  | none => .error .malformed
  | some ds => if withinLimit base ds then .ok (Text.ofDigits base ds) else .error .tooLong

/-- The letter that marks a base after a leading zero. -/
def baseMark (base : Nat) : Option Char :=
  if base = 2 then some 'b' else if base = 8 then some 'o' else if base = 16 then some 'x' else none

/-- A numeral without the mark of its base. -/
def unmarked (base : Nat) : List Char → List Char
  | '0' :: c :: s =>
    if (baseMark base).any fun m => c = m || c = m.toUpper then
      match s with
      | '_' :: t => t
      | _ => s
    else '0' :: c :: s
  | s => s

def integer? (base : Nat) (s : List Char) : Except Fault Int := do
  let s := (unpadded s).map asciiDigit
  match s with
  | '-' :: t => return -(← natural? base (unmarked base t) : Nat)
  | '+' :: t => return (← natural? base (unmarked base t) : Nat)
  | t => return (← natural? base (unmarked base t) : Nat)

/-- Digits of base ten, possibly none; an underscore may stand between two of them. -/
def digitRun? (s : List Char) : Option (List Nat) := if s.isEmpty then some [] else digits? 10 s

/-- The exponent of a decimal number: a sign and digits. -/
def exponent? : List Char → Option Int
  | '-' :: s => (digits? 10 s).map fun ds => -(Text.ofDigits 10 ds : Int)
  | '+' :: s => (digits? 10 s).map fun ds => (Text.ofDigits 10 ds : Int)
  | s => (digits? 10 s).map fun ds => (Text.ofDigits 10 ds : Int)

/-- A decimal number without a sign, in lower case. -/
def unsigned? (s : List Char) : Option Binary64 := do
  let (mantissa, power) := Text.cutAt 'e' s
  let (whole, part) := Text.cutAt '.' mantissa
  let ws ← digitRun? whole
  let ps ← digitRun? (part.getD [])
  if ws.isEmpty && ps.isEmpty then none
  else
    let e ← match power with
      | none => some 0
      | some t => exponent? t
    return Binary64.ofDecimal (Text.ofDigits 10 (ws ++ ps)) (e - ps.length)

/-- A number or one of the words for infinity and not-a-number, without a sign. -/
def magnitude? (s : List Char) : Option Binary64 :=
  if s = "inf".toList || s = "infinity".toList then some Binary64.infinity
  else if s = "nan".toList then some Binary64.nan
  else unsigned? s

def number? (s : List Char) : Option Binary64 :=
  match Text.lower ((unpadded s).map asciiDigit) with
  | '-' :: t => (magnitude? t).map Binary64.neg
  | '+' :: t => magnitude? t
  | t => magnitude? t

end AnnotatedApi.Numeral
