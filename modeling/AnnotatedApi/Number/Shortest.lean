/-
  The fewest decimal digits that read back as a given 64-bit number, and their layout.
  `shortest` works on `m · 2 ^ q` in exact arithmetic: for one digit, two digits and so on it
  looks at the two neighbours of the number on the grid of that many digits, and the first
  neighbour that rounds to the number is the answer; of two, the nearer.
-/
import AnnotatedApi.Number.Binary64
import AnnotatedApi.Text.Digit

namespace AnnotatedApi

/-- The decimal `digits · 10 ^ exponent`. -/
structure Decimal where
  digits : Nat
  exponent : Int

namespace Decimal

/-- The same number without zeros at the end of its digits. -/
def stripZeros : Nat → Decimal → Decimal
  | 0, d => d
  | fuel + 1, d =>
    if d.digits ≠ 0 && d.digits % 10 = 0 then stripZeros fuel ⟨d.digits / 10, d.exponent + 1⟩
    else d

end Decimal

namespace Binary64

/-- The number of digits before the point of `num / den`, negative when zeros follow the point:
the `e` with `10 ^ (e - 1) ≤ num / den < 10 ^ e`. -/
def decimalPoint (num den : Nat) : Int :=
  if den ≤ num then (Nat.toDigits 10 (num / den)).length
  else below 400 0 num
where
  below : Nat → Nat → Nat → Int
  | 0, zeros, _ => -zeros
  | fuel + 1, zeros, num => if den ≤ num * 10 then -zeros else below fuel (zeros + 1) (num * 10)

/-- A positive number `num / den` with the half-way points to its neighbours, all over `den`. -/
structure Rounding where
  num : Nat
  low : Nat
  high : Nat
  den : Nat
  closed : Bool  -- whether the half-way points themselves round to the number

def rounding (m : Nat) (q : Int) : Rounding :=
  -- quarters of a unit in the last place, since the lower gap may be half the upper one
  let up := Nat.pow 2 q.toNat
  let low := if m = Nat.pow 2 52 && -1074 < q then 4 * m - 1 else 4 * m - 2
  ⟨4 * m * up, low * up, (4 * m + 2) * up, 4 * Nat.pow 2 (-q).toNat, m % 2 = 0⟩

/-- Whether `d · unit / scale` rounds to the number. -/
def Rounding.accepts (r : Rounding) (d unit scale : Nat) : Bool :=
  let x := d * unit * r.den
  if r.closed then r.low * scale ≤ x && x ≤ r.high * scale
  else r.low * scale < x && x < r.high * scale

/-- The neighbour of the number on the grid of `k` digits that rounds to it. -/
def Rounding.onGrid (r : Rounding) (point : Int) (k : Nat) : Option Decimal :=
  let e := point - k
  let unit := Nat.pow 10 e.toNat
  let scale := Nat.pow 10 (-e).toNat
  let d := r.num * scale / (r.den * unit)
  match r.accepts d unit scale, r.accepts (d + 1) unit scale with
  | true, true =>
    let below := r.num * scale - d * unit * r.den
    let above := (d + 1) * unit * r.den - r.num * scale
    let lower := below < above || (below = above && d % 2 = 0)
    some ⟨if lower then d else d + 1, e⟩
  | true, false => some ⟨d, e⟩
  | false, true => some ⟨d + 1, e⟩
  | false, false => none

/-- The shortest decimal that reads back as `m · 2 ^ q`; seventeen digits always do. -/
def shortest (m : Nat) (q : Int) : Decimal :=
  let r := rounding m q
  let point := decimalPoint r.num r.den
  match (List.range 17).findSome? fun k => r.onGrid point (k + 1) with
  | some d => d.stripZeros 20
  | none => ⟨m, q⟩

/-- How a number is laid out: positional for exponents from `10 ^ -4` up to below `10 ^ 16`. -/
structure Layout where
  least : Int
  most : Int
  nan : String
  infinity : String

/-- The layout of numbers in texts. -/
def plainLayout : Layout := ⟨-4, 16, "nan", "inf"⟩

def exponentText (e : Int) : List Char :=
  (if e < 0 then ['e', '-'] else ['e', '+']) ++ Text.padded 2 e.natAbs

/-- Digits `ds` with the point after the first `point` of them. -/
def layOut (l : Layout) (ds : List Char) (point : Int) : List Char :=
  if point ≤ l.least || l.most < point then
    let rest := ds.drop 1
    ds.take 1 ++ (if rest.isEmpty then [] else '.' :: rest) ++ exponentText (point - 1)
  else if point ≤ 0 then '0' :: '.' :: (List.replicate (-point).toNat '0' ++ ds)
  else
    let n := point.toNat
    let whole := ds.take n ++ List.replicate (n - ds.length) '0'
    let rest := ds.drop n
    whole ++ '.' :: (if rest.isEmpty then ['0'] else rest)

def textWith (l : Layout) (x : Binary64) : List Char :=
  let sign := if x.negative then ['-'] else []
  match x.magnitude with
  | .notANumber => l.nan.toList
  | .infinite => sign ++ l.infinity.toList
  | .finite m q =>
    if m = 0 then sign ++ ['0', '.', '0']
    else
      let d := shortest m q
      let ds := Text.decimal d.digits
      sign ++ layOut l ds (ds.length + d.exponent)

/-- The shortest text that reads back as the number. -/
def text (x : Binary64) : List Char := textWith plainLayout x

end Binary64

end AnnotatedApi
