/-
  Binary floating-point numbers of 64 bits, as their bit patterns. Two numbers are equal here
  iff their patterns are, so that a value holding one has decidable equality; `magnitude`
  reads a pattern as the natural number and the power of two it stands for.
-/

namespace AnnotatedApi

structure Binary64 where
  bits : UInt64
deriving DecidableEq, Inhabited

namespace Binary64

/-- The absolute value that a pattern stands for. -/
inductive Magnitude where
  | finite (m : Nat) (q : Int)  -- `m · 2 ^ q`
  | infinite
  | notANumber

def negative (x : Binary64) : Bool := x.bits >>> 63 == 1

def exponentField (x : Binary64) : Nat := (x.bits >>> 52).toNat % 2048

def fraction (x : Binary64) : Nat := x.bits.toNat % Nat.pow 2 52

def magnitude (x : Binary64) : Magnitude :=
  let e := x.exponentField
  if e = 2047 then if x.fraction = 0 then .infinite else .notANumber
  else if e = 0 then .finite x.fraction (-1074)
  else .finite (Nat.pow 2 52 + x.fraction) ((e : Int) - 1075)

def ofFloat (f : Float) : Binary64 := ⟨f.toBits⟩

def toFloat (x : Binary64) : Float := Float.ofBits x.bits

def zero : Binary64 := ⟨0⟩

def infinity : Binary64 := ⟨0x7FF0000000000000⟩

/-- The one pattern written for a result that is not a number. -/
def nan : Binary64 := ⟨0x7FF8000000000000⟩

def isNaN (x : Binary64) : Bool := x.exponentField = 2047 && x.fraction ≠ 0

def isZero (x : Binary64) : Bool := x.bits &&& 0x7FFFFFFFFFFFFFFF == 0

/-- The sign turned around; what is not a number stays as it is. -/
def neg (x : Binary64) : Binary64 :=
  match x.magnitude with
  | .notANumber => x
  | _ => ⟨x.bits ^^^ 0x8000000000000000⟩

private def settle (f : Float) : Binary64 := if f.isNaN then nan else ofFloat f

def add (x y : Binary64) : Binary64 := settle (x.toFloat + y.toFloat)

def mul (x y : Binary64) : Binary64 := settle (x.toFloat * y.toFloat)

/-- The number nearest to `digits · 10 ^ exponent`. Beyond `10 ^ 400` it is infinite and below
`10 ^ -400` it is zero, so no larger power is ever computed. -/
def ofDecimal (digits : Nat) (exponent : Int) : Binary64 :=
  let size : Int := (Nat.toDigits 10 digits).length + exponent
  if digits = 0 || size < -400 then zero
  else if 400 < size then infinity
  else ofFloat (Float.ofScientific digits (decide (exponent < 0)) exponent.natAbs)

/-- The number nearest to a natural number. -/
def ofNat (n : Nat) : Binary64 := ofDecimal n 0

/-- The integer that a number is, if it is one. -/
def toInt? (x : Binary64) : Option Int :=
  match x.magnitude with
  | .finite m q =>
    let sign : Int := if x.negative then -1 else 1
    if 0 ≤ q then some (sign * (m * Nat.pow 2 q.toNat : Nat))
    else
      let unit := Nat.pow 2 (-q).toNat
      if m % unit = 0 then some (sign * (m / unit : Nat)) else none
  | _ => none

end Binary64

end AnnotatedApi
