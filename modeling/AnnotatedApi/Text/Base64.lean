/-
  Base 64: three bytes as four characters of an alphabet of sixty-four. Reading passes over
  characters outside the alphabet and stops at the padding that completes a group.
-/
import AnnotatedApi.Text.Digit

namespace AnnotatedApi.Text.Base64

def value? (c : Char) : Option Nat :=
  let n := c.toNat
  if 'A' ≤ c && c ≤ 'Z' then some (n - 65)
  else if 'a' ≤ c && c ≤ 'z' then some (n - 71)
  else if isAsciiDigit c then some (n + 4)
  else if c = '+' then some 62
  else if c = '/' then some 63
  else none

def char (n : Nat) : Char :=
  if n < 26 then Char.ofNat (65 + n)
  else if n < 52 then Char.ofNat (71 + n)
  else if n < 62 then Char.ofNat (n - 4)
  else if n = 62 then '+'
  else '/'

/-- The bytes from here on: `place` characters of a group were read, `left` holds the bits of
the last one that no byte has taken yet, and `pads` padding characters stand before. -/
def decodeFrom (place left pads : Nat) : List Char → Option (List UInt8)
  | [] => if place = 0 then some [] else none
  | c :: s =>
    if c = '=' then
      if 2 ≤ place && 4 ≤ place + pads + 1 then some []
      else decodeFrom place left (if 2 ≤ place then pads + 1 else pads) s
    else
      match value? c with
      | none => decodeFrom place left pads s
      | some v =>
        match place with
        | 0 => decodeFrom 1 v 0 s
        | 1 => (decodeFrom 2 (v % 16) 0 s).map (UInt8.ofNat (left * 4 + v / 16) :: ·)
        | 2 => (decodeFrom 3 (v % 4) 0 s).map (UInt8.ofNat (left * 16 + v / 4) :: ·)
        | _ => (decodeFrom 0 0 0 s).map (UInt8.ofNat (left * 64 + v) :: ·)

def decode (s : List Char) : Option (List UInt8) := decodeFrom 0 0 0 s

def encode : List UInt8 → List Char
  | [] => []
  | [a] => let a := a.toNat; [char (a / 4), char (a % 4 * 16), '=', '=']
  | [a, b] =>
    let a := a.toNat; let b := b.toNat
    [char (a / 4), char (a % 4 * 16 + b / 16), char (b % 16 * 4), '=']
  | a :: b :: c :: s =>
    let a := a.toNat; let b := b.toNat; let c := c.toNat
    char (a / 4) :: char (a % 4 * 16 + b / 16) :: char (b % 16 * 4 + c / 64) :: char (c % 64) ::
      encode s

end AnnotatedApi.Text.Base64
