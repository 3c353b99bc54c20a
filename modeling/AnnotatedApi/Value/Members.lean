/-
  The order in which the members of a set are gone through. A set has no order of its own: its
  members stand in a table, each at the first free place for its number. Members that are
  numbers have a number that follows from what they are, and sets of numbers are put in the
  order of their table; of any other set only its members count, and they stay as written.
-/
import AnnotatedApi.Value

namespace AnnotatedApi.Value

/-- The prime that numbers are reduced by. -/
def keyModulus : Nat := Nat.pow 2 61 - 1

/-- A natural number times a power of two, reduced. The powers repeat after sixty-one steps. -/
def reduced (m : Nat) (q : Int) : Nat := (m * Nat.pow 2 (q % 61).toNat) % keyModulus

/-- The number that a member's place follows from, if it is a number. Equal numbers have one. -/
def placeKey? (v : Value) : Option Int :=
  let signed (minus : Bool) (n : Nat) : Int :=
    let k : Int := if minus then -(n : Int) else n
    if k = -1 then -2 else k
  match v with
  | .bool b => some (if b then 1 else 0)
  | .int n => some (signed (n < 0) (reduced n.natAbs 0))
  | .float x =>
    match x.magnitude with
    | .finite m q => some (signed x.negative (reduced m q))
    | .infinite => some (signed x.negative 314159)
    | .notANumber => none
  | _ => none

/-- The number of places in the table of a set with `n` members. -/
def tableSize (n : Nat) : Nat := if n < 5 then 8 else Nat.pow 2 (Nat.log2 (2 * n) + 1)

/-- The first free place from `i` on. Where the table is long enough, the nine places behind a
taken one are tried; then the search goes on at `5 i + 1` plus what is left of the number. -/
def freePlace (size : Nat) (taken : List Nat) : Nat → Nat → Nat → Nat
  | 0, i, _ => i
  | fuel + 1, i, rest =>
    let run := if i + 9 < size then 10 else 1
    match (List.range run).find? fun k => !taken.contains (i + k) with
    | some k => i + k
    | none => freePlace size taken fuel ((5 * i + 1 + rest / 32) % size) (rest / 32)

/-- The places of members with the given numbers, each put in after the ones before it. -/
def places (size : Nat) (keys : List Int) : List Nat :=
  (keys.foldl
    (fun taken k =>
      let word := (k % Int.ofNat (Nat.pow 2 64)).toNat
      freePlace size taken (size + 64) (word % size) word :: taken)
    []).reverse

/-- The members of a set in the order in which they are gone through. -/
def members (vs : List Value) : List Value :=
  match vs.mapM placeKey? with
  | none => vs
  | some keys =>
    (((places (tableSize vs.length) keys).zip vs).mergeSort fun a b => a.1 ≤ b.1).map Prod.snd

end AnnotatedApi.Value
