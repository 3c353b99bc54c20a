/-
  The spelling of a value inside a text. `literal` is the form that shows what kind of value it
  is, with quotes around texts; `spelled` leaves out the quotes of a text that stands alone and
  writes a date as the calendar does. A value with an integer of more than 4300 digits has no
  spelling (`spellable`).
-/
import AnnotatedApi.Number.Numeral
import AnnotatedApi.Number.Shortest
import AnnotatedApi.Text.Quoted
import AnnotatedApi.Value

namespace AnnotatedApi.Value

/-- Whether an integer has few enough digits to be written. -/
def writable (n : Int) : Bool := n.natAbs < Nat.pow 10 Numeral.digitLimit

mutual

def spellable : Value → Bool
  | .int n => writable n
  | .pair a b => a.spellable && b.spellable
  | .list _ items | .set _ items => spellableList items
  | .map _ entries => spellableEntries entries
  | _ => true

def spellableList : List Value → Bool
  | [] => true
  | v :: vs => v.spellable && spellableList vs

def spellableEntries : List (Value × Value) → Bool
  | [] => true
  | (k, v) :: es => k.spellable && v.spellable && spellableEntries es

end

/-- The items with a comma and a space between them. -/
def commas (items : List (List Char)) : List Char := Text.joinWith [',', ' '] items

def bytesLiteral (bs : List UInt8) : List Char :=
  let cs := bs.map fun b => Char.ofNat b.toNat
  let q := Text.quoteFor cs
  let body := cs.flatMap fun c =>
    if c.toNat < 128 then Text.quotedChar q c else Text.escapedPoint c.toNat
  'b' :: q :: (body ++ [q])

def illFormedLiteral (points : List Nat) : List Char :=
  let has (c : Char) := points.contains c.toNat
  let q := if has '\'' && !has '"' then '"' else '\''
  let body := points.flatMap fun n =>
    if n.isValidChar then Text.quotedChar q (Char.ofNat n) else Text.escapedPoint n
  q :: (body ++ [q])

def dateLiteral (d : Date) : List Char :=
  "datetime.date(".toList ++
    commas [Text.decimal d.year, Text.decimal d.month, Text.decimal d.day] ++ [')']

/-- A distance in time, as whole days and the seconds left over. -/
def spanLiteral (seconds : Int) : List Char :=
  let days := seconds / 86400
  let rest := seconds % 86400
  "datetime.timedelta(".toList ++
    commas ((if days = 0 then [] else ["days=".toList ++ Text.decimalInt days]) ++
      (if rest = 0 then [] else ["seconds=".toList ++ Text.decimalInt rest])) ++ [')']

def offsetLiteral (seconds : Int) : List Char :=
  if seconds = 0 then "datetime.timezone.utc".toList
  else "datetime.timezone(".toList ++ spanLiteral seconds ++ [')']

def momentLiteral (t : Moment) : List Char :=
  let clock :=
    [t.date.year, t.date.month, t.date.day, t.hour, t.minute] ++
      (if t.second = 0 && t.micro = 0 then []
        else t.second :: if t.micro = 0 then [] else [t.micro])
  "datetime.datetime(".toList ++
    commas (clock.map Text.decimal ++
      (match t.offset with
        | none => []
        | some s => ["tzinfo=".toList ++ offsetLiteral s])) ++ [')']

mutual

def literal : Value → List Char
  | .null => "None".toList
  | .bool b => if b then "True".toList else "False".toList
  | .int n => Text.decimalInt n
  | .float x => x.text
  | .str s => Text.quoted s.toList
  | .illFormed points => illFormedLiteral points
  | .bytes bs => bytesLiteral bs
  | .date _ d => dateLiteral d
  | .moment _ t => momentLiteral t
  | .pair a b => '(' :: (commas [a.literal, b.literal] ++ [')'])
  | .list _ items => '[' :: (commas (literals items) ++ [']'])
  | .set _ items =>
    match items with
    | [] => "set()".toList
    | v :: vs => '\x7b' :: (commas (v.literal :: literals vs) ++ ['\x7d'])
  | .map _ entries => '\x7b' :: (commas (entryLiterals entries) ++ ['\x7d'])

def literals : List Value → List (List Char)
  | [] => []
  | v :: vs => v.literal :: literals vs

def entryLiterals : List (Value × Value) → List (List Char)
  | [] => []
  | (k, v) :: es => (k.literal ++ ':' :: ' ' :: v.literal) :: entryLiterals es

end

/-- A value as text: a text as it is, a date as the calendar writes it, all else as a literal. -/
def spelled : Value → List Char
  | .str s => s.toList
  | .date _ d => d.text
  | .moment _ t => t.text ' '
  | v => v.literal

end AnnotatedApi.Value
