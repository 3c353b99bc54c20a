/-
  Days and moments of the calendar: a date, a time of day and an offset from universal time,
  and the ways they are written. Two moments with an offset are the same instant iff
  `Moment.instant` agrees on them.
-/
import AnnotatedApi.Text.Digit

namespace AnnotatedApi

structure Date where
  year : Nat
  month : Nat
  day : Nat
deriving DecidableEq, Inhabited

namespace Date

def isLeap (year : Nat) : Bool := year % 4 = 0 && (year % 100 ≠ 0 || year % 400 = 0)

def monthLength (year month : Nat) : Nat :=
  if month = 2 then if isLeap year then 29 else 28
  else if month = 4 || month = 6 || month = 9 || month = 11 then 30
  else 31

/-- Whether the date stands in the calendar, whose years go from 1 to 9999. -/
def isValid (d : Date) : Bool :=
  1 ≤ d.year && d.year ≤ 9999 && 1 ≤ d.month && d.month ≤ 12 &&
    1 ≤ d.day && d.day ≤ monthLength d.year d.month

/-- The days from the start of year 1 to the date. -/
def ordinal (d : Date) : Nat :=
  let y := d.year - 1
  let before := (List.range (d.month - 1)).foldl (fun n m => n + monthLength d.year (m + 1)) 0
  y * 365 + y / 4 - y / 100 + y / 400 + before + d.day

def text (d : Date) : List Char :=
  Text.padded 4 d.year ++ '-' :: Text.padded 2 d.month ++ '-' :: Text.padded 2 d.day

end Date

/-- A date with a time of day; `offset` is the distance from universal time in seconds. -/
structure Moment where
  date : Date
  hour : Nat
  minute : Nat
  second : Nat
  micro : Nat
  offset : Option Int
deriving DecidableEq, Inhabited

namespace Moment

def isValid (t : Moment) : Bool :=
  t.date.isValid && t.hour < 24 && t.minute < 60 && t.second < 60

/-- Microseconds since the start of the calendar, in universal time if there is an offset. -/
def instant (t : Moment) : Int :=
  let seconds : Int := ((t.date.ordinal * 24 + t.hour) * 60 + t.minute) * 60 + t.second
  (seconds - t.offset.getD 0) * 1000000 + t.micro

def offsetText (seconds : Int) : List Char :=
  let minutes := seconds.natAbs / 60
  (if seconds < 0 then '-' else '+') :: Text.padded 2 (minutes / 60) ++
    ':' :: Text.padded 2 (minutes % 60)

/-- The moment with `sep` between the date and the time of day. -/
def text (sep : Char) (t : Moment) : List Char :=
  t.date.text ++ sep :: Text.padded 2 t.hour ++ ':' :: Text.padded 2 t.minute ++
    ':' :: Text.padded 2 t.second ++
    (if t.micro = 0 then [] else '.' :: Text.padded 6 t.micro) ++
    (match t.offset with
      | none => []
      | some s => offsetText s)

end Moment

end AnnotatedApi
