/-
  The types of scalars. `Tag` names the types that values are made of; `implicitTag` gives the
  type of a scalar written without quotes and without a tag, by the notations of truth values,
  numbers, null, dates and the two special keys. The marks of tags, anchors and aliases have a
  type of their own, of which there are no values.
-/
import AnnotatedApi.Text.Cut
import AnnotatedApi.Text.Digit

namespace AnnotatedApi.Yaml

inductive Tag where
  | null
  | bool
  | int
  | float
  | str
  | binary
  | timestamp
  | orderedMap
  | pairs
  | set
  | seq
  | map
  | merge
  | value
  | other
deriving DecidableEq, Inhabited

/-- The start of the tags of the common types. -/
def commonTag : List Char := "tag:yaml.org,2002:".toList

namespace Tag

def names : List (String × Tag) :=
  [("null", .null), ("bool", .bool), ("int", .int), ("float", .float), ("str", .str),
   ("binary", .binary), ("timestamp", .timestamp), ("omap", .orderedMap), ("pairs", .pairs),
   ("set", .set), ("seq", .seq), ("map", .map), ("merge", .merge), ("value", .value)]

/-- The type that a full tag names. -/
def ofText (s : List Char) : Tag :=
  match Text.after? commonTag s with
  | some name => (names.lookup (String.ofList name)).getD .other
  | none => .other

end Tag

/-- A scalar without one line break at its end, which the notations do not look at. -/
def withoutFinalBreak (s : List Char) : List Char :=
  if s.getLast? = some '\n' then s.dropLast else s

/-- A number without its sign. -/
def unsigned : List Char → List Char
  | '+' :: s => s
  | '-' :: s => s
  | s => s

def isNullWord (s : List Char) : Bool :=
  s.isEmpty || [['~'], "null".toList, "Null".toList, "NULL".toList].contains s

/-- The words for truth values, each in lower case, capitalised and in upper case. -/
def truthWords : List String :=
  ["yes", "Yes", "YES", "no", "No", "NO", "true", "True", "TRUE", "false", "False", "FALSE",
   "on", "On", "ON", "off", "Off", "OFF"]

def isTruthWord (s : List Char) : Bool := truthWords.any (·.toList = s)

/-- Digits of the class or underscores. -/
def allIn (ok : Char → Bool) (s : List Char) : Bool := s.all fun c => ok c || c = '_'

/-- Sixties: one or two digits, the first of two at most five. -/
def isSixty : List Char → Bool
  | [a] => Text.isAsciiDigit a
  | [a, b] => '0' ≤ a && a ≤ '5' && Text.isAsciiDigit b
  | _ => false

/-- A digit and then digits or underscores. -/
def isGrouped (first : Char → Bool) : List Char → Bool
  | [] => false
  | c :: s => first c && allIn Text.isAsciiDigit s

def isNonZero (c : Char) : Bool := '1' ≤ c && c ≤ '9'

def isIntText (s : List Char) : Bool :=
  match unsigned s with
  | '0' :: 'b' :: t => !t.isEmpty && allIn (fun c => c = '0' || c = '1') t
  | '0' :: 'x' :: t => !t.isEmpty && allIn (fun c => (Text.hexValue? c).isSome) t
  | ['0'] => true
  | '0' :: t => allIn (fun c => '0' ≤ c && c ≤ '7') t
  | t =>
    match Text.splitAt ':' t with
    | [] => false
    | first :: rest => isGrouped isNonZero first && rest.all isSixty

/-- Nothing, or an exponent with its sign. -/
def isExponent : List Char → Bool
  | [] => true
  | e :: sign :: t =>
    (e = 'e' || e = 'E') && (sign = '+' || sign = '-') && !t.isEmpty && t.all Text.isAsciiDigit
  | _ => false

/-- Digits or underscores and then perhaps an exponent. -/
def isFractionText (s : List Char) : Bool :=
  isExponent (s.dropWhile fun c => Text.isAsciiDigit c || c = '_')

def isFloatText (s : List Char) : Bool :=
  let t := unsigned s
  let inf := [".inf".toList, ".Inf".toList, ".INF".toList].contains t
  let nan := [".nan".toList, ".NaN".toList, ".NAN".toList].contains s
  let plain :=
    match Text.cutAt '.' t with
    | (whole, some part) =>
      if whole.isEmpty then
        s.head? = some '.' && part.head?.any Text.isAsciiDigit && isFractionText part
      else
        match Text.splitAt ':' whole with
        | [w] => isGrouped Text.isAsciiDigit w && isFractionText part
        | w :: rest =>
          isGrouped Text.isAsciiDigit w && rest.all isSixty && allIn Text.isAsciiDigit part
        | [] => false
    | (_, none) => false
  inf || nan || plain

/-- The fields of a timestamp as they are written. -/
structure TimestampText where
  year : List Char
  month : List Char
  day : List Char
  clock : Option (List Char × List Char × List Char)
  fraction : List Char
  zone : Option (Option (Char × List Char × List Char))  -- universal time, or a signed offset

/-- One or two digits. -/
def shortNumber? (s : List Char) : Option (List Char × List Char) :=
  match s with
  | a :: b :: t =>
    if Text.isAsciiDigit a then
      if Text.isAsciiDigit b then some ([a, b], t) else some ([a], b :: t)
    else none
  | [a] => if Text.isAsciiDigit a then some ([a], []) else none
  | [] => none

/-- Exactly `n` digits. -/
def exactNumber? (n : Nat) (s : List Char) : Option (List Char × List Char) :=
  let ds := s.take n
  if ds.length = n && ds.all Text.isAsciiDigit then some (ds, s.drop n) else none

def expect? (c : Char) (s : List Char) : Option (List Char) := Text.after? [c] s

/-- The zone at the end of a timestamp, with blanks before it. -/
def zone? (s : List Char) : Option (Option (Option (Char × List Char × List Char))) :=
  match s.dropWhile fun c => c = ' ' || c = '\t' with
  | ['Z'] => some (some none)
  | sign :: t =>
    if sign = '+' || sign = '-' then
      match shortNumber? t with
      | some (hour, []) => some (some (some (sign, hour, ['0'])))
      | some (hour, ':' :: t) =>
        match exactNumber? 2 t with
        | some (minute, []) => some (some (some (sign, hour, minute)))
        | _ => none
      | _ => none
    else none
  | [] => if s.isEmpty then some none else none

def timestamp? (s : List Char) : Option TimestampText := do
  let (year, s) ← exactNumber? 4 s
  let (month, s) ← shortNumber? (← expect? '-' s)
  let (day, s) ← shortNumber? (← expect? '-' s)
  if s.isEmpty then return ⟨year, month, day, none, [], none⟩
  else
    let s ← match s with
      | 'T' :: t | 't' :: t => some t
      | c :: _ =>
        if c = ' ' || c = '\t' then some (s.dropWhile fun c => c = ' ' || c = '\t') else none
      | [] => none
    let (hour, s) ← shortNumber? s
    let (minute, s) ← exactNumber? 2 (← expect? ':' s)
    let (second, s) ← exactNumber? 2 (← expect? ':' s)
    let (fraction, s) := match s with
      | '.' :: t => (t.takeWhile Text.isAsciiDigit, t.dropWhile Text.isAsciiDigit)
      | _ => ([], s)
    let zone ← zone? s
    return ⟨year, month, day, some (hour, minute, second), fraction, zone⟩

/-- A date alone has two digits for month and day. -/
def isTimestampText (s : List Char) : Bool :=
  match timestamp? s with
  | some t => t.clock.isSome || (t.month.length = 2 && t.day.length = 2)
  | none => false

def implicitTag (s : List Char) : Tag :=
  if s.isEmpty then .null
  else
    let t := withoutFinalBreak s
    if t.isEmpty then .str
    else if isTruthWord t then .bool
    else if isFloatText t then .float
    else if isIntText t then .int
    else if t = ['<', '<'] then .merge
    else if isNullWord t then .null
    else if isTimestampText t then .timestamp
    else if t = ['='] then .value
    else if [['!'], ['&'], ['*']].contains t then .other
    else .str

end AnnotatedApi.Yaml
