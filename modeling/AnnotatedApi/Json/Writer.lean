/-
  Writing JSON: two spaces of indentation per level, one entry or item per line, characters
  beyond ASCII as they are. Keys that are no texts are written as texts if they are numbers,
  truth values or null; any other key is refused. A value that JSON does not know is written as
  the text it is spelled with.
-/
import AnnotatedApi.Text.Surrogate
import AnnotatedApi.Value.Spelled

namespace AnnotatedApi.Json

/-- Why a value cannot be written. -/
inductive WriteFault where
  | keyKind
  | tooLong
deriving DecidableEq

/-- The layout of numbers in JSON. -/
def layout : Binary64.Layout := ⟨-4, 16, "NaN", "Infinity"⟩

def escapedChar (c : Char) : List Char :=
  if c = '"' then ['\\', '"']
  else if c = '\\' then ['\\', '\\']
  else if c = '\n' then ['\\', 'n']
  else if c = '\r' then ['\\', 'r']
  else if c = '\t' then ['\\', 't']
  else if c = '\x0c' then ['\\', 'f']
  else if c = '\x08' then ['\\', 'b']
  else if c.toNat < 32 then '\\' :: 'u' :: Text.hexPadded false 4 c.toNat
  else [c]

def stringText (s : List Char) : List Char := '"' :: (s.flatMap escapedChar ++ ['"'])

def integerText (n : Int) : Except WriteFault (List Char) :=
  if Value.writable n then .ok (Text.decimalInt n) else .error .tooLong

/-- The text of a key. -/
def keyText : Value → Except WriteFault (List Char)
  | .str s => .ok s.toList
  | .illFormed points => .ok (Text.ofPoints points).toList
  | .null => .ok "null".toList
  | .bool b => .ok (if b then "true".toList else "false".toList)
  | .int n => integerText n
  | .float x => .ok (Binary64.textWith layout x)
  | _ => .error .keyKind

/-- The start of a line at the given level. -/
def newLine (level : Nat) : List Char := '\n' :: List.replicate (2 * level) ' '

/-- What is spelled out as a text. -/
def spelledString (v : Value) : Except WriteFault (List Char) :=
  if v.spellable then .ok (stringText v.spelled) else .error .tooLong

mutual

def valueText (level : Nat) : Value → Except WriteFault (List Char)
  | .null => .ok "null".toList
  | .bool b => .ok (if b then "true".toList else "false".toList)
  | .int n => integerText n
  | .float x => .ok (Binary64.textWith layout x)
  | .str s => .ok (stringText s.toList)
  | .illFormed points => .ok (stringText (Text.ofPoints points).toList)
  | .list _ vs =>
    match vs with
    | [] => .ok ['[', ']']
    | v :: vs => do
      let first ← valueText (level + 1) v
      let more ← itemTexts (level + 1) vs
      return '[' :: (newLine (level + 1) ++ first ++ more ++ newLine level ++ [']'])
  | .pair a b => do
    let first ← valueText (level + 1) a
    let second ← valueText (level + 1) b
    let between := newLine (level + 1)
    return '[' :: (between ++ first ++ ',' :: between ++ second ++ newLine level ++ [']'])
  | .map _ es =>
    match es with
    | [] => .ok ['\x7b', '\x7d']
    | (k, v) :: es => do
      let name ← keyText k
      let first ← valueText (level + 1) v
      let more ← entryTexts (level + 1) es
      return '\x7b' :: (newLine (level + 1) ++ stringText name ++ ':' :: ' ' :: first ++ more ++
        newLine level ++ ['\x7d'])
  | .bytes bs => spelledString (.bytes bs)
  | .date _ d => .ok (stringText d.text)
  | .moment _ t => .ok (stringText (t.text ' '))
  | .set l vs => spelledString (.set l vs)

/-- The items after the first, each on a line of its own. -/
def itemTexts (level : Nat) : List Value → Except WriteFault (List Char)
  | [] => .ok []
  | v :: vs => do
    let first ← valueText level v
    let more ← itemTexts level vs
    return ',' :: (newLine level ++ first ++ more)

/-- The entries after the first, each on a line of its own. -/
def entryTexts (level : Nat) : List (Value × Value) → Except WriteFault (List Char)
  | [] => .ok []
  | (k, v) :: es => do
    let name ← keyText k
    let first ← valueText level v
    let more ← entryTexts level es
    return ',' :: (newLine level ++ stringText name ++ ':' :: ' ' :: first ++ more)

end

/-- A value as a JSON text with a line break at its end. -/
def write (v : Value) : Except WriteFault String := do
  return String.ofList ((← valueText 0 v) ++ ['\n'])

end AnnotatedApi.Json
