/-
  How a scalar may be written: without quotes, in single or double quotes, or as a block. The
  choice depends on what the scalar holds and on whether it is a key on a line with its value.
-/
import AnnotatedApi.Yaml.Scalar
import AnnotatedApi.Yaml.Schema

namespace AnnotatedApi.Yaml

/-- Line breaks inside a scalar; a carriage return is none. -/
def isInnerBreak (c : Char) : Bool := c = '\n' || c = '\x85' || c = '\u2028' || c = '\u2029'

/-- Characters that only an escape can write. -/
def isSpecial (c : Char) : Bool :=
  let n := c.toNat
  !(n = 10 || (0x20 ≤ n && n ≤ 0x7E) ||
    ((n = 0x85 || (0xA0 ≤ n && n ≤ 0xFFFD) || (0x10000 ≤ n && n < 0x10FFFF)) && n ≠ 0xFEFF))

/-- Whether somewhere a character of the first class stands right before one of the second. -/
def adjacent (p q : Char → Bool) : List Char → Bool
  | a :: b :: s => (p a && q b) || adjacent p q (b :: s)
  | _ => false

/-- Whether behind the first character an indicator keeps a scalar from being plain. -/
def innerIndicator : List Char → Bool
  | a :: b :: s =>
    (b = ':' && endOr isGap s) || (b = '#' && isGap a) || innerIndicator (b :: s)
  | _ => false

/-- Whether the first character keeps a scalar from being plain. -/
def firstIndicator : List Char → Bool
  | [] => false
  | c :: s =>
    "#,[]\x7b\x7d&*!|>'\"%@`".toList.contains c ||
      ((c = '?' || c = ':' || c = '-') && endOr isGap s)

/-- What a scalar holds that matters for the way it is written. -/
structure Analysis where
  empty : Bool
  multiline : Bool
  plain : Bool
  single : Bool
  block : Bool

def analysis (s : List Char) : Analysis :=
  if s.isEmpty then ⟨true, false, true, true, false⟩
  else
    let edge (c : Option Char) := c.any fun c => c = ' ' || isInnerBreak c
    let breakSpace := adjacent isInnerBreak (· = ' ') s
    let escaped := adjacent (· = ' ') isInnerBreak s || s.any isSpecial
    let multiline := s.any isInnerBreak
    let marked := Text.startsWith ['-', '-', '-'] s || Text.startsWith ['.', '.', '.'] s ||
      firstIndicator s || innerIndicator s
    { empty := false
      multiline := multiline
      plain := !(edge s.head? || edge s.getLast? || breakSpace || escaped || multiline || marked)
      single := !(breakSpace || escaped)
      block := !(s.getLast? = some ' ' || escaped) }

inductive Style where
  | plain
  | single
  | double
  | literal
deriving DecidableEq

/-- A scalar to be written; `block` asks for the literal style. -/
structure ScalarText where
  tag : Tag
  content : Content
  block : Bool := false

namespace ScalarText

/-- Whether the plain form would be read as the type the scalar has. -/
def plainFits (t : ScalarText) : Bool := implicitTag t.content.chars = t.tag

def style (key : Bool) (t : ScalarText) : Style :=
  let a := analysis t.content.chars
  match t.content with
  | .points _ => .double
  | .text _ =>
    if !t.block && t.plainFits && a.plain && !(key && (a.empty || a.multiline)) then .plain
    else if t.block then if !key && a.block then .literal else .double
    else if a.single && !(key && a.multiline) then .single
    else .double

/-- The short form of a tag. -/
def tagText (t : Tag) : List Char :=
  match Tag.names.find? fun e => e.2 = t with
  | some (name, _) => '!' :: '!' :: name.toList
  | none => ['!']

/-- Whether the tag has to be written. -/
def showsTag (key : Bool) (t : ScalarText) : Bool :=
  if t.style key = .plain then !t.plainFits else t.tag ≠ .str

/-- Whether a scalar can be a key on a line with its value. -/
def isSimpleKey (anchorLength : Nat) (t : ScalarText) : Bool :=
  let a := analysis t.content.chars
  anchorLength + (tagText t.tag).length + t.content.chars.length < 128 && !a.empty && !a.multiline

end ScalarText

end AnnotatedApi.Yaml
