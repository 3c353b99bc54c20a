/-
  Code points that stand for half a character. A high one followed by a low one spells a
  character beyond the first plane; alone, neither is one.

  No character string can hold such a half. Where a text with halves has to be one, each half is
  kept as a character for private use (`ofPoint`), and `point` tells what it was kept for. That
  tells apart all texts but those that hold these characters themselves, so it is done only in
  texts that spell a half (`spellsHalf`).
-/

namespace AnnotatedApi.Text

def isHigh (n : Nat) : Bool := 0xD800 ≤ n && n < 0xDC00

def isLow (n : Nat) : Bool := 0xDC00 ≤ n && n < 0xE000

/-- The code points with every pair of a high and a low half joined. -/
def joinPairs : List Nat → List Nat
  | [] => []
  | [n] => [n]
  | h :: l :: ns =>
    if isHigh h && isLow l then (0x10000 + (h - 0xD800) * 0x400 + (l - 0xDC00)) :: joinPairs ns
    else h :: joinPairs (l :: ns)

/-- The text of code points that are all characters. -/
def ofPoints? (ns : List Nat) : Option String :=
  if ns.all fun n => decide n.isValidChar then some (String.ofList (ns.map Char.ofNat)) else none

/-- The distance of a half from the character that it is kept as. -/
def halfOffset : Nat := 0x100000

/-- A code point as a character, a half as the one that it is kept as. -/
def ofPoint (n : Nat) : Char :=
  if isHigh n || isLow n then Char.ofNat (n + halfOffset) else Char.ofNat n

def ofPoints (ns : List Nat) : String := String.ofList (ns.map ofPoint)

/-- Whether a character may be a half that is kept. -/
def isHalf (c : Char) : Bool :=
  isHigh (c.toNat - halfOffset) || isLow (c.toNat - halfOffset)

/-- The code point that a character was kept for. -/
def point (c : Char) : Nat := if isHalf c then c.toNat - halfOffset else c.toNat

/-- A text with every pair of halves as the character that it spells. -/
def joined (s : String) : String :=
  if s.any isHalf then ofPoints (joinPairs (s.toList.map point)) else s

/-- Whether hexadecimal digits start with those of half a character. -/
def startsHalf : List Char → Bool
  | a :: b :: _ => (a = 'd' || a = 'D') && "89abcdefABCDEF".toList.contains b
  | _ => false

/-- Whether a text has an escape that spells half a character, with four digits or with eight. -/
def spellsHalf : List Char → Bool
  | [] => false
  | '\\' :: 'u' :: s => startsHalf s || spellsHalf s
  | '\\' :: 'U' :: '0' :: '0' :: '0' :: '0' :: s => startsHalf s || spellsHalf s
  | _ :: s => spellsHalf s

end AnnotatedApi.Text
