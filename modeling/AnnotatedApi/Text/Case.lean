/-
  Lower case, upper case and case folding of a text, by the full mappings of Unicode: one
  character may become several. Lower case depends on context in one place, the capital sigma,
  which becomes the final form at the end of a word.
-/
import AnnotatedApi.Text.CaseTable

namespace AnnotatedApi.Text

/-- The code point `n` after the first shift that covers it. -/
def shifted (shifts : List Shift) (n : Nat) : Nat :=
  match shifts.find? fun s => s.first ≤ n && n ≤ s.last && (n - s.first) % s.step == 0 with
  | some s => ((n : Int) + s.distance).toNat
  | none => n

/-- The image of `c`: its own entry among the long images if there is one, else its shift. -/
def mapped (shifts : List Shift) (long : List (Nat × List Nat)) (c : Char) : List Char :=
  match long.lookup c.toNat with
  | some image => image.map Char.ofNat
  | none => [Char.ofNat (shifted shifts c.toNat)]

def lowerChar (c : Char) : List Char :=
  if c.toNat < 128 then [c.toLower] else mapped lowerShifts lowerLong c

def upperChar (c : Char) : List Char :=
  if c.toNat < 128 then [c.toUpper] else mapped upperShifts upperLong c

def foldChar (c : Char) : List Char :=
  if c.toNat < 128 then [c.toLower] else mapped foldShifts foldLong c

def isCased (c : Char) : Bool :=
  if c.toNat < 128 then c.isAlpha else within wideCased c.toNat

def isCaseIgnorable (c : Char) : Bool := within caseIgnorable c.toNat

/-- Whether the first character that casing does not look through is cased. -/
def casedNext : List Char → Bool
  | [] => false
  | c :: s => if isCaseIgnorable c then casedNext s else isCased c

/-- `cased` says whether the nearest character before that casing does not look through is
cased. -/
def lowerFrom (cased : Bool) : List Char → List Char
  | [] => []
  | c :: s =>
    let image :=
      if c = 'Σ' then [if cased && !casedNext s then 'ς' else 'σ'] else lowerChar c
    image ++ lowerFrom (if isCaseIgnorable c then cased else isCased c) s

def lower (s : List Char) : List Char := lowerFrom false s

def upper (s : List Char) : List Char := s.flatMap upperChar

/-- Case folding: texts that differ in case only have the same folding. -/
def fold (s : List Char) : List Char := s.flatMap foldChar

end AnnotatedApi.Text
