/-
  Values whose texts hold halves of characters. `wellFormed` says that none does, and `restored`
  turns the texts in which halves are kept as characters back into code points.
-/
import AnnotatedApi.Text.Surrogate
import AnnotatedApi.Value

namespace AnnotatedApi.Value

mutual

/-- Whether no text in a value holds half a character. The members of a set are not looked at:
they are never written as they are. -/
def wellFormed : Value → Bool
  | .illFormed _ => false
  | .pair a b => a.wellFormed && b.wellFormed
  | .list _ vs => wellFormedList vs
  | .map _ es => wellFormedEntries es
  | _ => true

def wellFormedList : List Value → Bool
  | [] => true
  | v :: vs => v.wellFormed && wellFormedList vs

def wellFormedEntries : List (Value × Value) → Bool
  | [] => true
  | (k, v) :: es => k.wellFormed && v.wellFormed && wellFormedEntries es

end

mutual

/-- A value with the halves that its texts keep as code points. -/
def restored : Value → Value
  | .str s => if s.any Text.isHalf then .illFormed (s.toList.map Text.point) else .str s
  | .pair a b => .pair a.restored b.restored
  | .list l vs => .list l (restoredList vs)
  | .set l vs => .set l (restoredList vs)
  | .map l es => .map l (restoredEntries es)
  | v => v

def restoredList : List Value → List Value
  | [] => []
  | v :: vs => v.restored :: restoredList vs

def restoredEntries : List (Value × Value) → List (Value × Value)
  | [] => []
  | (k, v) :: es => (k.restored, v.restored) :: restoredEntries es

end

end AnnotatedApi.Value
