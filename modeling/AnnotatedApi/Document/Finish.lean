/-
  The first and the last step of making a document: the skeleton that contributions go into, and
  the sorting of the described groups by name, with case ignored first.
-/
import AnnotatedApi.Document.Merge

namespace AnnotatedApi

def swaggerVersion : String := "2.0"

/-- The containers of mappings that a document has. -/
def sections : List String :=
  ["paths", "definitions", "responses", "parameters", "securityDefinitions"]

namespace Skeleton

/-- The section `key` of a document, with `empty` in the place of nothing. -/
def fill (empty : Value) (d : Entries) (key : String) : Entries :=
  if (d.get? key).any Value.truthy then d else Assoc.set (.str key) empty d

def entries (d : Entries) : Entries :=
  let d := Assoc.set (.str "swagger") (.str swaggerVersion) d
  fill (.list none []) (sections.foldl (fill (.map none [])) d) "tags"

end Skeleton

/-- The skeleton of a document: the base definition with the version and the missing sections. -/
def skeleton : Value → Except MergeError Value
  | .map l d => .ok (.map l (Skeleton.entries d))
  | _ => .error .noItems

namespace Finish

/-- Whether one text stands before another or is the same, character by character. -/
def textLe : List Nat → List Nat → Bool
  | [], _ => true
  | _ :: _, [] => false
  | a :: as, b :: bs => a < b || (a = b && textLe as bs)

/-- What entries are sorted by: the name with case folded, and then the name. -/
structure SortKey where
  folded : List Nat
  name : List Nat
deriving DecidableEq

def SortKey.le (a b : SortKey) : Bool :=
  if a.folded = b.folded then textLe a.name b.name else textLe a.folded b.folded

/-- Case folding of code points; what is no character stays. -/
def foldPoints (ps : List Nat) : List Nat :=
  ps.flatMap fun n =>
    if n.isValidChar then (Text.foldChar (Char.ofNat n)).map Char.toNat else [n]

def keyOfName : Value → Except MergeError SortKey
  | .str s => .ok ⟨(Text.fold s.toList).map Char.toNat, s.toList.map Char.toNat⟩
  | .illFormed ps => .ok ⟨foldPoints ps, ps⟩
  | _ => .error .wrongContainer

/-- The key of an entry; an absent name is the empty one. -/
def sortKey : Value → Except MergeError SortKey
  | .map _ es => keyOfName ((Assoc.get? (.str "name") es).getD (.str ""))
  | _ => .error .wrongContainer

/-- The items that a value goes through. -/
def items? : Value → Option (List Value)
  | .list _ vs | .set _ vs => some vs
  | .pair a b => some [a, b]
  | .map _ es => some (es.map Prod.fst)
  | .str s => some (s.toList.map fun c => .str (String.singleton c))
  | .illFormed ps => some (ps.map fun n => .illFormed [n])
  | .bytes bs => some (bs.map fun b => .int b.toNat)
  | _ => none

/-- The entries sorted by their keys; entries with one key keep their order. -/
def sorted (tags : List Value) : Except MergeError (List Value) := do
  let keyed ← tags.mapM fun t => do return (← sortKey t, t)
  return (keyed.mergeSort fun a b => a.1.le b.1).map Prod.snd

def entries (d : Entries) : Except MergeError Entries := do
  match items? ((d.get? "tags").getD (.list none [])) with
  | none => .error .noItems
  | some tags => return Assoc.set (.str "tags") (.list none (← sorted tags)) d

end Finish

/-- A document with its described groups sorted. -/
def finalize : Value → Except MergeError Value
  | .map l d => do return .map l (← Finish.entries d)
  | _ => .error .wrongContainer

end AnnotatedApi
