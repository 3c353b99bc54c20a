/-
  From nodes to values: `read` gives the value of the one document in a text. The table of nodes
  is unfolded from its start, each node with the values of the nodes before it. A merge key can give
  a mapping parts that stand behind it, so a root that has no value then is looked for in further
  passes. Values are finite: a node that leads back to itself never comes to one, and a document
  that needs its value is `endless`.
-/
import AnnotatedApi.Value.Members
import AnnotatedApi.Yaml.Filling

namespace AnnotatedApi.Yaml

/-- A key of a mapping, with its origin. -/
structure Key where
  origin : Option Nat
  value : Value

namespace Key

/-- Whether two keys are one: they have one origin or are equal as keys. What is not a number
is equal to nothing, so only the origin counts for it. -/
def same (a b : Key) : Bool := a.origin = b.origin || Value.sameKey a.value b.value

/-- The entries with `v` under the key `k`; a key that is there keeps its place and spelling. -/
def put {α : Type} (k : Key) (v : α) : List (Key × α) → List (Key × α)
  | [] => [(k, v)]
  | (k', w) :: es => if same k' k then (k', v) :: es else (k', w) :: put k v es

end Key

namespace Filling

/-- The key that the node `i` has been made into. -/
def key (f : Filling) (i : Nat) : Key :=
  match f.made.getD i none with
  | some (.scalar origin v) => ⟨origin, v⟩
  | _ => ⟨some i, .null⟩

/-- The entries of a mapping with their keys, of two with one key the last in the place of the
first. -/
def keyed (f : Filling) (es : List (Nat × Nat)) : List (Key × Nat) :=
  es.foldl (fun m e => Key.put (f.key e.1) e.2 m) []

/-- The pair that a mapping with one entry stands for. -/
def pair (f : Filling) (part : Nat → Option Value) (i : Nat) : Option Value :=
  match (nodeAt f.nodes i).shape with
  | .map [(k, v)] => do return .pair (← part k) (← part v)
  | _ => none

/-- The value of the node `i`, if those of its parts are known. -/
def unfold (f : Filling) (known : Array (Option Value)) (i : Nat) : Option Value :=
  let n := nodeAt f.nodes i
  let label : Option Label := if n.shared then some [i] else none
  let part (j : Nat) : Option Value := known.getD j none
  match f.made.getD i none, n.shape with
  | some (.scalar _ v), _ => some v
  | some .collection, .seq items => do
    return .list label (← items.mapM fun x => if n.tag = .seq then part x else f.pair part x)
  | some .collection, .map es =>
    let keyed := f.keyed es
    if n.tag = .set then some (.set label (Value.members (keyed.map fun e => e.1.value)))
    else do return .map label (← keyed.mapM fun e => return (e.1.value, ← part e.2))
  | _, _ => none

/-- The value of the node `i` noted, if it is not known yet. -/
def learn (f : Filling) (known : Array (Option Value)) (i : Nat) : Array (Option Value) :=
  match known.getD i none with
  | some _ => known
  | none => known.setIfInBounds i (f.unfold known i)

/-- A pass over the table. -/
def pass (f : Filling) (known : Array (Option Value)) : Array (Option Value) :=
  (List.range f.nodes.size).foldl f.learn known

/-- The value of the node `i` after a number of passes. -/
def value (f : Filling) (i : Nat) : Nat → Array (Option Value) → Option Value
  | 0, _ => none
  | passes + 1, known =>
    let known := f.pass known
    match known.getD i none with
    | some v => some v
    | none => value f i passes known

end Filling

/-- The value of a document. As many passes as there are nodes find every value there is: each but
the last has found a new one. -/
def Document.value (d : Document) : Except Fault Value := do
  let f ← d.filling
  match f.value d.root f.nodes.size (Array.replicate f.nodes.size none) with
  | some v => return v
  | none => .error .endless

/-- The value of the document in a text; a text without one is null. -/
def read (s : String) : Except Fault Value := do
  match ← document s.toList with
  | none => return .null
  | some d => d.value

end AnnotatedApi.Yaml
