/-
  The nodes of a document made into values. A scalar is made when it is first met; a collection is
  noted and filled later. Collections are filled in rounds, those met in one round in the next, so
  of several faults the one nearest to the root is found first.

  Filling a mapping settles it for every place where it occurs: the entries that its merge keys
  bring in stand before its own in the place of those keys, and a key written `=` becomes a text.
  The table of nodes is part of what changes, also while a mapping is settled: a merge key may bring
  in the mapping that it stands in.
-/
import AnnotatedApi.Yaml.Node
import AnnotatedApi.Yaml.Notation

namespace AnnotatedApi.Yaml

/-- What a node has been made into. A scalar keeps the place of its node as its origin; the
constant for what is not a number has none, whatever node it is written in. -/
inductive Made where
  | scalar (origin : Option Nat) (value : Value)
  | collection

/-- The table as settled so far, the number of merge keys it had at first, what has been made of it,
and the collections met in this round, the last one first. -/
structure Filling where
  nodes : Array Node
  merges : Nat
  made : Array (Option Made)
  met : List Nat := []

/-- Steps that make nodes. -/
abbrev Fill := StateT Filling (Except Fault)

/-- The scalar content of a node; a mapping gives that of the value under its `=` key, which may
lead back to the mapping. -/
def scalarContent (nodes : Array Node) : Nat → Nat → Except Fault Content
  | 0, _ => .error .endless
  | fuel + 1, i =>
    match (nodeAt nodes i).shape with
    | .scalar c => .ok c
    | .map entries =>
      match entries.find? fun e => (nodeAt nodes e.1).tag = .value with
      | some e => scalarContent nodes fuel e.2
      | none => .error .malformed
    | _ => .error .malformed

/-- The place of the first merge key among the entries of a mapping. -/
def mergeKey? (nodes : Array Node) (entries : List (Nat × Nat)) : Option Nat :=
  entries.findIdx? fun e => (nodeAt nodes e.1).tag = .merge

/-- The number of merge keys in a table. -/
def mergeCount (nodes : Array Node) : Nat :=
  nodes.foldl
    (fun count n =>
      match n.shape with
      | .map entries => count + entries.countP fun e => (nodeAt nodes e.1).tag = .merge
      | _ => count)
    0

/-- The value of the node `i`, which has the type of a scalar. -/
def madeScalar (nodes : Array Node) (i : Nat) : Except Fault Made := do
  let n := nodeAt nodes i
  let c ← scalarContent nodes nodes.size i
  match n.tag, n.shape with
  | .timestamp, .map _ => .error .timestampOfMapping
  | _, _ =>
    let label : Option Label := if n.shared then some [i] else none
    let constant := n.tag = .float && isNotANumber c.chars
    return .scalar (if constant then none else some i) (← scalarValue label n.tag c)

namespace Fill

def fail {α : Type} (f : Fault) : Fill α := fun _ => .error f

def node (i : Nat) : Fill Node := return nodeAt (← get).nodes i

/-- The node at `i` changed. -/
def change (i : Nat) (f : Node → Node) : Fill Unit :=
  modify fun s => { s with nodes := s.nodes.modify i f }

/-- The entries of the mapping at `i`. -/
def entries (i : Nat) : Fill (List (Nat × Nat)) := do
  match (← node i).shape with
  | .map entries => return entries
  | _ => fail .malformed

/-- The mapping at `i` with other entries. -/
def setEntries (i : Nat) (entries : List (Nat × Nat)) : Fill Unit :=
  change i fun n => { n with shape := .map entries }

/-- The key at `k`: written `=`, it is a text from now on. -/
def settleKey (k : Nat) : Fill Unit :=
  change k fun n => if n.tag = .value then { n with tag := .str } else n

/-- The node `i` noted as made. -/
def keep (i : Nat) (m : Made) : Fill Made := do
  modify fun s => { s with made := s.made.setIfInBounds i (some m) }
  return m

/-- The node `i`, made if it is met for the first time. -/
def make (i : Nat) : Fill Made := do
  let s ← get
  match s.made.getD i none with
  | some m => return m
  | none =>
    let tag := (nodeAt s.nodes i).tag
    if tag.isScalar then
      match madeScalar s.nodes i with
      | .error f => fail f
      | .ok m => keep i m
    else if tag.isCollection then
      modify fun s => { s with met := i :: s.met }
      keep i .collection
    else fail .malformed

/-- The entries of the mapping at `i` after it is settled: `merged` and what its merge keys bring in
stand before its own. A merge key brings in a mapping, or several, the last one first. It is taken
out before these are settled in turn, so each step has one merge key less. -/
def settled : Nat → List (Nat × Nat) → Nat → Fill (List (Nat × Nat))
  | 0, _, _ => fail .malformed
  | fuel + 1, merged, i => do
    let own ← entries i
    match mergeKey? (← get).nodes own with
    | none =>
      own.forM fun e => settleKey e.1
      setEntries i (merged ++ own)
      return merged ++ own
    | some k =>
      setEntries i (own.eraseIdx k)
      let v := (own.getD k default).2
      let brought ← match (← node v).shape with
        | .map _ => settled fuel [] v
        | .seq items => pure (← items.mapM (settled fuel [])).reverse.flatten
        | _ => fail .malformed
      settled fuel (merged ++ brought) i

/-- The one entry of a mapping that stands for a pair. -/
def pair (i : Nat) : Fill Unit := do
  match (← node i).shape with
  | .map [(k, v)] =>
    let _ ← make k
    let _ ← make v
  | _ => fail .malformed

/-- An entry of a mapping; a collection cannot be a key. -/
def entry (e : Nat × Nat) : Fill Unit := do
  match ← make e.1 with
  | .collection => fail .malformed
  | .scalar .. =>
    let _ ← make e.2

/-- The parts of the collection at `i` made. -/
def fill (i : Nat) : Fill Unit := do
  let n ← node i
  match n.tag, n.shape with
  | .seq, .seq items => items.forM fun x => discard (make x)
  | .orderedMap, .seq items | .pairs, .seq items => items.forM pair
  | .map, .map _ | .set, .map _ => (← settled ((← get).merges + 1) [] i).forM entry
  | _, _ => fail .malformed

/-- The collections met so far filled, and then those met on the way. -/
def rounds : Nat → Fill Unit
  | 0 => return ()
  | fuel + 1 => do
    let round := (← get).met.reverse
    if round.isEmpty then return ()
    else
      modify fun s => { s with met := [] }
      round.forM fill
      rounds fuel

end Fill

/-- A document with all nodes made that its root needs. -/
def Document.filling (d : Document) : Except Fault Filling := do
  let start : Filling :=
    { nodes := d.nodes, merges := mergeCount d.nodes, made := Array.replicate d.nodes.size none }
  let (_, f) ← (do let _ ← Fill.make d.root; Fill.rounds d.nodes.size : Fill Unit).run start
  return f

end AnnotatedApi.Yaml
