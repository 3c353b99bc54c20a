/-
  Labels for what the blocks of a run contribute. The operations of one block hold the same
  parameters, and the settings of different annotations are never one object; `Contribution.stamp`
  says both by labels, so that a writer can tell the objects of a run apart. The document of
  `generateStamped` has these labels.
-/
import AnnotatedApi.Document.Generator
import AnnotatedApi.Value.Share

namespace AnnotatedApi

namespace Contribution

/-- The items of a list, each with a label made of its number. -/
def stampList (label : Nat → Label) : Value → Value
  | .list l vs =>
    .list l (vs.zipIdx.map fun (v, i) => (v.relabel (label i)).named (label i))
  | v => v

/-- The entries of a mapping, with the number of each in front of the labels in it. -/
def stampEntries (label : Nat → Label) : Value → Value
  | .map l es => .map l (es.zipIdx.map fun ((k, v), i) => (k, v.relabel (label i)))
  | v => v

/-- The value under a key changed. -/
def inEntry (key : String) (f : Value → Value) : Value → Value
  | .map l es => .map l (es.map fun (k, v) => (k, if k = .str key then f v else v))
  | v => v

/-- An operation of block `n`: its parameters are those of the block, its responses its own. -/
def stampOperation (n i j : Nat) (operation : Value) : Value :=
  inEntry "responses" (stampEntries fun k => [n, 1, i, j, k])
    (inEntry "parameters" (stampList fun k => [n, 0, k]) operation)

/-- The contribution of block `n` of a run. -/
def stamp (n : Nat) (c : Contribution) : Contribution :=
  { c with
    paths := c.paths.zipIdx.map fun ((uri, item), i) =>
      (uri, item.zipIdx.map fun ((method, o), j) => (method, stampOperation n i j o))
    definitions := c.definitions.map fun (name, d) =>
      (name, inEntry "properties" (stampEntries fun k => [n, 2, k]) d) }

end Contribution

/-- The document of a base definition and comment blocks, with labels for what the blocks
contribute. -/
def Generator.generateStamped (opts : GenerateOptions) (definition : Value)
    (blocks : List CommentBlock) : Report GenerateError Value :=
  produce (fun d (block, n) => addPrepared (Contribution.stamp n) opts d block) definition
    (annotated blocks).zipIdx

end AnnotatedApi
