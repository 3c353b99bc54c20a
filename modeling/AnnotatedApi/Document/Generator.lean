/-
  Documents from comment blocks: the skeleton of the base definition takes the contribution of
  each block in turn, and at last its described groups are sorted.
-/
import AnnotatedApi.Config
import AnnotatedApi.Document.Finish

namespace AnnotatedApi

/-- Why no document comes about. -/
inductive GenerateError where
  | assembly (e : AssemblyError)
  | document (e : MergeError)

def GenerateError.isReported : GenerateError → Bool
  | .assembly e => e.isReported
  | .document _ => false

/-- The choices of a run. -/
structure GenerateOptions extends RouteOptions where
  dedupe : Bool := false

/-- The choices that a configuration makes; how descriptions are formatted is not one of them. -/
def Config.options (format : String → String) (c : Config) : GenerateOptions :=
  { format := format
    defaultLocation := .str c.defaultLocation
    headerPolicy := c.headerPolicy
    dedupe := c.dedupe }

namespace Generator

/-- The document that takes contributions unless there is another. -/
def emptyDocument : Value :=
  .object [("paths", .map none []), ("tags", .list none []), ("definitions", .map none [])]

/-- The contribution of a block merged into a document. The contribution may be prepared
before it is merged. -/
def addPrepared (prepare : Contribution → Contribution) (opts : GenerateOptions) (d : Value)
    (block : CommentBlock) : Edit GenerateError Value :=
  let r := Contribution.ofBlock opts.toRouteOptions block
  match r.result with
  | .error e => ⟨d, r.log, some (.assembly e)⟩
  | .ok none => ⟨d, r.log, none⟩
  | .ok (some c) =>
    let e := merge opts.dedupe (prepare c) d
    ⟨e.state, r.log ++ e.log, e.error.map .document⟩

/-- The contribution of a block merged into a document. -/
def add (opts : GenerateOptions) (d : Value) (block : CommentBlock) : Edit GenerateError Value :=
  addPrepared id opts d block

/-- The contributions of all blocks merged into a document. -/
def addAll (opts : GenerateOptions) (d : Value) (blocks : List CommentBlock) :
    Edit GenerateError Value :=
  Edit.each (add opts) d blocks

/-- The blocks that have annotations. -/
def annotated (blocks : List CommentBlock) : List CommentBlock :=
  blocks.filter fun b => !b.tags.isEmpty

def ofMerge {α : Type} : Except MergeError α → Report GenerateError α
  | .ok a => pure a
  | .error e => .fail (.document e)

/-- The document that a base definition comes to when each item is taken in by `step`. -/
def produce {β : Type} (step : Value → β → Edit GenerateError Value) (definition : Value)
    (items : List β) : Report GenerateError Value := do
  let base ← ofMerge (skeleton definition)
  let d ← (Edit.each step base items).toReport
  ofMerge (finalize d)

/-- The document of a base definition and comment blocks. -/
def generate (opts : GenerateOptions) (definition : Value) (blocks : List CommentBlock) :
    Report GenerateError Value :=
  produce (add opts) definition (annotated blocks)

end Generator

end AnnotatedApi
