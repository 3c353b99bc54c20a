/-
  Documentation comments: a description and the annotations below it, in order. Each annotation
  has a title, as in `@title`, and perhaps a name, a type and a description.
-/
import AnnotatedApi.Annotation.TypeExpr

namespace AnnotatedApi

structure Tag where
  title : String
  name : String := ""
  type : Option TypeExpr := none
  description : String := ""

namespace Tag

/-- A field of a record: checked if it is there. -/
def field? {α : Type} (key : String) (entries : List (Value × Value)) (check : Value → Checked α)
    (default : Checked α) : Checked α :=
  match Assoc.get? (.str key) entries with
  | some v => (check v).under (.field key)
  | none => default

/-- A field that has to be there. -/
def missing {α : Type} (key : String) : Checked α :=
  (Checked.complain .missing).under (.field key)

/-- The annotation that a value describes. -/
def check : Value → Checked Tag
  | .map _ entries =>
    (Checked.both (field? "title" entries Checked.text (missing "title"))
      (Checked.both (field? "name" entries Checked.textOrEmpty (.ok ""))
        (Checked.both (field? "type" entries TypeExpr.check? (.ok none))
          (field? "description" entries Checked.textOrEmpty (.ok ""))))).map
      fun (title, name, type, description) => ⟨title, name, type, description⟩
  | _ => Checked.complain .notRecord

/-- An annotation as the value that describes it. -/
def toValue (t : Tag) : Value :=
  .object
    [("title", .str t.title), ("name", .str t.name), ("type", TypeExpr.optionToValue t.type),
     ("description", .str t.description)]

end Tag

structure CommentBlock where
  description : String := ""
  tags : List Tag := []

namespace CommentBlock

/-- The comment that a value describes. -/
def check : Value → Checked CommentBlock
  | .map _ entries =>
    (Checked.both (Tag.field? "description" entries Checked.textOrEmpty (.ok ""))
      (Tag.field? "tags" entries
        (fun v => do Checked.items 0 ((← Checked.listItems v).map Tag.check)) (.ok []))).map
      fun (description, tags) => ⟨description, tags⟩
  | _ => Checked.complain .notRecord

/-- A comment as the value that describes it. -/
def toValue (b : CommentBlock) : Value :=
  .object [("description", .str b.description), ("tags", .array (b.tags.map Tag.toValue))]

def hasTitle (title : String) (b : CommentBlock) : Bool := b.tags.any fun t => t.title = title

/-- A model is declared by a `typedef` annotation at the head and a `swaggermodel` beside it. -/
def isModel (b : CommentBlock) : Bool :=
  b.tags.head?.any (fun t => t.title = "typedef") && b.hasTitle "swaggermodel"

def isRoute (b : CommentBlock) : Bool := b.hasTitle "route"

end CommentBlock

/-- Why a loaded file holds no comments: it is neither a list nor a single one, or one of them
has the wrong shape. -/
inductive CommentsError where
  | notIterable
  | invalid (complaints : List Complaint)

def CommentsError.isReported : CommentsError → Bool
  | .notIterable => false
  | .invalid _ => true

/-- The values of the comments in the value of a file. -/
def commentValues : Value → Except CommentsError (List Value)
  | v =>
    if v.truthy then
      match v with
      | .map .. => .ok [v]
      | .list _ vs | .set _ vs => .ok vs
      | .pair a b => .ok [a, b]
      | .str s => .ok (s.toList.map fun c => .str (String.singleton c))
      | .illFormed points => .ok (points.map fun n => .illFormed [n])
      | .bytes bs => .ok (bs.map fun b => .int b.toNat)
      | _ => .error .notIterable
    else .ok []

/-- The comments in the value of a file; the first that is none is what counts. -/
def commentsOf (v : Value) : Except CommentsError (List CommentBlock) := do
  (← commentValues v).mapM fun item =>
    match CommentBlock.check item with
    | .ok b => .ok b
    | .error cs => .error (.invalid cs)

end AnnotatedApi
