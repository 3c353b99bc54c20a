/-
  Contributions: the part of a document that one comment block gives, as operations, described
  groups and definitions.
-/
import AnnotatedApi.Annotation.Operation

namespace AnnotatedApi

structure Contribution where
  paths : List (String × List (String × Value)) := []
  tags : List (List (String × String)) := []
  definitions : List (String × Value) := []

namespace Contribution

def ofRoutes (r : Routes) : Contribution :=
  { paths := r.paths.map fun (uri, item) =>
      (uri, item.map fun (method, o) => (method, .object o.fields))
    tags := r.groups.map fun g => [("name", g.name), ("description", g.description)] }

def ofModel (m : Model) : Contribution := { definitions := [(m.name, .object m.definition)] }

/-- What a block contributes; nothing if it is neither a model nor a route. -/
def ofBlock (opts : RouteOptions) (block : CommentBlock) :
    Report AssemblyError (Option Contribution) := do
  if block.isModel then return some (ofModel (← Model.ofTags opts.format block.tags))
  else if block.isRoute then return some (ofRoutes (← Routes.ofBlock opts block))
  else
    Report.say .debug .contributions "Skipping comment block without route or swagger model tags"
    return none

/-- A mapping with text keys, each value checked in its place. -/
def mapOf {α : Type} (check : Value → Checked α) : Value → Checked (List (String × α))
  | .map _ entries =>
    (Checked.every (entries.map fun e =>
      Checked.both (Checked.textKey e.1) (Checked.under (Checked.keyPlace e.1) (check e.2)))).map
        Assoc.ofEntries
  | _ => Checked.complain .notMapping

/-- A mapping of any kind. -/
def anyMap : Value → Checked Value
  | .map _ entries => .ok (.map none entries)
  | _ => Checked.complain .notMapping

/-- The contribution that a value describes. -/
def check : Value → Checked Contribution
  | .map _ entries =>
    (Checked.both (Tag.field? "paths" entries (mapOf (mapOf anyMap)) (.ok []))
      (Checked.both
        (Tag.field? "tags" entries
          (fun v => do Checked.items 0 ((← Checked.listItems v).map (mapOf Checked.text))) (.ok []))
        (Tag.field? "definitions" entries (mapOf anyMap) (.ok [])))).map
      fun (paths, tags, definitions) => ⟨paths, tags, definitions⟩
  | _ => Checked.complain .notRecord

def toValue (c : Contribution) : Value :=
  .object
    [("paths", .object (c.paths.map fun e => (e.1, .object e.2))),
     ("tags", .array (c.tags.map fun t => .object (t.map fun f => (f.1, .str f.2)))),
     ("definitions", .object c.definitions)]

end Contribution

end AnnotatedApi
