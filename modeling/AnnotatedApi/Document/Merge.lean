/-
  Merging a contribution into a document. Operations and definitions replace those under the
  same keys. Described groups are appended, or, without duplicates, fill in the description of
  the first entry of their name. A document of the wrong shape stops the merge, and what was
  changed until then stays changed.
-/
import AnnotatedApi.Document.Contribution
import AnnotatedApi.Document.Edit
import AnnotatedApi.Value.Share

namespace AnnotatedApi

/-- Why a document cannot take a contribution. -/
inductive MergeError where
  | wrongContainer  -- an entry of the document is not the container it should be
  | noItems  -- an entry is of a kind without items to set or to go through
  | missingField  -- a described group lacks a field
deriving DecidableEq

/-- The entries of a document. -/
abbrev Entries := List (Value × Value)

namespace Entries

def get? (key : String) (d : Entries) : Option Value := Assoc.get? (.str key) d

/-- The value under a key set; all places of that object change with it. -/
def set (key : String) (v : Value) (d : Entries) : Entries :=
  Value.settle v (Assoc.set (.str key) v d)

/-- The document with `v` under the key, unless there is something already. -/
def ensure (key : String) (v : Value) (d : Entries) : Entries :=
  if (d.get? key).isSome then d else d.set key v

end Entries

namespace Merge

def replacing (uri method : String) : LogEntry :=
  ⟨.debug, .contributions,
    "Replacing operation " ++ String.ofList (Text.upper method.toList) ++ " " ++ uri⟩

/-- Whether a text is found in a value; nothing if the value cannot be searched. -/
def found? (text : String) : Value → Option Bool
  | .map _ es => some ((Assoc.get? (.str text) es).isSome)
  | .list _ vs | .set _ vs => some (vs.contains (.str text))
  | .pair a b => some (a = .str text || b = .str text)
  | .str s => some (Text.cut? text.toList s.toList).isSome
  | .illFormed _ => some false
  | _ => none

/-- The path item of a uri in the document, changed. -/
def setItem (uri : String) (item : Value) (d : Entries) : Entries :=
  match d.get? "paths" with
  | some (.map l paths) =>
    let d : Entries := d.set "paths" (.map l (Assoc.set (.str uri) item paths))
    let d : Entries := Value.settle item d
    match d.get? "paths" with
    | some v => d.set "paths" v
    | none => d
  | _ => d

/-- The path item of a uri in the document. -/
def item? (uri : String) (d : Entries) : Option Value :=
  match d.get? "paths" with
  | some (.map _ paths) => Assoc.get? (.str uri) paths
  | _ => none

/-- An operation put under its uri and method. -/
def addOperation (uri : String) (d : Entries) (op : String × Value) : Edit MergeError Entries :=
  match item? uri d with
  | none => ⟨d, [], some .wrongContainer⟩
  | some existing =>
    match found? op.1 existing with
    | none => ⟨d, [], some .noItems⟩
    | some there =>
      let log := if there then [replacing uri op.1] else []
      match existing with
      | .map l item => ⟨setItem uri (.map l (Assoc.set (.str op.1) op.2 item)) d, log, none⟩
      | _ => ⟨d, log, some .noItems⟩

/-- The operations of a uri. -/
def addPath (d : Entries) (path : String × List (String × Value)) : Edit MergeError Entries :=
  match d.get? "paths" with
  | some (.map _ paths) =>
    let d : Entries :=
      if (Assoc.get? (.str path.1) paths).isSome then d else setItem path.1 (.map none []) d
    Edit.each (addOperation path.1) d path.2
  | _ => ⟨d, [], some .wrongContainer⟩

/-- A described group as an entry of the document. -/
def tagValue (tag : List (String × String)) : Value := .object (tag.map fun f => (f.1, .str f.2))

/-- The place of the first entry with the name of a described group, counted from `i`. -/
def knownFrom (tag : List (String × String)) (i : Nat) : List Value → Except MergeError (Option Nat)
  | [] => .ok none
  | .map _ es :: ts =>
    match Assoc.get? "name" tag with
    | none => .error .missingField
    | some name =>
      if Assoc.get? (.str "name") es = some (.str name) then .ok (some i)
      else knownFrom tag (i + 1) ts
  | _ :: _ => .error .wrongContainer

/-- The list of described groups changed. -/
def setTags (tags : Value) (d : Entries) : Entries := d.set "tags" tags

/-- An entry of the list of described groups that borrows a description if it has none. -/
def describe (tag : List (String × String)) (l : Option Label) (i : Nat) (tags : List Value)
    (d : Entries) : Edit MergeError Entries :=
  match tags[i]? with
  | some (.map m es) =>
    if (Assoc.get? (.str "description") es).any Value.truthy then ⟨d, [], none⟩
    else
      match Assoc.get? "description" tag with
      | none => ⟨d, [], some .missingField⟩
      | some text =>
        let entry := Value.map m (Assoc.set (.str "description") (.str text) es)
        let d : Entries := Value.settle entry (setTags (.list l (tags.set i entry)) d)
        match d.get? "tags" with
        | some v => ⟨setTags v d, [], none⟩
        | none => ⟨d, [], none⟩
  | _ => ⟨d, [], none⟩

/-- What a search through the described groups finds when they are no list. -/
def searchFault : Value → MergeError
  | .null | .bool _ | .int _ | .float _ | .date .. | .moment .. => .noItems
  | _ => .wrongContainer

/-- A described group taken into the document. -/
def addTag (dedupe : Bool) (d : Entries) (tag : List (String × String)) : Edit MergeError Entries :=
  match d.get? "tags" with
  | some (.list l tags) =>
    let appended := setTags (.list l (tags ++ [tagValue tag])) d
    if dedupe then
      match knownFrom tag 0 tags with
      | .error e => ⟨d, [], some e⟩
      | .ok (some i) => describe tag l i tags d
      | .ok none => ⟨appended, [], none⟩
    else ⟨appended, [], none⟩
  | some v => ⟨d, [], some (if dedupe then searchFault v else .wrongContainer)⟩
  | none => ⟨d, [], none⟩

/-- The definitions written over those of the document. -/
def addDefinitions (definitions : List (String × Value)) (d : Entries) : Edit MergeError Entries :=
  match d.get? "definitions" with
  | some (.map l es) =>
    let es := definitions.foldl (fun es e => Assoc.set (.str e.1) e.2 es) es
    ⟨d.set "definitions" (.map l es), [], none⟩
  | some (.set l vs) =>
    let vs := definitions.foldl
      (fun vs e => if vs.contains (.str e.1) then vs else vs ++ [.str e.1]) vs
    ⟨d.set "definitions" (.set l vs), [], none⟩
  | _ => ⟨d, [], some .wrongContainer⟩

/-- A contribution merged into the entries of a document. -/
def entries (dedupe : Bool) (c : Contribution) (d : Entries) : Edit MergeError Entries :=
  ((Edit.each addPath (d.ensure "paths" (.map none [])) c.paths).andThen
    fun d => Edit.each (addTag dedupe) (d.ensure "tags" (.list none [])) c.tags).andThen
      fun d => addDefinitions c.definitions (d.ensure "definitions" (.map none []))

end Merge

/-- A contribution merged into a document. -/
def merge (dedupe : Bool) (c : Contribution) : Value → Edit MergeError Value
  | .map l d =>
    let e := Merge.entries dedupe c d
    ⟨.map l e.state, e.log, e.error⟩
  | v => ⟨v, [], some .wrongContainer⟩

end AnnotatedApi
