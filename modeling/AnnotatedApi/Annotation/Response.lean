/-
  Responses, written `code - description`. The response under a status code comes from the last
  annotation with that code and from the headers of the code.
-/
import AnnotatedApi.Annotation.Header
import AnnotatedApi.Annotation.Settings

namespace AnnotatedApi

/-- Why the annotations of a block cannot be put together. -/
inductive AssemblyError where
  | settings (e : SettingsError)
  | unwritableModel
  | notATypeExpr
  | invalidLocation (complaints : List Complaint)
  | securityTooLong
  | noTags

namespace AssemblyError

def ofSettings {α : Type} : Except SettingsError α → Except AssemblyError α
  | .ok a => .ok a
  | .error e => .error (.settings e)

def ofRef {α : Type} : Except TypeExpr.RefError α → Except AssemblyError α
  | .ok a => .ok a
  | .error .unwritable => .error .unwritableModel

def isReported : AssemblyError → Bool
  | .settings e => e.isReported
  | .invalidLocation _ => true
  | .unwritableModel | .notATypeExpr | .securityTooLong | .noTags => false

end AssemblyError

/-- The reference of an annotation with the type `type`. Beside a type in the settings that is
no type expression only a model name gives one. -/
def Extracted.modelRef (e : Extracted) (type : Option TypeExpr) :
    Except AssemblyError (Option Value) :=
  let name := Assoc.get? "modelName" e.settings
  if e.hasRawType && !name.any Value.truthy then .error .notATypeExpr
  else AssemblyError.ofRef (TypeExpr.modelRef type name)

/-- The schema of a response: a type, the items of a list, a reference. -/
structure Schema where
  type : Option String := none
  items : Option Value := none
  ref : Option Value := none

namespace Schema

def fields (s : Schema) : List (String × Value) :=
  (s.type.map fun t => ("type", Value.str t)).toList ++
    (s.items.map fun v => ("items", v)).toList ++ (s.ref.map fun v => ("$ref", v)).toList

/-- A reference leaves no type beside it but that of a list. -/
def withRef (ref : Option Value) (s : Schema) : Schema :=
  match ref with
  | none => s
  | some r => { s with ref := some r, type := s.type.filter (· = "array") }

def ofTag (type : Option TypeExpr) (settings : List (String × Value)) :
    Except TypeExpr.RefError Schema := do
  let items := ((TypeExpr.itemSchema type).or (Assoc.get? "items" settings)).filter Value.truthy
  let ref ← TypeExpr.modelRef type (Assoc.get? "modelName" settings)
  let named : Schema := { type := (TypeExpr.typeName type).filter (· ≠ ""), items := items }
  return named.withRef ref

end Schema

structure Response where
  description : String
  headers : Option (List (String × Header)) := none
  schema : Schema := {}

namespace Response

def fields (r : Response) : List (String × Value) :=
  [("description", .str r.description)] ++
    (r.headers.map fun hs => ("headers", HeaderMap.codeValue hs)).toList ++
    (if r.schema.fields.isEmpty then [] else [("schema", .object r.schema.fields)])

def toValue (r : Response) : Value := .object r.fields

/-- Whether an annotation describes a response. -/
def isResponseTag (t : Tag) : Bool := t.title = "returns" || t.title = "return"

/-- The status code of a response annotation and the text after it. -/
def split (description : String) : String × String :=
  let (code, rest) := Text.cutAt '-' description.toList
  (String.ofList (Text.trim code), String.ofList (Text.trim (rest.getD [])))

/-- The status code and the response of an annotation. -/
def ofTag (format : String → String) (headers : HeaderMap) (t : Tag) :
    Except AssemblyError (String × Response) := do
  let (code, rest) := split t.description
  let extracted ← AssemblyError.ofSettings (Settings.extract rest)
  let schema ← AssemblyError.ofRef (Schema.ofTag t.type extracted.settings)
  return (code, ⟨format extracted.description, Assoc.get? code headers, schema⟩)

/-- The responses of a block, by status code. -/
def ofTags (format : String → String) (policy : HeaderPolicy) (tags : List Tag) :
    Report AssemblyError (List (String × Response)) := do
  let headers ← HeaderMap.ofTags policy tags
  let pairs ← Report.ofExcept ((tags.filter isResponseTag).mapM (ofTag format headers))
  return Assoc.ofEntries pairs

end Response

end AnnotatedApi
