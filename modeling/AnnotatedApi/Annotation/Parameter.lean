/-
  Parameters of an operation. The name of the annotation says the name, the location and whether
  the parameter is required, as in `id.path.required`; the settings in its description override
  what the annotation says, and its type is a schema or a simple type.
-/
import AnnotatedApi.Annotation.Response
import AnnotatedApi.Annotation.Route

namespace AnnotatedApi

/-- The name, location and necessity of a parameter. -/
structure Field where
  name : String
  location : String
  required : Bool
deriving DecidableEq

namespace Field

/-- The location of parameters that name none, unless it is chosen. -/
def defaultLocation : Value := .str Route.defaultMethod

/-- A field from `name.location.required`. A location that is not given is the default one,
which has to be a text then. -/
def parse (default : Value) (text : String) : Checked Field :=
  let parts := TypeExpr.parts text
  let location := match parts.getD 1 "" with
    | "" => Checked.under (.field "location") (Checked.text default)
    | s => .ok s
  location.map fun l => ⟨parts.headD "", l, decide (parts.getD 2 "" = "required")⟩

end Field

/-- An object with text keys, in order. -/
abbrev Fields := List (String × Value)

namespace Parameter

/-- A type name with its format, as in `integer.int64`. -/
def withType (type : String) (fields : Fields) : Fields :=
  let (name, format) := Text.cutAt '.' type.toList
  let fields := Assoc.set "type" (.str (String.ofList name)) fields
  match format with
  | none => fields
  | some [] => fields
  | some f => Assoc.set "format" (.str (String.ofList f)) fields

/-- The type of a parameter that is no reference: its name, its format and its items. -/
def withSimpleType (type : Option TypeExpr) (fields : Fields) : Fields :=
  let name := match type with
    | none => some "string"
    | some _ => TypeExpr.typeName type
  let fields := match name.filter (· ≠ "") with
    | none => fields
    | some n => withType n fields
  match TypeExpr.itemSchema type with
  | none => fields
  | some items => if Assoc.contains "items" fields then fields else Assoc.set "items" items fields

/-- The fields of a parameter that its name, its description and its settings give. -/
def baseFields (field : Field) (description : String) (settings : Fields) : Fields :=
  Assoc.update
    [("name", .str field.name), ("in", .str field.location), ("description", .str description),
     ("required", .bool field.required)]
    settings

/-- The parameter of an annotation whose settings are given. -/
def assemble (format : String → String) (default : Value) (name : String) (type : Option TypeExpr)
    (extracted : Extracted) : Except AssemblyError Fields := do
  let type := extracted.declared.or type
  let settings := Assoc.erase "modelName" (Assoc.erase "propertyType" extracted.settings)
  let field ← match Field.parse default name with
    | .ok f => pure f
    | .error cs => .error (.invalidLocation cs)
  let fields := baseFields field (format extracted.description) settings
  let ref ← extracted.modelRef type
  return match ref with
    | some target => Assoc.set "schema" (.object [("$ref", target)]) fields
    | none => withSimpleType type fields

def ofTag (format : String → String) (default : Value) (t : Tag) : Except AssemblyError Fields := do
  let extracted ← AssemblyError.ofSettings (Settings.extract t.description)
  assemble format default t.name t.type extracted

end Parameter

end AnnotatedApi
