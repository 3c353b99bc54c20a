/-
  Models: the schema that a `typedef` block declares, with a property for each `property`
  annotation. A property is a reference, or a type with a description and the settings of its
  annotation written over them.
-/
import AnnotatedApi.Annotation.Parameter

namespace AnnotatedApi

/-- A property with its name, and whether it is marked as required. -/
structure Property where
  name : String
  required : Bool
  fields : Fields

namespace Property

/-- The name before the first dot, and what follows it. -/
def splitName (name : String) : String × String :=
  let (base, rest) := Text.cutAt '.' name.toList
  (String.ofList base, String.ofList (rest.getD []))

/-- Whether the second part of a dotted name marks the property as required. -/
def markedByName (name : String) : Bool :=
  (TypeExpr.parts (splitName name).2).headD "" = "required"

/-- The fields of a property that is no reference, null ones left out. -/
def plainFields (type : Option TypeExpr) (description : String) (settings : Fields) : Fields :=
  let name := match type with
    | none => some "string"
    | some _ => TypeExpr.typeName type
  let items := ((TypeExpr.itemSchema type).or (Assoc.get? "items" settings)).filter Value.truthy
  let fields :=
    [("type", TypeExpr.optionValue name), ("description", .str description)] ++
      (items.map fun v => ("items", v)).toList
  (Assoc.update fields settings).filter fun f => f.2 ≠ .null

/-- The property of an annotation whose settings are given. -/
def assemble (format : String → String) (name : String) (type : Option TypeExpr)
    (extracted : Extracted) : Except AssemblyError Property := do
  let type := extracted.declared.or type
  let required := markedByName name ||
    (Assoc.get? "required" extracted.settings).any Value.truthy
  let settings := Assoc.erase "required" (Assoc.erase "propertyType" extracted.settings)
  let ref ← extracted.modelRef type
  return {
    name := if required then (splitName name).1 else name
    required := required
    fields := match ref with
      | some target => [("$ref", target)]
      | none => plainFields type (format extracted.description) settings }

def ofTag (format : String → String) (t : Tag) : Except AssemblyError Property := do
  let extracted ← AssemblyError.ofSettings (Settings.extract t.description)
  assemble format t.name t.type extracted

end Property

structure Model where
  name : String
  parent : Option String
  properties : List Property

namespace Model

/-- The names of the properties marked as required. -/
def required (m : Model) : List String := (m.properties.filter (·.required)).map (·.name)

/-- The properties by name; of two with one name the last counts, in the place of the first. -/
def propertyMap (m : Model) : List (String × Fields) :=
  Assoc.ofEntries (m.properties.map fun p => (p.name, p.fields))

def definition (m : Model) : Fields :=
  (m.parent.map fun p => ("allOf", Value.array [TypeExpr.refTo p])).toList ++
    (if m.required.isEmpty then [] else [("required", .array (m.required.map .str))]) ++
    [("properties", .object (m.propertyMap.map fun e => (e.1, .object e.2)))]

/-- The model that the annotations of a block declare. -/
def ofTags (format : String → String) : List Tag → Report AssemblyError Model
  | [] => .fail .noTags
  | head :: rest => do
    let properties ← Report.ofExcept
      ((rest.filter fun t => t.title = "property").mapM (Property.ofTag format))
    let parent := (head.type.bind (·.name)).filter (· ≠ "")
    let model : Model := ⟨head.name, parent, properties⟩
    Report.say .debug .models
      ("Assembled model " ++ head.name ++ " with " ++
        String.ofList (Text.decimal model.propertyMap.length) ++ " properties")
    return model

end Model

end AnnotatedApi
