/-
  Type expressions of annotations, as `Pet.model` or `Array.<Pet>`, and what they say about a
  schema: a type name, a reference to a model, or the schema of the items of a list. A dotted
  name whose second part is `model` refers to the definition named by the first part.
-/
import AnnotatedApi.Assoc
import AnnotatedApi.Text.Case
import AnnotatedApi.Text.Cut
import AnnotatedApi.Validation

namespace AnnotatedApi

structure TypeExpr where
  kind : String := "NameExpression"
  name : Option String := none
  expression : Option TypeExpr := none
  applications : List TypeExpr := []
  elements : List TypeExpr := []

namespace TypeExpr

/-- The value of a model setting cannot be written out as text. -/
inductive RefError where
  | unwritable

/-- The text that refers to the definition of a model. -/
def target (model : String) : String := "#/definitions/" ++ model

/-- The schema that refers to the definition of a model. -/
def refTo (model : String) : Value := .object [("$ref", .str (target model))]

/-- The parts of a dotted name. -/
def parts (name : String) : List String := (Text.splitAt '.' name.toList).map String.ofList

/-- The model that a dotted name refers to. -/
def modelOf? (name : String) : Option String :=
  match parts name with
  | model :: "model" :: _ => some model
  | _ => none

/-- The type name that an expression stands for; nothing for an absent one and for `void`. -/
def typeName : Option TypeExpr → Option String
  | none => none
  | some e =>
    match e.name with
    | some name =>
      if name = "" then headName e.expression
      else
        match modelOf? name with
        | some model => some model
        | none => if name = "void" then none else some name
    | none => headName e.expression
where
  /-- The name of the generic type of an application, in lower case. -/
  headName : Option TypeExpr → Option String
    | some ⟨_, some name, _, _, _⟩ =>
      if name = "" then some "string"
      else
        let head := String.ofList (Text.lower name.toList)
        if head = "void" then none else some head
    | _ => some "string"

/-- The text that refers to the model a setting names; the setting may be any value. -/
def settingTarget (model : Value) : Except RefError Value :=
  match model with
  | .illFormed points => .ok (.illFormed ((target "").toList.map Char.toNat ++ points))
  | v =>
    if v.spellable then .ok (.str (target (String.ofList v.spelled))) else .error .unwritable

/-- The reference to a model: one named by a setting, else the one an expression names. -/
def modelRef (e : Option TypeExpr) (setting : Option Value) : Except RefError (Option Value) := do
  match setting.filter Value.truthy with
  | some model => return some (← settingTarget model)
  | none =>
    return (e.bind fun e => e.name.bind fun name => if name = "" then none else modelOf? name).map
      fun model => .str (target model)

/-- The item types that are no models. -/
def primitives : List String := ["object", "string", "integer", "boolean"]

/-- The schema of the items of a list type, by the first argument of an application. -/
def itemSchema (e : Option TypeExpr) : Option Value := do
  let first ← (← e).applications.head?
  let name ← first.name
  if name = "" then none
  else if primitives.contains name then return .object [("type", .str name)]
  else return refTo ((parts name).headD "")

/-- The parts of an expression that the entries of a mapping give, each checked. -/
structure Found where
  type : Option (Checked String) := none
  kind : Option (Checked String) := none
  name : Option (Checked (Option String)) := none
  expression : Option (Checked (Option TypeExpr)) := none
  applications : Option (Checked (List TypeExpr)) := none
  elements : Option (Checked (List TypeExpr)) := none

/-- The expression made of the parts that were found. -/
def Found.expr (f : Found) : Checked TypeExpr :=
  let kind : Checked String := match f.type, f.kind with
    | some c, _ => c.under (.field "type")
    | none, some c => c.under (.field "kind")
    | none, none => .ok "NameExpression"
  let name := ((f.name.getD (.ok none))).under (.field "name")
  let expression := (f.expression.getD (.ok none)).under (.field "expression")
  let applications := (f.applications.getD (.ok [])).under (.field "applications")
  let elements := (f.elements.getD (.ok [])).under (.field "elements")
  (Checked.both kind (Checked.both name (Checked.both expression
    (Checked.both applications elements)))).map
      fun (k, n, e, as, es) => ⟨k, n, e, as, es⟩

mutual

/-- The expression that a value describes. -/
def check : Value → Checked TypeExpr
  | .map _ entries => (found entries).expr
  | _ => Checked.complain .notRecord

/-- The expression that a value describes, or none for null. -/
def check? : Value → Checked (Option TypeExpr)
  | .null => .ok none
  | .map _ entries => (found entries).expr.map some
  | _ => Checked.complain .notRecord

def checkList : Value → Checked (List TypeExpr)
  | .list _ vs => Checked.items 0 (checkEach vs)
  | .set _ vs => Checked.items 0 (checkEach vs)
  | .pair a b => Checked.items 0 [check a, check b]
  | _ => Checked.complain .notList

def checkEach : List Value → List (Checked TypeExpr)
  | [] => []
  | v :: vs => check v :: checkEach vs

/-- The parts found in entries; of two entries with one key the first counts. -/
def found : List (Value × Value) → Found
  | [] => {}
  | (.str "type", v) :: es => { found es with type := some (Checked.text v) }
  | (.str "kind", v) :: es => { found es with kind := some (Checked.text v) }
  | (.str "name", v) :: es => { found es with name := some (Checked.text? v) }
  | (.str "expression", v) :: es => { found es with expression := some (check? v) }
  | (.str "applications", v) :: es => { found es with applications := some (checkList v) }
  | (.str "elements", v) :: es => { found es with elements := some (checkList v) }
  | _ :: es => found es

end

/-- An optional text as a value. -/
def optionValue : Option String → Value
  | none => .null
  | some s => .str s

mutual

/-- An expression as the value that describes it. -/
def toValue : TypeExpr → Value
  | ⟨kind, name, expression, applications, elements⟩ =>
    .object
      [("type", .str kind), ("name", optionValue name), ("expression", optionToValue expression),
       ("applications", .array (listToValue applications)),
       ("elements", .array (listToValue elements))]

def optionToValue : Option TypeExpr → Value
  | none => .null
  | some e => e.toValue

def listToValue : List TypeExpr → List Value
  | [] => []
  | e :: es => e.toValue :: listToValue es

end

end TypeExpr

end AnnotatedApi
