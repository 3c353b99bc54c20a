/-
  Settings inside a description. A description may hold one fenced block of YAML,

      ```yaml-swagger-settings
      modelName: Pet
      ```

  whose mapping overrides what the annotation itself says. `extract` takes the first block out
  of a description and gives its settings and the visible text. The setting `propertyType`
  declares a type: by a type expression, or in short by a name.
-/
import AnnotatedApi.Annotation.TypeExpr
import AnnotatedApi.Text.Blank
import AnnotatedApi.Yaml.Reader

namespace AnnotatedApi

/-- Why a settings block is refused. A block whose value contains itself is `endless`; what such
a block comes to is not said here. -/
inductive SettingsError where
  | unreadable
  | endless
  | notMapping (kind : String)
  | invalidScalar (fault : Yaml.Fault)
  | unwritableType
  | invalid (complaints : List Complaint)

namespace SettingsError

def message? : SettingsError → Option String
  | .notMapping kind => some ("Settings block must be a mapping, got " ++ kind)
  | _ => none

/-- Whether the error is known to be reported: it is about the block as a whole, not about a scalar
in it. -/
def isReported : SettingsError → Bool
  | .invalidScalar _ | .unwritableType | .endless => false
  | _ => true

end SettingsError

/-- The settings of a description, the type they declare, and the visible text. -/
structure Extracted where
  settings : List (String × Value) := []
  declared : Option TypeExpr := none
  description : String := ""

namespace Extracted

/-- Whether the settings hold a type that is no type expression. -/
def hasRawType (e : Extracted) : Bool :=
  (Assoc.get? "propertyType" e.settings).any Value.truthy

end Extracted

namespace Settings

def opener : List Char := "```yaml-swagger-settings".toList

def closer : List Char := "```".toList

/-- Line breaks as spaces: one for a line feed, with the carriage return before it if any. -/
def unwrapped : List Char → List Char
  | [] => []
  | '\r' :: '\n' :: s => ' ' :: unwrapped s
  | c :: s => (if c = '\n' then ' ' else c) :: unwrapped s

/-- Each pair of adjacent spaces, from the left, as one space. -/
def halved : List Char → List Char
  | [] => []
  | ' ' :: ' ' :: s => ' ' :: halved s
  | c :: s => c :: halved s

def collapsed (s : List Char) : List Char := halved (unwrapped s)

/-- The name of the kind of a value that is no mapping. -/
def kindName : Value → String
  | .null => "NoneType"
  | .bool _ => "bool"
  | .int _ => "int"
  | .float _ => "float"
  | .str _ | .illFormed _ => "str"
  | .bytes _ => "bytes"
  | .date .. => "date"
  | .moment .. => "datetime"
  | .pair .. => "tuple"
  | .list .. => "list"
  | .set .. => "set"
  | .map .. => "dict"

/-- The entries of a settings block; an empty block has none. -/
def load (block : String) : Except SettingsError (List (Value × Value)) :=
  match Yaml.read block with
  | .error .malformed => .error .unreadable
  | .error .endless => .error .endless
  | .error f => .error (.invalidScalar f)
  | .ok .null => .ok []
  | .ok (.map _ entries) => .ok entries
  | .ok v => .error (.notMapping (kindName v))

/-- The type that a value of `propertyType` declares. -/
def declaredType (v : Value) : Except SettingsError TypeExpr :=
  match v with
  | .map .. =>
    match TypeExpr.check v with
    | .ok e => .ok e
    | .error cs => .error (.invalid cs)
  | .illFormed points => .ok { name := some (Text.ofPoints points) }
  | _ =>
    if v.spellable then .ok { name := some (String.ofList v.spelled) }
    else .error .unwritableType

/-- The entries with their keys as texts, or the complaints about those that are none. -/
def textKeyed (entries : List (Value × Value)) : Checked (List (String × Value)) :=
  Checked.under (.field "settings")
    ((Checked.every (entries.map fun e => (Checked.textKey e.1).map fun k => (k, e.2))).map
      Assoc.ofEntries)

/-- Whether a key has the text `name`. Bytes can spell it too. -/
def hasText (name : String) (key : Value) : Bool :=
  match Checked.text key with
  | .ok s => s = name
  | .error _ => false

/-- The key of the last entry with the text `name`. -/
def lastKey? (name : String) (entries : List (Value × Value)) : Option Value :=
  (entries.reverse.find? fun e => hasText name e.1).map Prod.fst

/-- The settings and the declared type in the entries of a block. A `propertyType` that is
empty, zero or false declares nothing and stays among the settings. Only the key written as text
declares a type; one written as bytes is a setting like any other, which takes the place of the
declared type if it comes last. -/
def ofEntries (entries : List (Value × Value)) :
    Except SettingsError (List (String × Value) × Option TypeExpr) := do
  let name := "propertyType"
  let keyed : Except SettingsError (List (String × Value)) :=
    match textKeyed entries with
    | .ok settings => .ok settings
    | .error cs => .error (.invalid cs)
  match (Assoc.get? (.str name) entries).filter Value.truthy with
  | none => return (← keyed, none)
  | some v =>
    let declared ← declaredType v
    let settings ← keyed
    if lastKey? name entries = some (.str name) then
      return (Assoc.erase name settings, some declared)
    else return (settings, none)

/-- A settings block and the description around it. A block of one character counts as none,
and so does one that is not closed. -/
def block? (s : List Char) : Option (Option (List Char × List Char)) :=
  match Text.cut? opener s with
  | none => none
  | some (before, rest) =>
    match Text.cut? closer rest with
    | none => some none
    | some (body, after) =>
      if body.length = 1 then some none else some (some (body, before ++ after))

/-- The settings of a description and its visible text. -/
def extract (description : String) : Except SettingsError Extracted := do
  match block? description.toList with
  | none => return { description := String.ofList (collapsed description.toList) }
  | some none => return { description := description }
  | some (some (body, visible)) =>
    let (settings, declared) ← ofEntries (← load (String.ofList body))
    return ⟨settings, declared, String.ofList (Text.trim (collapsed visible))⟩

end Settings

end AnnotatedApi
