/-
  Documents in files. A base definition is read from YAML, of which JSON is a part; a document is
  written as YAML or as JSON, by the suffix of the file's name.
-/
import AnnotatedApi.Json.Writer
import AnnotatedApi.Path
import AnnotatedApi.Yaml.Reader
import AnnotatedApi.Yaml.Writer

namespace AnnotatedApi

/-- Why a file holds no base definition. -/
inductive DefinitionError where
  | unreadable (fault : Yaml.Fault)
  | notMapping (file : Path)

namespace DefinitionError

def message? : DefinitionError → Option String
  | .unreadable _ => none
  | .notMapping file => some (file.text ++ ": 'swaggerDefinition' must be a mapping.")

def isReported : DefinitionError → Bool
  | .unreadable _ => false
  | .notMapping _ => true

end DefinitionError

/-- The base definition in the text of a file. -/
def readDefinition (file : Path) (text : String) : Except DefinitionError Value :=
  match Yaml.read text with
  | .error f => .error (.unreadable f)
  | .ok v =>
    match v with
    | .map .. => .ok v
    | _ => .error (.notMapping file)

inductive Format where
  | json
  | yaml
deriving DecidableEq

namespace Format

/-- The format of a file, by the suffix of its name. -/
def ofPath (file : Path) : Format :=
  if file.suffix = ".yaml" || file.suffix = ".yml" then .yaml else .json

end Format

/-- Why a document cannot be written. -/
inductive DumpError where
  | json (fault : Json.WriteFault)
  | yaml (fault : Yaml.WriteFault)

/-- The text of a document in a format. -/
def render (format : Format) (d : Value) : Except DumpError String :=
  match format with
  | .yaml =>
    match Yaml.write d with
    | .ok s => .ok s
    | .error f => .error (.yaml f)
  | .json =>
    match Json.write d with
    | .ok s => .ok s
    | .error f => .error (.json f)

/-- The text of a document for a file. -/
def dump (d : Value) (file : Path) : Except DumpError String := render (Format.ofPath file) d

end AnnotatedApi
