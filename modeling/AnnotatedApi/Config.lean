/-
  The configuration of a run: the base definition, the comment files and the choices that bear on
  the document, read from a YAML file.
-/
import AnnotatedApi.Annotation.Operation
import AnnotatedApi.Path
import AnnotatedApi.Yaml.Reader

namespace AnnotatedApi

structure Config where
  definition : Value
  files : List String
  basedir : Path := ⟨0, []⟩
  dedupe : Bool := false
  headerPolicy : HeaderPolicy := .stop
  defaultLocation : String := Route.defaultMethod

/-- Why a file gives no configuration. What a file comes to whose value contains itself (`endless`)
is not said here. -/
inductive ConfigError where
  | unreadable
  | endless
  | invalidScalar (fault : Yaml.Fault)
  | noOptions
  | invalid (complaints : List Complaint)

namespace ConfigError

def message? (file : Path) : ConfigError → Option String
  | .noOptions => some (file.text ++ ": 'options' is required.")
  | _ => none

/-- Whether the error is known to be reported: it is about the configuration as a whole, not about a
scalar in it. -/
def isReported : ConfigError → Bool
  | .invalidScalar _ | .endless => false
  | _ => true

end ConfigError

namespace Config

/-- The words for true and for false, in lower case. -/
def trueWords : List String := ["1", "on", "t", "true", "y", "yes"]

def falseWords : List String := ["0", "off", "f", "false", "n", "no"]

def truthText (s : String) : Checked Bool :=
  let t := String.ofList (s.toList.map Char.toLower)
  if trueWords.contains t then .ok true
  else if falseWords.contains t then .ok false
  else Checked.complain .unknownTruth

/-- Zero or one. An integer that does not fit a word of 64 bits is no truth value at all. -/
def truthInt (n : Int) : Checked Bool :=
  if n = 0 then .ok false
  else if n = 1 then .ok true
  else if -Checked.wordLimit ≤ n && n < Checked.wordLimit then Checked.complain .unknownTruth
  else Checked.complain .notTruth

/-- A truth value, or a number or word that stands for one. -/
def truth : Value → Checked Bool
  | .bool b => .ok b
  | .str s => truthText s
  | .bytes bs =>
    match String.fromUTF8? (ByteArray.mk bs.toArray) with
    | some s => truthText s
    | none => Checked.complain .unknownTruth
  | .illFormed _ => Checked.complain .notUnicode
  | .int n => truthInt n
  | .float x =>
    match x.toInt? with
    | some n => if n = -Checked.wordLimit then Checked.complain .notTruth else truthInt n
    | none => Checked.complain .notTruth
  | _ => Checked.complain .notTruth

def policy : Value → Checked HeaderPolicy
  | .str "stop" => .ok .stop
  | .str "skip" => .ok .skip
  | .illFormed _ => Checked.complain .notUnicode
  | _ => Checked.complain .notAChoice

def path : Value → Checked Path
  | .str s => .ok (Path.parse s)
  | .illFormed points => .ok (Path.parse (Text.ofPoints points))
  | _ => Checked.complain .notPath

/-- One comment file at least. -/
def fileList (v : Value) : Checked (List String) := do
  let names ← Checked.items 0 ((← Checked.listItems v).map Checked.text)
  if names.isEmpty then Checked.complain .tooFew else return names

/-- The base definition, under either of its names. -/
def definitionField (entries : List (Value × Value)) : Checked Value :=
  let mapping : Value → Checked Value
    | .map _ es => .ok (.map none es)
    | _ => Checked.complain .notMapping
  Tag.field? "swaggerDefinition" entries mapping
    (Tag.field? "swagger_definition" entries mapping (Tag.missing "swaggerDefinition"))

/-- The configuration that a value describes. -/
def check : Value → Checked Config
  | .map _ entries =>
    (Checked.both (definitionField entries)
      (Checked.both (Tag.field? "files" entries fileList (Tag.missing "files"))
        (Checked.both (Tag.field? "basedir" entries path (.ok ⟨0, []⟩))
          (Checked.both (Tag.field? "deduplicate_tags" entries truth (.ok false))
            (Checked.both (Tag.field? "header_errors" entries policy (.ok .stop))
              (Tag.field? "default_location" entries Checked.text
                (.ok Route.defaultMethod))))))).map
      fun (definition, files, basedir, dedupe, headerPolicy, defaultLocation) =>
        ⟨definition, files, basedir, dedupe, headerPolicy, defaultLocation⟩
  | _ => Checked.complain .notRecord

/-- The comment files as seen from the base directory. -/
def resolvedFiles (c : Config) : List Path := c.files.map fun f => c.basedir.join (Path.parse f)

/-- The configuration in the text of a file. A relative base directory is seen from the
directory of the file. -/
def ofText (file : Path) (text : String) : Except ConfigError Config :=
  match Yaml.read text with
  | .error .malformed => .error .unreadable
  | .error .endless => .error .endless
  | .error f => .error (.invalidScalar f)
  | .ok v =>
    match v with
    | .map .. =>
      match check v with
      | .error cs => .error (.invalid cs)
      | .ok c => .ok { c with basedir := file.parent.join c.basedir }
    | _ => .error .noOptions

end Config

end AnnotatedApi
