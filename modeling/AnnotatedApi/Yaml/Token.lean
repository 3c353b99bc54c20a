/-
  The tokens of a YAML text.
-/
import AnnotatedApi.Yaml.Cursor

namespace AnnotatedApi.Yaml

/-- The content of a scalar: characters, or code points if a surrogate is among them. -/
inductive Content where
  | text (s : List Char)
  | points (ps : List Nat)
deriving DecidableEq, Inhabited

namespace Content

def ofPoints (ps : List Nat) : Content :=
  if ps.all fun n => decide n.isValidChar then .text (ps.map Char.ofNat) else .points ps

/-- The characters, with the replacement character for what is none. -/
def chars : Content → List Char
  | .text s => s
  | .points ps => ps.map fun n => if n.isValidChar then Char.ofNat n else '\uFFFD'

end Content

inductive Directive where
  | version (major : Nat)
  | tag (handle uri : List Char)
  | unknown

inductive Token where
  | directive (d : Directive)
  | documentStart
  | documentEnd
  | blockSequence
  | blockMapping
  | blockEnd
  | flowSequence
  | flowSequenceEnd
  | flowMapping
  | flowMappingEnd
  | blockEntry
  | flowEntry
  | key
  | value
  | alias (name : List Char)
  | anchor (name : List Char)
  | tag (handle : Option (List Char)) (suffix : List Char)
  | scalar (content : Content) (plain : Bool)
  | fault (f : Fault)
  | streamEnd

end AnnotatedApi.Yaml
