/-
  Security requirements: a JSON list of objects, or else the name of a single scheme.
-/
import AnnotatedApi.Json.Reader
import AnnotatedApi.Report
import AnnotatedApi.Text.Quoted

namespace AnnotatedApi.Security

/-- The text is JSON with an integer of too many digits. -/
inductive Failure where
  | tooLong

def isObject : Value → Bool
  | .map .. => true
  | _ => false

/-- The requirement of one scheme without scopes. -/
def scheme (name : String) : Value := .object [(name, .array [])]

/-- The requirements that the value of a text gives, if it is a list of objects. -/
def requirements? : Value → Option (List Value)
  | .list _ vs => if vs.all isObject then some vs else none
  | _ => none

def notAList (text : String) : String :=
  "Security " ++ String.ofList (Text.quoted text.toList) ++
    " is not a JSON requirement list, using it as a scheme name"

def parse (text : String) : Report Failure (List Value) :=
  match Json.read text with
  | .error .tooLong => .fail .tooLong
  | .error .malformed => named
  | .ok v =>
    match requirements? v with
    | some vs => pure vs
    | none => named
where
  named : Report Failure (List Value) := do
    Report.say .debug .tags (notAList text)
    return [scheme text]

end AnnotatedApi.Security
