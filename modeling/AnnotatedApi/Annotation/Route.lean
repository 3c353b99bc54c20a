/-
  The short annotations of a route: the route itself, the groups it belongs to and the lists of
  media types.
-/
import AnnotatedApi.Annotation.Comment
import AnnotatedApi.Text.Blank

namespace AnnotatedApi

/-- An operation is found under a uri and a method. -/
structure Route where
  method : String
  uri : String
deriving DecidableEq

namespace Route

def defaultMethod : String := "get"

def isVerb (s : List Char) : Bool := !s.isEmpty && s.all fun c => 'a' ≤ c && c ≤ 'z'

/-- A route from `METHOD /uri`. A first word that is no verb stands for `get`. -/
def parse (text : String) : Route :=
  let words := Text.words text.toList
  let method := Text.lower (words.headD [])
  ⟨if isVerb method then String.ofList method else defaultMethod,
    String.ofList (words.getD 1 [])⟩

end Route

/-- A group of operations, with its description. -/
structure Group where
  name : String
  description : String
deriving DecidableEq

namespace Group

def default : Group := ⟨"default", ""⟩

/-- A group from `name - description`. -/
def parse (text : String) : Group :=
  let (name, rest) := Text.cutAt '-' text.toList
  ⟨String.ofList (Text.trim name), String.ofList (Text.trim (rest.getD []))⟩

/-- The groups that annotations name. -/
def named (tags : List Tag) : List Group :=
  (tags.filter fun t => t.title = "group").map fun t => parse t.description

/-- The groups of a block: those it names, or else the default one. -/
def ofTags (tags : List Tag) : List Group :=
  match named tags with
  | [] => [default]
  | groups => groups

/-- The parts of the name between slashes. -/
def segments (g : Group) : List String := (Text.splitAt '/' g.name.toList).map String.ofList

/-- The names that an operation carries: those of its groups, or the parts of a single one. -/
def tagNames : List Group → List String
  | [g] => g.segments
  | groups => groups.map (·.name)

/-- The groups that the document describes: those without a slash in their name. -/
def described (groups : List Group) : List Group := groups.filter fun g => g.segments.length = 1

end Group

/-- The media types that a text lists. -/
def mediaTypes (text : String) : List String := (Text.words text.toList).map String.ofList

end AnnotatedApi
