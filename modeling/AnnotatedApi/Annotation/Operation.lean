/-
  Operations: what the annotations of a route block say about each of its routes. Annotations
  are read in order, and the last `route` read so far is the current one: details go to its
  operation, and it has all parameters read until the next `route`.
-/
import AnnotatedApi.Annotation.Model
import AnnotatedApi.Annotation.Security

namespace AnnotatedApi

/-- What a route annotation may say once about an operation. -/
inductive Detail where
  | operationId
  | summary
  | produces
  | consumes
  | security
deriving DecidableEq

namespace Detail

def name : Detail → String
  | .operationId => "operationId"
  | .summary => "summary"
  | .produces => "produces"
  | .consumes => "consumes"
  | .security => "security"

/-- The detail that an annotation title stands for. -/
def ofTitle? (title : String) : Option Detail :=
  [Detail.operationId, .summary, .produces, .consumes, .security].find? fun d => d.name = title

/-- The value of a detail, from the text of its annotation. -/
def value (format : String → String) (text : String) : Detail → Report AssemblyError Value
  | .operationId => pure (.str text)
  | .summary => pure (.str (format text))
  | .produces | .consumes => pure (.array ((mediaTypes text).map .str))
  | .security => do
    let requirements ← (Security.parse text).mapError fun _ => AssemblyError.securityTooLong
    return .array requirements

end Detail

structure Operation where
  parameters : List Fields := []
  description : String
  tags : List String
  responses : List (String × Response) := []
  details : List (Detail × Value) := []

namespace Operation

def fields (o : Operation) : Fields :=
  [("parameters", .array (o.parameters.map .object)), ("description", .str o.description),
   ("tags", .array (o.tags.map .str)),
   ("responses", .object (o.responses.map fun e => (e.1, e.2.toValue)))] ++
    o.details.map fun e => (e.1.name, e.2)

end Operation

/-- Operations by uri, and then by method. -/
abbrev PathMap := List (String × List (String × Operation))

namespace PathMap

def get? (r : Route) (paths : PathMap) : Option Operation :=
  (Assoc.get? r.uri paths).bind (Assoc.get? r.method)

def set (r : Route) (o : Operation) (paths : PathMap) : PathMap :=
  Assoc.set r.uri (Assoc.set r.method o ((Assoc.get? r.uri paths).getD [])) paths

/-- The operation of a route changed, if there is one. -/
def modify (r : Route) (f : Operation → Operation) (paths : PathMap) : PathMap :=
  match paths.get? r with
  | some o => paths.set r (f o)
  | none => paths

end PathMap

/-- The choices of a run that bear on operations. -/
structure RouteOptions where
  format : String → String := id
  defaultLocation : Value := Field.defaultLocation
  headerPolicy : HeaderPolicy := .stop

/-- What the annotations of a route block give: operations, and the groups to be described. -/
structure Routes where
  paths : PathMap := []
  groups : List Group := []

/-- The annotations read so far. -/
structure Routes.Progress where
  routes : Routes := {}
  parameters : List Fields := []
  current : Option Route := none

namespace Routes

/-- The operation of a route that is registered, again perhaps: responses and details of an
earlier registration stay. -/
def registered (description : String) (groups : List Group) (old : Option Operation) : Operation :=
  let o := old.getD ⟨[], description, [], [], []⟩
  { o with parameters := [], description := description, tags := Group.tagNames groups }

def register (opts : RouteOptions) (block : CommentBlock) (route : Route) (r : Routes) :
    Report AssemblyError Routes := do
  let groups := Group.ofTags block.tags
  let o := registered (opts.format block.description) groups (r.paths.get? route)
  Report.say .debug .operations
    ("Registered route " ++ String.ofList (Text.upper route.method.toList) ++ " " ++ route.uri)
  return {
    paths := r.paths.set route o
    groups := r.groups ++ (Group.described groups).map
      fun g => ⟨g.name, opts.format g.description⟩ }

/-- What an annotation itself does. -/
def read (opts : RouteOptions) (block : CommentBlock) (p : Progress) (t : Tag) :
    Report AssemblyError Progress := do
  if t.title = "route" then
    let route := Route.parse t.description
    return { p with routes := ← register opts block route p.routes, current := some route }
  else if t.title = "param" then
    let fields ← Report.ofExcept (Parameter.ofTag opts.format opts.defaultLocation t)
    return { p with parameters := p.parameters ++ [fields] }
  else
    match p.current, Detail.ofTitle? t.title with
    | some route, some d =>
      let v ← d.value opts.format t.description
      let paths := p.routes.paths.modify route
        fun o => { o with details := Assoc.set d v o.details }
      return { p with routes := { p.routes with paths := paths } }
    | _, _ => return p

/-- After each annotation the current operation has the parameters read so far, and the
responses of the block. -/
def refresh (opts : RouteOptions) (block : CommentBlock) (p : Progress) :
    Report AssemblyError Progress := do
  match p.current with
  | none => return p
  | some route =>
    let responses ← Response.ofTags opts.format opts.headerPolicy block.tags
    let paths := p.routes.paths.modify route fun o =>
      { o with parameters := p.parameters, responses := responses }
    return { p with routes := { p.routes with paths := paths } }

def step (opts : RouteOptions) (block : CommentBlock) (p : Progress) (t : Tag) :
    Report AssemblyError Progress := do
  refresh opts block (← read opts block p t)

/-- The operations and groups of a route block. -/
def ofBlock (opts : RouteOptions) (block : CommentBlock) : Report AssemblyError Routes := do
  return (← block.tags.foldlM (step opts block) {}).routes

end Routes

end AnnotatedApi
