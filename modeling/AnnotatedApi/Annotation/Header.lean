/-
  Response headers, written `code.name - type - description`. A dash with blanks on both sides
  separates the segments. The headers of a block are grouped by status code; a malformed one is
  either skipped or ends the reading of headers.
-/
import AnnotatedApi.Annotation.Comment
import AnnotatedApi.Report
import AnnotatedApi.Text.Blank
import AnnotatedApi.Text.Word

namespace AnnotatedApi

structure Header where
  code : String
  name : String
  type : String
  description : String
deriving DecidableEq

/-- What a header annotation lacks. -/
inductive Header.Lack where
  | nameAfterCode
  | code
  | type
deriving DecidableEq

/-- A malformed header annotation. -/
structure Header.Malformed where
  text : Option String
  lack : Header.Lack
deriving DecidableEq

/-- What happens after a malformed header. -/
inductive HeaderPolicy where
  | stop
  | skip
deriving DecidableEq

namespace HeaderPolicy

/-- Only the word `skip` skips. -/
def ofValue (v : Value) : HeaderPolicy := if v = .str "skip" then .skip else .stop

end HeaderPolicy

namespace Header

def Malformed.message (m : Malformed) : String :=
  let text := match m.text with
    | some s => String.ofList (Text.quoted s.toList)
    | none => "None"
  "Header " ++ text ++
    match m.lack with
    | .nameAfterCode => " has no `code.name` prefix"
    | .code => " has no status code"
    | .type => " has no type"

/-- The length of the separator at the front: blanks, a dash and blanks. -/
def separator? (s : List Char) : Option Nat :=
  let front := s.takeWhile Text.isBlank
  match s.drop front.length with
  | '-' :: rest =>
    let back := rest.takeWhile Text.isBlank
    if front.isEmpty || back.isEmpty then none else some (front.length + 1 + back.length)
  | _ => none

/-- The segments from here on, after `skip` more characters of a separator. -/
def segmentsAfter (skip : Nat) : List Char → List (List Char)
  | [] => [[]]
  | c :: s =>
    match skip with
    | k + 1 => segmentsAfter k s
    | 0 =>
      match separator? (c :: s) with
      | some n => [] :: segmentsAfter (n - 1) s
      | none =>
        match segmentsAfter 0 s with
        | [] => [[c]]
        | piece :: pieces => (c :: piece) :: pieces

/-- The segments between separators; there is always a first one. -/
def segments (s : List Char) : List (List Char) := segmentsAfter 0 s

/-- The first run of characters of a class. -/
def firstRun (ok : Char → Bool) (s : List Char) : List Char :=
  (s.dropWhile fun c => !ok c).takeWhile ok

/-- The header that a text describes. -/
def ofChars (s : List Char) : Except Lack Header :=
  let pieces := segments s
  match Text.cutAt '.' (pieces.headD []) with
  | (_, none) => .error .nameAfterCode
  | (_, some []) => .error .nameAfterCode
  | (codePart, some name) =>
    let code := firstRun Text.isDigit codePart
    let type := firstRun Text.isWord (pieces.getD 1 [])
    if code.isEmpty then .error .code
    else if type.isEmpty then .error .type
    else
      .ok ⟨String.ofList code, String.ofList (Text.trim name), String.ofList type,
        String.ofList (Text.joinWith [' ', '-', ' '] (pieces.drop 2))⟩

/-- The header that a text describes; an absent text lacks everything. -/
def parse (text : Option String) : Except Malformed Header :=
  match ofChars (text.getD "").toList with
  | .ok h => .ok h
  | .error lack => .error ⟨text, lack⟩

/-- A header as it stands under its name. -/
def toValue (h : Header) : Value :=
  .object [("type", .str h.type), ("description", .str h.description)]

/-- Whether an annotation describes a header. -/
def isHeaderTag (t : Tag) : Bool := t.title = "headers" || t.title = "header"

end Header

/-- The headers of a block: by status code, and then by name. -/
abbrev HeaderMap := List (String × List (String × Header))

namespace HeaderMap

def insert (h : Header) (m : HeaderMap) : HeaderMap :=
  Assoc.set h.code (Assoc.set h.name h ((Assoc.get? h.code m).getD [])) m

/-- The headers that the annotations add to those read so far. -/
def collect {ε : Type} (policy : HeaderPolicy) (m : HeaderMap) : List Tag → Report ε HeaderMap
  | [] => pure m
  | t :: ts =>
    if Header.isHeaderTag t then
      match Header.parse (some t.description) with
      | .ok h => collect policy (m.insert h) ts
      | .error e =>
        match policy with
        | .skip => do
          Report.say .warning .tags ("Skipping malformed header: " ++ e.message)
          collect policy m ts
        | .stop => do
          Report.say .warning .tags ("Dropping remaining headers of block: " ++ e.message)
          return m
    else collect policy m ts

def ofTags {ε : Type} (policy : HeaderPolicy) (tags : List Tag) : Report ε HeaderMap :=
  collect policy [] tags

/-- The headers of one status code as a mapping. -/
def codeValue (headers : List (String × Header)) : Value :=
  .object (headers.map fun e => (e.1, e.2.toValue))

end HeaderMap

end AnnotatedApi
