/-
  Paths of files, in parts. A path is relative, or starts at the root, which is written with one
  slash or with two. Empty parts and parts of a single dot say nothing and are left out; two dots
  stay.
-/
import AnnotatedApi.Text.Cut

namespace AnnotatedApi

structure Path where
  slashes : Nat  -- in front: none for a relative path
  parts : List String
deriving DecidableEq

namespace Path

/-- Two slashes in front are kept, and three or more are one. -/
def parse (text : String) : Path :=
  let n := (text.toList.takeWhile (· = '/')).length
  ⟨if n ≤ 2 then n else 1,
    ((Text.splitAt '/' text.toList).map String.ofList).filter fun p => p ≠ "" && p ≠ "."⟩

def isAbsolute (p : Path) : Bool := p.slashes ≠ 0

/-- The path as text; a path without parts is a dot. -/
def text (p : Path) : String :=
  let body := String.ofList
    (List.replicate p.slashes '/' ++ Text.joinWith ['/'] (p.parts.map String.toList))
  if body = "" then "." else body

/-- `q` as seen from `p`; an absolute path is seen alike from everywhere. -/
def join (p q : Path) : Path := if q.isAbsolute then q else ⟨p.slashes, p.parts ++ q.parts⟩

/-- One part further: two dots go back by one. -/
def step (p : Path) (part : String) : Path :=
  if part ≠ ".." then ⟨p.slashes, p.parts ++ [part]⟩
  else if p.parts.getLast?.any (· ≠ "..") then ⟨p.slashes, p.parts.dropLast⟩
  else if p.isAbsolute then p
  else ⟨p.slashes, p.parts ++ [part]⟩

/-- The path without going back and forth. -/
def resolved (p : Path) : Path := p.parts.foldl step ⟨p.slashes, []⟩

def parent (p : Path) : Path := ⟨p.slashes, p.parts.dropLast⟩

/-- The last dot of the name and what follows it, unless the name starts or ends with it. -/
def suffix (p : Path) : String :=
  let name := ((p.parts.getLast?).getD "").toList
  let tail := name.reverse.takeWhile (· ≠ '.')
  let before := name.length - tail.length - 1
  if tail.isEmpty || name.length ≤ tail.length || before = 0 then ""
  else String.ofList ('.' :: tail.reverse)

end Path

end AnnotatedApi
