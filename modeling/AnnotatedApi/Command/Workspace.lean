/-
  File systems in memory: a working directory and some files, each under all its directories.
  A session run in a workspace asks it, and what the session writes is a file of the workspace
  that comes after.
-/
import AnnotatedApi.Command.Build

namespace AnnotatedApi

/-- Files by the parts of their path from the root; a file without text is not text. -/
structure Workspace where
  directory : List String
  files : List (List String × Option String)

namespace Workspace

/-- A directory is on the way to the working directory or to a file. -/
def isDirectory (w : Workspace) (parts : List String) : Bool :=
  parts.isPrefixOf w.directory ||
    w.files.any fun f => parts.isPrefixOf f.1 && parts.length < f.1.length

/-- What is at a path that starts in the directory `here`. -/
def lookFrom (w : Workspace) (here : List String) : List String → Entry
  | [] => .directory
  | part :: parts =>
    let next := if part = ".." then here.dropLast else here ++ [part]
    if w.isDirectory next then w.lookFrom next parts
    else
      match w.files.lookup next with
      | some text => if parts.isEmpty then .file text else .blocked
      | none => .absent

def look (w : Workspace) (p : Path) : Entry :=
  w.lookFrom (if p.isAbsolute then [] else w.directory) p.parts

/-- The working directory as a path. -/
def cwd (w : Workspace) : Path := ⟨1, w.directory⟩

/-- The program run in a workspace. -/
def run (w : Workspace) (args : List String) : Outcome := (program w.cwd args).result w.look

/-- A path as seen from the working directory, if it is in it. -/
def relative? (w : Workspace) (p : Path) : Option (List String) :=
  let parts := (w.cwd.join p).resolved.parts
  if w.directory.isPrefixOf parts then some (parts.drop w.directory.length) else none

/-- The new files in the working directory after a run. -/
def created (w : Workspace) (t : Transcript) : List (String × String) :=
  match t.written with
  | none => []
  | some (p, text) =>
    match w.relative? p with
    | none => []
    | some parts =>
      if (w.files.lookup (w.directory ++ parts)).isSome then []
      else [((⟨0, parts⟩ : Path).text, text)]

end Workspace

end AnnotatedApi
