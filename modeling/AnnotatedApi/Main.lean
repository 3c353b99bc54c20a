/-
  The program on a real file system: the questions of a session are answered by the files there
  are, and what the run wrote, printed and logged is carried out at its end.
-/
import AnnotatedApi.Command.Build

namespace AnnotatedApi

/-- What is at a path of the file system. -/
def Entry.find (p : Path) : IO Entry := do
  let place := (← IO.currentDir) / p.text
  match ← place.metadata.toBaseIO with
  | .ok data =>
    if data.type == .dir then return .directory
    else return .file (String.fromUTF8? (← IO.FS.readBinFile place))
  | .error (.inappropriateType ..) => return .blocked
  | .error _ => return .absent

/-- A session carried through with the answers of the file system. -/
def Session.perform {α : Type} : Session α → IO α
  | .done a => return a
  | .ask p next => do (next (← Entry.find p)).perform

def Transcript.save (t : Transcript) : IO Unit := do
  match t.written with
  | none => return ()
  | some (p, text) =>
    IO.FS.createDirAll p.parent.text
    IO.FS.writeFile p.text text

end AnnotatedApi

open AnnotatedApi in
def main (args : List String) : IO UInt32 := do
  let cwd := Path.parse (← IO.currentDir).toString
  let outcome ← (program cwd args).perform
  outcome.transcript.save
  (← IO.getStdout).putStr outcome.transcript.stdout
  (← IO.getStderr).putStr outcome.transcript.stderr
  match outcome.error with
  | none => return 0
  | some e =>
    (← IO.getStderr).putStrLn ("Error: " ++ e.summary)
    return e.exitCode
