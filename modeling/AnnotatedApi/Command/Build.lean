/-
  The `build` command: a configuration is put together from a file and the command line, the
  comment files are read, and the document of their blocks is written. What was printed and
  logged before an error stays.
-/
import AnnotatedApi.Command.Usage
import AnnotatedApi.Document.File
import AnnotatedApi.Document.Stamp
import AnnotatedApi.Text.Lines
import AnnotatedApi.Value.WellFormed

namespace AnnotatedApi

/-- Why a file cannot be read or written. -/
inductive FileError where
  | notFound
  | isDirectory
  | notDirectory
  | exists
  | notText
  | nullInName
  | nameTooLong
  | unencodable  -- a text or a name holds half a character
deriving DecidableEq

inductive CommandError where
  | usage (e : UsageError)
  | noDefinition
  | noFiles
  | config (file : Path) (e : ConfigError)
  | definition (e : DefinitionError)
  | unreadableComments (fault : Yaml.Fault)
  | comments (e : CommentsError)
  | generate (e : GenerateError)
  | dump (e : DumpError)
  | file (e : FileError)
  | uncountable  -- a section of the written document has no size

namespace CommandError

/-- The message of an error that has one of its own. -/
def message? : CommandError → Option String
  | .usage e => some (Usage.message e)
  | .noDefinition => some "'swaggerDefinition' is required (use --definition or --config)."
  | .noFiles => some "'files' is required (pass comment files or use --config)."
  | .config path e => e.message? path
  | .definition e => e.message?
  | .generate (.assembly (.settings e)) => e.message?
  | _ => none

/-- What an error is about, for those without a message of their own. -/
def subject : CommandError → String
  | .usage _ | .noDefinition | .noFiles => "The command line is incomplete."
  | .config .. => "The configuration cannot be used."
  | .definition _ => "The base definition cannot be read."
  | .unreadableComments _ | .comments _ => "The comment files cannot be read."
  | .generate _ => "The comment blocks give no document."
  | .dump _ => "The document cannot be written in this format."
  | .file _ => "A file cannot be read or written."
  | .uncountable => "The document has sections that cannot be counted."

def summary (e : CommandError) : String := e.message?.getD e.subject

/-- Whether the command reports an error as one of its input. Any other error stops the run
without a report. -/
def isReported : CommandError → Bool
  | .usage e => e ≠ .nullInName
  | .noDefinition | .noFiles => true
  | .config _ e => e.isReported
  | .definition e => e.isReported
  | .comments e => e.isReported
  | .generate e => e.isReported
  | .unreadableComments _ | .dump _ | .file _ | .uncountable => false

/-- A wrong command line is told apart from a run that fails. -/
def exitCode : CommandError → UInt32
  | .usage _ => 2
  | _ => 1

end CommandError

/-- What a run has done so far. -/
structure Transcript where
  verbose : Bool := false
  stdout : String := ""
  log : List LogEntry := []
  written : Option (Path × String) := none
  halves : Bool := false  -- whether a text that was read spells half a character

namespace Transcript

/-- What the log shows: in a verbose run all of it, else the warnings. -/
def stderr (t : Transcript) : String :=
  String.join (t.log.map fun e =>
    if t.verbose then e.level.name ++ " " ++ e.source.name ++ ": " ++ e.message ++ "\n"
    else if e.level = .warning then e.message ++ "\n" else "")

end Transcript

/-- A step of a run. -/
abbrev Run := ExceptT CommandError (StateT Transcript Session)

namespace Run

variable {α : Type}

def ofSession (s : Session α) : Run α := ExceptT.lift (StateT.lift s)

def ofExcept {ε : Type} (f : ε → CommandError) : Except ε α → Run α
  | .ok a => pure a
  | .error e => throw (f e)

def print (line : String) : Run Unit :=
  modify fun t => { t with stdout := t.stdout ++ line ++ "\n" }

def record (log : List LogEntry) : Run Unit := modify fun t => { t with log := t.log ++ log }

def ofReport {ε : Type} (f : ε → CommandError) (r : Report ε α) : Run α := do
  record r.log
  ofExcept f r.result

end Run

namespace Build

/-- The most bytes that a name in a directory may have. -/
def nameLimit : Nat := 255

/-- What is at a path. A name with a null character in it is no path. -/
def look (p : Path) : Run Entry := do
  if p.parts.any fun s => s.toList.contains '\x00' then throw (.file .nullInName)
  if (← get).halves && p.parts.any (·.any Text.isHalf) then throw (.file .unencodable)
  if p.parts.any fun s => nameLimit < s.utf8ByteSize then throw (.file .nameTooLong)
  Run.ofSession (Session.look p)

/-- The text of a file, with line feeds as line breaks. -/
def readText (p : Path) : Run String := do
  match ← look p with
  | .absent => throw (.file .notFound)
  | .blocked => throw (.file .notDirectory)
  | .directory => throw (.file .isDirectory)
  | .file none => throw (.file .notText)
  | .file (some s) =>
    let text := Text.unixLines s.toList
    modify fun t => { t with halves := t.halves || Text.spellsHalf text }
    return String.ofList text

def loadDefinition (p : Path) : Run Value := do
  Run.ofExcept .definition (readDefinition p (← readText p))

/-- The configuration of a run. Comment files on the command line come after those of the
configuration file, and are seen from the working directory. -/
def configure (cwd : Path) (r : Usage.Request) : Run Config := do
  match r.config with
  | some file =>
    let c ← Run.ofExcept (.config file) (Config.ofText file (← readText file))
    let c := { c with files := c.files ++ r.files.map fun f => (cwd.join f).resolved.text }
    match r.definition with
    | none => return c
    | some d => return { c with definition := ← loadDefinition d }
  | none =>
    match r.definition with
    | none => throw .noDefinition
    | some d =>
      if r.files.isEmpty then throw .noFiles
      else return { definition := ← loadDefinition d, files := r.files.map Path.text }

/-- The choices of the command line written over those of the configuration. -/
def override (r : Usage.Request) (c : Config) : Config :=
  { c with dedupe := c.dedupe || r.dedupe, headerPolicy := r.headerPolicy.getD c.headerPolicy }

def loadComments (p : Path) : Run (List CommentBlock) := do
  Run.record [⟨.debug, .document, "Loading comments from " ++ p.text⟩]
  let v ← Run.ofExcept .unreadableComments (Yaml.read (← readText p))
  Run.ofExcept .comments (commentsOf v)

def loadAll : List Path → Run (List CommentBlock)
  | [] => return []
  | p :: ps => return (← loadComments p) ++ (← loadAll ps)

/-- The directories on the way to the output: each is there or can be made. -/
def enter (made : Bool) (here : Path) : List String → Run Unit
  | [] => return ()
  | part :: parts => do
    let next := here.step part
    match ← look next with
    | .directory => enter made next parts
    | .absent | .blocked => enter true next parts
    | .file _ =>
      if made || parts.isEmpty then throw (.file .exists) else throw (.file .notDirectory)

/-- Whether the last part of a path can only be a directory. -/
def namesDirectory (p : Path) : Bool := (p.parts.getLast?.getD "..") = ".."

/-- A file written in the place of what is there. -/
def put (p : Path) (text : String) : Run Unit := do
  if namesDirectory p || (← look p.resolved) = .directory then throw (.file .isDirectory)
  modify fun t => { t with written := some (p.resolved, text) }

/-- The output written, with the directories on the way. A text with half a character in it is
found out only when the file is there; YAML writes it as an escape. -/
def writeOutput (d : Value) (output : Path) : Run Unit := do
  enter false ⟨output.slashes, []⟩ output.parent.parts
  match dump d output with
  | .error e => throw (.dump e)
  | .ok text =>
    if Format.ofPath output = .yaml || d.wellFormed then put output text
    else
      put output ""
      throw (.file .unencodable)

/-- The number of entries of a section of the document. -/
def count (d : Value) (key : String) : Run Nat := do
  match d with
  | .map _ es =>
    match (Assoc.get? (.str key) es).bind Value.size? with
    | some n => return n
    | none => throw .uncountable
  | _ => throw .uncountable

def counted (n : Nat) (noun : String) : String := String.ofList (Text.decimal n) ++ " " ++ noun

def run (cwd : Path) (r : Usage.Request) : Run Unit := do
  let c := override r (← configure cwd r)
  Run.print ("Reading " ++ counted c.files.length "comment file(s)...")
  let blocks ← loadAll c.resolvedFiles
  let d ← Run.ofReport .generate
    (Generator.generateStamped (c.options id) c.definition blocks)
  let d := if (← get).halves then d.restored else d
  writeOutput d r.output
  let paths ← count d "paths"
  let definitions ← count d "definitions"
  Run.print ("Wrote " ++ r.output.text ++ " (" ++ counted paths "paths" ++ ", " ++
    counted definitions "definitions" ++ ")")

end Build

/-- What a run of the program comes to. -/
structure Outcome where
  error : Option CommandError
  transcript : Transcript

/-- The program, started in a directory with arguments. If they ask for help, it is shown and
nothing else is done; the text of the help is left out. -/
def program (cwd : Path) (args : List String) : Session Outcome := do
  let (result, transcript) ← (steps.run).run {}
  return match result with
    | .ok () => ⟨none, transcript⟩
    | .error e => ⟨some e, transcript⟩
where
  steps : Run Unit := do
    if Usage.asksHelp args then return ()
    else
      let (verbose, rest) ← Run.ofExcept .usage (Usage.command args)
      modify fun t => { t with verbose := verbose }
      let r ← Run.ofExcept .usage (← Run.ofSession (Usage.request rest))
      Build.run cwd r

end AnnotatedApi
