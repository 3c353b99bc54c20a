/-
  The command line: `[-v] build [FILES]... -o OUTPUT [-d DEFINITION] [-c CONFIG] [--dedupe-tags]
  [--header-errors stop|skip]`. Options are checked in the order in which they are given, then the
  comment files, and last whether there is an output. `--help` comes before all this, once the
  options can be told apart (`Usage.asksHelp`).
-/
import AnnotatedApi.Annotation.Header
import AnnotatedApi.Command.Arguments
import AnnotatedApi.Command.Session
import AnnotatedApi.Text.Quoted

namespace AnnotatedApi

/-- The parameters of `build`. -/
inductive BuildParameter where
  | commentFiles
  | output
  | definition
  | config
  | dedupeTags
  | headerErrors
deriving DecidableEq

/-- Why the value of a parameter is refused. -/
inductive BadValue where
  | noSuchFile (name : String)
  | isDirectory (name : String)
  | notAChoice (word : String)
deriving DecidableEq

inductive UsageError where
  | noArguments
  | noCommand
  | noSuchCommand (name : String) (similar : List String)
  | badOption (fault : OptionFault)
  | noOutput
  | badValue (parameter : BuildParameter) (why : BadValue)
  | nullInName
deriving DecidableEq

namespace Usage

/-- A text in quotes, as messages show it. -/
def shown (s : String) : String := String.ofList (Text.quoted s.toList)

/-- A parameter as messages name it. -/
def parameterName : BuildParameter → String
  | .commentFiles => "'[COMMENT_FILES]...'"
  | .output => "'-o' / '--output'"
  | .definition => "'-d' / '--definition'"
  | .config => "'-c' / '--config'"
  | .dedupeTags => "'--dedupe-tags'"
  | .headerErrors => "'--header-errors'"

def badValueText : BadValue → String
  | .noSuchFile name => "File " ++ shown name ++ " does not exist."
  | .isDirectory name => "File " ++ shown name ++ " is a directory."
  | .notAChoice word => shown word ++ " is not one of 'stop', 'skip'."

/-- What is offered in the place of an unknown name. -/
def suggestion : List String → String
  | [] => ""
  | [name] => " Did you mean " ++ shown name ++ "?"
  | names =>
    " (Possible options: " ++ ", ".intercalate ((names.mergeSort (· ≤ ·)).map shown) ++ ")"

def optionFaultText : OptionFault → String
  | .unknown name similar => "No such option " ++ shown name ++ "." ++ suggestion similar
  | .needsValue name => "Option " ++ shown name ++ " requires an argument."
  | .takesNoValue name => "Option " ++ shown name ++ " does not take a value."

def message : UsageError → String
  | .noArguments | .noCommand => "Missing command."
  | .noSuchCommand name similar => "No such command " ++ shown name ++ "." ++ suggestion similar
  | .badOption fault => optionFaultText fault
  | .noOutput => "Missing option " ++ parameterName .output ++ "."
  | .badValue parameter why =>
    "Invalid value for " ++ parameterName parameter ++ ": " ++ badValueText why
  | .nullInName => "A path cannot hold a null character."

def groupOptions : List (OptionSpec Unit) := [⟨(), some 'v', "verbose".toList, false⟩]

def buildOptions : List (OptionSpec BuildParameter) :=
  [⟨.output, some 'o', "output".toList, true⟩, ⟨.definition, some 'd', "definition".toList, true⟩,
   ⟨.config, some 'c', "config".toList, true⟩, ⟨.dedupeTags, none, "dedupe-tags".toList, false⟩,
   ⟨.headerErrors, none, "header-errors".toList, true⟩]

def groupArguments (args : List String) : Except OptionFault (Arguments (Option Unit)) :=
  Arguments.parse (Arguments.withHelp groupOptions) false args

def buildArguments (args : List String) : Except OptionFault (Arguments (Option BuildParameter)) :=
  Arguments.parse (Arguments.withHelp buildOptions) true args

/-- Whether help is shown, for the program or for `build`. It is if all options up to there can be
told apart, whatever their values are and whatever else is missing. -/
def asksHelp (args : List String) : Bool :=
  (groupArguments args).toOption.any fun group =>
    group.asksHelp ||
      match group.rest with
      | "build" :: rest => (buildArguments rest).toOption.any Arguments.asksHelp
      | rest => (groupArguments rest).toOption.any Arguments.asksHelp

/-- The arguments of the chosen command, and whether the run is verbose; for a command line that
does not ask for help. -/
def command (args : List String) : Except UsageError (Bool × List String) := do
  if args.isEmpty then .error .noArguments
  let group ← options args
  match group.rest with
  | [] => .error .noCommand
  | "build" :: rest => return (!group.options.isEmpty, rest)
  | name :: rest =>
    if name.toList.head? = some '-' then
      let _ ← options (name :: rest)
    .error (.noSuchCommand name (Text.closest name.toList ["build"]))
where
  options (args : List String) : Except UsageError (Arguments Unit) :=
    match groupArguments args with
    | .ok a => .ok a.withoutHelp
    | .error f => .error (.badOption f)

/-- What is asked of `build`. -/
structure Request where
  files : List Path
  output : Path
  definition : Option Path := none
  config : Option Path := none
  dedupe : Bool := false
  headerPolicy : Option HeaderPolicy := none
deriving DecidableEq

/-- Whether a written path can only be a directory. -/
def endsInDirectory (name : String) : Bool :=
  let last := (Text.splitAt '/' name.toList).getLastD []
  last = [] || last = ['.']

/-- The path of a file that has to be there. -/
def existing (parameter : BuildParameter) (name : String) : Session (Except UsageError Path) := do
  let fail (why : BadValue) : Except UsageError Path := .error (.badValue parameter why)
  if name.toList.contains '\x00' then return .error .nullInName
  if name = "" then return fail (.noSuchFile name)
  match ← Session.look (Path.parse name) with
  | .absent | .blocked => return fail (.noSuchFile name)
  | .directory => return fail (.isDirectory name)
  | .file _ =>
    if endsInDirectory name then return fail (.noSuchFile name) else return .ok (Path.parse name)

/-- The checked value of a parameter, as a change to what is asked. -/
def apply (r : Request) (p : BuildParameter) (value : String) :
    Session (Except UsageError Request) := do
  match p with
  | .definition => return (← existing p value).map fun f => { r with definition := some f }
  | .config => return (← existing p value).map fun f => { r with config := some f }
  | .output =>
    if value.toList.contains '\x00' then return .error .nullInName
    else return .ok { r with output := Path.parse value }
  | .dedupeTags => return .ok { r with dedupe := true }
  | .headerErrors =>
    if value = "stop" then return .ok { r with headerPolicy := some .stop }
    else if value = "skip" then return .ok { r with headerPolicy := some .skip }
    else return .error (.badValue p (.notAChoice value))
  | .commentFiles => return .ok r

/-- Each option once, in the place of its first occurrence and with its last value. -/
def lastValues (options : List (BuildParameter × String)) : List (BuildParameter × String) :=
  Assoc.ofEntries options

def applyAll (r : Request) : List (BuildParameter × String) → Session (Except UsageError Request)
  | [] => return .ok r
  | (p, value) :: more => do
    match ← apply r p value with
    | .error e => return .error e
    | .ok r => applyAll r more

def existingAll : List String → Session (Except UsageError (List Path))
  | [] => return .ok []
  | name :: names => do
    match ← existing .commentFiles name with
    | .error e => return .error e
    | .ok p => return (← existingAll names).map (p :: ·)

/-- What the arguments of `build` ask, if they do not ask for help. -/
def request (args : List String) : Session (Except UsageError Request) := do
  match buildArguments args with
  | .error f => return .error (.badOption f)
  | .ok a =>
    let a := a.withoutHelp
    match ← applyAll ⟨[], Path.parse "", none, none, false, none⟩ (lastValues a.options) with
    | .error e => return .error e
    | .ok r =>
      match ← existingAll a.rest with
      | .error e => return .error e
      | .ok files =>
        if a.options.any fun o => o.1 = .output then return .ok { r with files := files }
        else return .error .noOutput

end Usage

end AnnotatedApi
