/-
  Options among the arguments of a command. An option has a short name such as `-o`, a long name
  such as `--output`, or both. A value follows its option, after an equals sign or in the next
  argument; after a short name it may stand in the same argument. Two dashes end the options. A
  long name that is unknown is answered with the names that are most like it. Every command also has
  the option `--help`.
-/
import AnnotatedApi.Text.Cut
import AnnotatedApi.Text.Similar

namespace AnnotatedApi

/-- An option with the key it is known by. -/
structure OptionSpec (κ : Type) where
  key : κ
  short : Option Char := none
  long : List Char
  takesValue : Bool := true

/-- What is wrong with an option. -/
inductive OptionFault where
  | unknown (name : String) (similar : List String := [])
  | needsValue (name : String)
  | takesNoValue (name : String)
deriving DecidableEq

/-- The options of a command in their order, and the other arguments. -/
structure Arguments (κ : Type) where
  options : List (κ × String) := []
  rest : List String := []

namespace Arguments

variable {κ : Type}

/-- What an argument is: no option, the end of the options, or some options, of which the last
may wait for a value. -/
inductive Reading (κ : Type) where
  | plain
  | ending
  | options (complete : List (κ × String)) (open? : Option (κ × String))

/-- The long names of a command. -/
def longNames (specs : List (OptionSpec κ)) : List String :=
  specs.map fun s => String.ofList ('-' :: '-' :: s.long)

/-- An argument with a long name. -/
def readLong (specs : List (OptionSpec κ)) (arg : List Char) : Except OptionFault (Reading κ) :=
  let (long, value) := Text.cutAt '=' arg
  let name := String.ofList long
  match specs.find? fun s => '-' :: '-' :: s.long = long with
  | none => .error (.unknown name (Text.closest long (longNames specs)))
  | some s =>
    match s.takesValue, value with
    | true, some v => .ok (.options [(s.key, String.ofList v)] none)
    | true, none => .ok (.options [] (some (s.key, name)))
    | false, some _ => .error (.takesNoValue name)
    | false, none => .ok (.options [(s.key, "")] none)

/-- The short names in an argument. -/
def readShort (specs : List (OptionSpec κ)) : List Char → Except OptionFault (Reading κ)
  | [] => .ok (.options [] none)
  | c :: cs =>
    let name := String.ofList ['-', c]
    match specs.find? fun s => s.short = some c with
    | none => .error (.unknown name)
    | some s =>
      if s.takesValue then
        if cs.isEmpty then .ok (.options [] (some (s.key, name)))
        else .ok (.options [(s.key, String.ofList cs)] none)
      else do
        match ← readShort specs cs with
        | .options complete open? => return .options ((s.key, "") :: complete) open?
        | r => return r

def read (specs : List (OptionSpec κ)) (arg : String) : Except OptionFault (Reading κ) :=
  match arg.toList with
  | ['-', '-'] => .ok .ending
  | '-' :: '-' :: cs => readLong specs ('-' :: '-' :: cs)
  | '-' :: c :: cs => readShort specs (c :: cs)
  | _ => .ok .plain

/-- The options and the other arguments. Unless they may be mixed, the first argument that is no
option ends the options. -/
def parse (specs : List (OptionSpec κ)) (mixed : Bool) :
    List String → Except OptionFault (Arguments κ)
  | [] => .ok {}
  | arg :: args => do
    match ← read specs arg with
    | .plain =>
      if mixed then
        let more ← parse specs mixed args
        return { more with rest := arg :: more.rest }
      else return { rest := arg :: args }
    | .ending => return { rest := args }
    | .options complete none =>
      let more ← parse specs mixed args
      return { more with options := complete ++ more.options }
    | .options complete (some (key, name)) =>
      match args with
      | [] => .error (.needsValue name)
      | value :: args =>
        let more ← parse specs mixed args
        return { more with options := complete ++ (key, value) :: more.options }

/-- The options of a command and behind them the one that asks for help, which every command has. -/
def withHelp (specs : List (OptionSpec κ)) : List (OptionSpec (Option κ)) :=
  specs.map (fun s => ⟨some s.key, s.short, s.long, s.takesValue⟩) ++
    [⟨none, none, "help".toList, false⟩]

/-- Whether help is asked for. -/
def asksHelp (a : Arguments (Option κ)) : Bool := a.options.any fun o => o.1.isNone

/-- The arguments without those that ask for help. -/
def withoutHelp (a : Arguments (Option κ)) : Arguments κ :=
  { options := a.options.filterMap fun o => o.1.map (·, o.2), rest := a.rest }

end Arguments

end AnnotatedApi
