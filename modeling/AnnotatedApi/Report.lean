/-
  Computations that keep a log. A report is what was logged and either a result or an error;
  the log up to an error is kept. `Report.result` forgets the log and respects the sequence of
  steps (`result_pure`, `result_bind`), so what a computation gives can be said without it.
-/

namespace AnnotatedApi

inductive Level where
  | debug
  | warning
deriving DecidableEq

/-- The part of the program that speaks. -/
inductive Source where
  | tags
  | operations
  | models
  | contributions
  | document
deriving DecidableEq

structure LogEntry where
  level : Level
  source : Source
  message : String
deriving DecidableEq

namespace Level

def name : Level → String
  | .debug => "DEBUG"
  | .warning => "WARNING"

end Level

namespace Source

def name : Source → String
  | .tags => "jsdoc_swagger.parser.tags"
  | .operations => "jsdoc_swagger.generator.operation"
  | .models => "jsdoc_swagger.generator.model"
  | .contributions => "jsdoc_swagger.generator.aggregator"
  | .document => "jsdoc_swagger.generator.document"

end Source

structure Report (ε α : Type) where
  log : List LogEntry
  result : Except ε α

namespace Report

variable {ε α β : Type}

protected def pure (a : α) : Report ε α := ⟨[], .ok a⟩

protected def bind (r : Report ε α) (f : α → Report ε β) : Report ε β :=
  match r.result with
  | .ok a => ⟨r.log ++ (f a).log, (f a).result⟩
  | .error e => ⟨r.log, .error e⟩

instance : Monad (Report ε) where
  pure := Report.pure
  bind := Report.bind

@[simp] theorem result_pure (a : α) : (pure a : Report ε α).result = .ok a := rfl

theorem result_bind (r : Report ε α) (f : α → Report ε β) :
    (r >>= f).result = r.result.bind fun a => (f a).result := by
  show (Report.bind r f).result = _
  unfold Report.bind
  cases r.result <;> rfl

/-- A result or an error without anything logged. -/
def ofExcept (x : Except ε α) : Report ε α := ⟨[], x⟩

@[simp] theorem result_ofExcept (x : Except ε α) : (ofExcept x).result = x := rfl

def fail (e : ε) : Report ε α := ⟨[], .error e⟩

def say (level : Level) (source : Source) (message : String) : Report ε Unit :=
  ⟨[⟨level, source, message⟩], .ok ()⟩

@[simp] theorem result_say (level : Level) (source : Source) (message : String) :
    (say level source message : Report ε Unit).result = .ok () := rfl

/-- The error put into another form. -/
def mapError {δ : Type} (f : ε → δ) (r : Report ε α) : Report δ α :=
  ⟨r.log, match r.result with
    | .ok a => .ok a
    | .error e => .error (f e)⟩

end Report

end AnnotatedApi
