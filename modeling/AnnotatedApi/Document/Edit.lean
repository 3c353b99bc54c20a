/-
  Changes that may stop half-way. An edit is the state that was reached, what was logged on the
  way, and the error that stopped the change, if one did; what was changed before stays.
-/
import AnnotatedApi.Report

namespace AnnotatedApi

structure Edit (ε α : Type) where
  state : α
  log : List LogEntry := []
  error : Option ε := none

namespace Edit

variable {ε α β : Type}

/-- One change after another; nothing follows an error. -/
def andThen (e : Edit ε α) (f : α → Edit ε α) : Edit ε α :=
  match e.error with
  | some _ => e
  | none =>
    let next := f e.state
    ⟨next.state, e.log ++ next.log, next.error⟩

/-- A change for each element of a list. -/
def each (f : α → β → Edit ε α) (a : α) : List β → Edit ε α
  | [] => ⟨a, [], none⟩
  | b :: bs => (f a b).andThen fun a => each f a bs

/-- The state as a result, unless an error stopped the change. -/
def toReport (e : Edit ε α) : Report ε α :=
  ⟨e.log, match e.error with
    | none => .ok e.state
    | some err => .error err⟩

end Edit

end AnnotatedApi
