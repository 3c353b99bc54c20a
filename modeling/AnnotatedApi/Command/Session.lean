/-
  Sessions with a file system. A session is either done or asks what is at a path and goes on
  with the answer. What it comes to depends on the answers alone (`result`), and sessions run one
  after another come to what each of them comes to (`result_bind`).
-/
import AnnotatedApi.Path

namespace AnnotatedApi

/-- What is at a path. -/
inductive Entry where
  | absent
  | blocked  -- something on the way is no directory
  | directory
  | file (text : Option String)  -- none if it is no text
deriving DecidableEq

inductive Session (α : Type) where
  | done (a : α)
  | ask (path : Path) (next : Entry → Session α)

namespace Session

variable {α β : Type}

protected def bind : Session α → (α → Session β) → Session β
  | .done a, f => f a
  | .ask p next, f => .ask p fun e => (next e).bind f

instance : Monad Session where
  pure := .done
  bind := Session.bind

/-- What is at a path. -/
def look (p : Path) : Session Entry := .ask p .done

/-- What a session comes to with the given answers. -/
def result (answer : Path → Entry) : Session α → α
  | .done a => a
  | .ask p next => (next (answer p)).result answer

@[simp] theorem result_pure (answer : Path → Entry) (a : α) :
    (pure a : Session α).result answer = a := rfl

@[simp] theorem result_look (answer : Path → Entry) (p : Path) :
    (look p).result answer = answer p := rfl

@[simp] theorem result_bind (answer : Path → Entry) (s : Session α) (f : α → Session β) :
    (s >>= f).result answer = (f (s.result answer)).result answer := by
  show (Session.bind s f).result answer = _
  induction s with
  | done a => rfl
  | ask p next ih => exact ih (answer p)

end Session

end AnnotatedApi
