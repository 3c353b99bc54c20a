/-
  What a run reads from a file. With the answers of a file system given, a run is a function of its
  transcript (`Run.outcome`). From a file that is there, a definition or comment blocks are read as
  from its text with line feeds for line breaks (`Build.outcome_loadDefinition`,
  `Build.outcome_loadComments`).
-/
import AnnotatedApi.Command.Build
import AnnotatedApi.Proofs.Run

namespace AnnotatedApi

namespace Session

instance : LawfulMonad Session :=
  LawfulMonad.mk' Session
    (fun s => by
      show Session.bind s pure = s
      induction s with
      | done a => rfl
      | ask p next ih => exact congrArg (Session.ask p) (funext ih))
    (fun a f => rfl)
    (fun s f g => by
      show Session.bind (Session.bind s f) g = Session.bind s fun a => Session.bind (f a) g
      induction s with
      | done a => rfl
      | ask p next ih => exact congrArg (Session.ask p) (funext ih))

end Session

/-- Whether all parts of a path can be names in a directory. -/
def Path.isNamed (p : Path) : Bool :=
  p.parts.all fun s => !s.toList.contains '\x00' && s.utf8ByteSize ≤ Build.nameLimit

/-- What a run comes to from the transcript `t`, with the given answers. -/
def Run.outcome {α : Type} (answer : Path → Entry) (t : Transcript) (r : Run α) :
    Except CommandError α × Transcript :=
  ((r.run).run t).result answer

namespace Run

variable {α β : Type} {answer : Path → Entry} {t : Transcript}

theorem outcome_bind (r : Run α) (f : α → Run β) :
    (r >>= f).outcome answer t =
      match r.outcome answer t with
      | (.ok a, t') => (f a).outcome answer t'
      | (.error e, t') => (.error e, t') := by
  show ((r.run).run t >>= fun a => (ExceptT.bindCont f a.1).run a.2).result answer = _
  rw [Session.result_bind]
  show _ = match ((r.run).run t).result answer with
    | (.ok a, t') => (f a).outcome answer t'
    | (.error e, t') => (.error e, t')
  obtain ⟨a, t'⟩ := ((r.run).run t).result answer
  cases a <;> rfl

/-- A sequence of steps that fails does so in its first part, or behind the result of it. -/
theorem error_of_bind {r : Run α} {f : α → Run β} {e : CommandError} {t' : Transcript}
    (h : (r >>= f).outcome answer t = (.error e, t')) :
    r.outcome answer t = (.error e, t') ∨
      ∃ a t₁, r.outcome answer t = (.ok a, t₁) ∧ (f a).outcome answer t₁ = (.error e, t') := by
  rw [outcome_bind] at h
  split at h
  · next a t₁ hr => exact Or.inr ⟨a, t₁, hr, h⟩
  · next hr =>
    cases h
    exact Or.inl hr

/-- A sequence of steps that comes to a result does so step by step. -/
theorem ok_of_bind {r : Run α} {f : α → Run β} {b : β} {t' : Transcript}
    (h : (r >>= f).outcome answer t = (.ok b, t')) :
    ∃ a t₁, r.outcome answer t = (.ok a, t₁) ∧ (f a).outcome answer t₁ = (.ok b, t') := by
  rw [outcome_bind] at h
  split at h
  · next a t₁ hr => exact ⟨a, t₁, hr, h⟩
  · cases h

theorem outcome_ofSession (s : Session α) :
    (ofSession s).outcome answer t = (.ok (s.result answer), t) := by
  show ((s >>= fun a => pure (a, t)) >>= fun p => pure (Except.ok p.1, p.2)).result answer = _
  rw [Session.result_bind, Session.result_bind]
  rfl

theorem outcome_get : (get : Run Transcript).outcome answer t = (.ok t, t) := rfl

theorem outcome_ofExcept {ε : Type} (f : ε → CommandError) (r : Except ε α) :
    (ofExcept f r).outcome answer t = (r.mapError f, t) := by
  cases r <;> rfl

theorem outcome_record (log : List LogEntry) :
    (record log).outcome answer t = (.ok (), { t with log := t.log ++ log }) := rfl

theorem ok_of_ofExcept {ε : Type} {f : ε → CommandError} {x : Except ε α} {a : α}
    {t' : Transcript} (h : (ofExcept f x).outcome answer t = (.ok a, t')) : x = .ok a := by
  cases x with
  | error e => cases h
  | ok b =>
    cases h
    rfl

theorem ok_of_ofReport {ε : Type} {f : ε → CommandError} {x : Report ε α} {a : α}
    {t' : Transcript} (h : (ofReport f x).outcome answer t = (.ok a, t')) : x.result = .ok a := by
  obtain ⟨_, t₁, -, h⟩ := ok_of_bind h
  exact ok_of_ofExcept h

end Run

namespace Build

variable {answer : Path → Entry} {t : Transcript} {p : Path} {s : String}

/-- What is at a path is seen, unless a half of a character in its name is held for one. -/
theorem outcome_look_of_named (hp : p.isNamed = true)
    (ht : (t.halves && p.parts.any (·.any Text.isHalf)) = false) :
    (look p).outcome answer t = (.ok (answer p), t) := by
  rw [Path.isNamed, List.all_eq_true] at hp
  have hnull : (p.parts.any fun s => s.toList.contains '\x00') = false :=
    List.any_eq_false.mpr fun s hs => by simpa using (Bool.and_eq_true_iff.mp (hp s hs)).1
  have hlong : (p.parts.any fun s => nameLimit < s.utf8ByteSize) = false :=
    List.any_eq_false.mpr fun s hs => by simpa using (Bool.and_eq_true_iff.mp (hp s hs)).2
  unfold look
  rw [hnull, hlong]
  simp only [Bool.false_eq_true, if_false]
  rw [Run.outcome_bind, Run.outcome_get]
  simp only [ht, Bool.false_eq_true, if_false]
  rfl

theorem outcome_look (hp : p.isNamed = true) (ht : t.halves = false) :
    (look p).outcome answer t = (.ok (answer p), t) :=
  outcome_look_of_named hp (by rw [ht, Bool.false_and])

/-- A file is read with its line breaks as line feeds. -/
theorem outcome_readText (hp : p.isNamed = true) (ht : t.halves = false)
    (hs : answer p = .file (some s)) :
    (readText p).outcome answer t =
      (.ok (String.ofList (Text.unixLines s.toList)),
        { t with halves := Text.spellsHalf (Text.unixLines s.toList) }) := by
  rw [readText, Run.outcome_bind, outcome_look hp ht, hs]
  show (Except.ok _, { t with halves := t.halves || _ }) = _
  rw [ht]
  rfl

/-- The base definition that is read from a file. -/
theorem outcome_loadDefinition (hp : p.isNamed = true) (ht : t.halves = false)
    (hs : answer p = .file (some s)) :
    ((loadDefinition p).outcome answer t).1 =
      (readDefinition p (String.ofList (Text.unixLines s.toList))).mapError .definition := by
  rw [loadDefinition, Run.outcome_bind, outcome_readText hp ht hs]
  dsimp only
  rw [Run.outcome_ofExcept]

/-- The comment blocks that are read from a file. -/
theorem outcome_loadComments (hp : p.isNamed = true) (ht : t.halves = false)
    (hs : answer p = .file (some s)) :
    ((loadComments p).outcome answer t).1 =
      match Yaml.read (String.ofList (Text.unixLines s.toList)) with
      | .error f => .error (.unreadableComments f)
      | .ok v => (commentsOf v).mapError .comments := by
  rw [loadComments, Run.outcome_bind, Run.outcome_record]
  dsimp only
  rw [Run.outcome_bind, outcome_readText hp (by exact ht) hs]
  dsimp only
  rw [Run.outcome_bind]
  cases Yaml.read (String.ofList (Text.unixLines s.toList)) with
  | error f => rfl
  | ok v =>
    show ((Run.ofExcept CommandError.comments (commentsOf v)).outcome answer _).1 = _
    rw [Run.outcome_ofExcept]

end Build

end AnnotatedApi
