/-
  What a run leaves behind when it fails. All steps up to the document write nothing
  (`Run.WritesNothing`, `Build.writesNothing_draft`), and so do the steps that look for the place of
  the output; the file itself is written by one step, and only two things can go wrong behind it. A
  text with half a character is found out when the JSON file is there already, and the sections of
  the document are counted when the file has been written (`Build.error_of_writeOutput`,
  `Build.error_of_count`). A section that cannot be counted had no size in the base definition.
  `written_of_failed` is the statement, and `written_of_uncountable` a run that fails with its
  output written.
-/
import AnnotatedApi.Command.Workspace
import AnnotatedApi.Proofs.Files
import AnnotatedApi.Proofs.Sizes

namespace AnnotatedApi

namespace Run

variable {α β ε : Type}

/-- A step that writes no file, whether or not it fails. -/
def WritesNothing (r : Run α) : Prop :=
  ∀ answer t, (r.outcome answer t).2.written = t.written

theorem WritesNothing.written {r : Run α} (hr : WritesNothing r) {answer : Path → Entry}
    {t t' : Transcript} {x : Except CommandError α} (h : r.outcome answer t = (x, t')) :
    t'.written = t.written := by
  have ht := hr answer t
  rw [h] at ht
  exact ht

theorem writesNothing_pure (a : α) : WritesNothing (pure a) := fun _ _ => rfl

theorem writesNothing_throw (e : CommandError) : WritesNothing (throw e : Run α) := fun _ _ => rfl

theorem WritesNothing.bind {r : Run α} {f : α → Run β} (hr : WritesNothing r)
    (hf : ∀ a, WritesNothing (f a)) : WritesNothing (r >>= f) := by
  intro answer t
  rw [outcome_bind]
  split
  · next a t' h => exact (hf a answer t').trans (hr.written h)
  · next e t' h => exact hr.written h

theorem writesNothing_ofSession (s : Session α) : WritesNothing (ofSession s) := by
  intro answer t
  rw [outcome_ofSession]

theorem writesNothing_ofExcept (f : ε → CommandError) (x : Except ε α) :
    WritesNothing (ofExcept f x) := by
  intro answer t
  rw [outcome_ofExcept]

theorem writesNothing_modify {f : Transcript → Transcript} (hf : ∀ t, (f t).written = t.written) :
    WritesNothing (modify f : Run Unit) := fun _ t => hf t

theorem writesNothing_print (line : String) : WritesNothing (print line) :=
  writesNothing_modify fun _ => rfl

theorem writesNothing_record (log : List LogEntry) : WritesNothing (record log) :=
  writesNothing_modify fun _ => rfl

theorem writesNothing_get : WritesNothing (get : Run Transcript) := fun _ _ => rfl

theorem writesNothing_ofReport (f : ε → CommandError) (r : Report ε α) :
    WritesNothing (ofReport f r) :=
  (writesNothing_record r.log).bind fun _ => writesNothing_ofExcept f r.result

/-- A condition that stops the run, and the rest behind it. -/
theorem WritesNothing.unless {r : Run α} (hr : WritesNothing r) (c : Prop) [Decidable c]
    (e : CommandError) : WritesNothing (if c then throw e else r) := by
  split
  · exact writesNothing_throw e
  · exact hr

end Run

namespace Build

open Run

theorem writesNothing_look (p : Path) : WritesNothing (look p) := by
  unfold look
  refine WritesNothing.unless (writesNothing_get.bind fun t => ?_) _ _
  exact .unless (.unless (writesNothing_ofSession _) _ _) _ _

theorem writesNothing_readText (p : Path) : WritesNothing (readText p) := by
  unfold readText
  refine (writesNothing_look p).bind fun entry => ?_
  split
  · exact writesNothing_throw _
  · exact writesNothing_throw _
  · exact writesNothing_throw _
  · exact writesNothing_throw _
  · refine (writesNothing_modify ?_).bind fun _ => writesNothing_pure _
    exact fun _ => rfl

theorem writesNothing_loadDefinition (p : Path) : WritesNothing (loadDefinition p) :=
  (writesNothing_readText p).bind fun _ => writesNothing_ofExcept _ _

theorem writesNothing_configure (cwd : Path) (r : Usage.Request) :
    WritesNothing (configure cwd r) := by
  unfold configure
  split
  · refine (writesNothing_readText _).bind fun text => (writesNothing_ofExcept _ _).bind fun c => ?_
    dsimp only
    split
    · exact writesNothing_pure _
    · exact (writesNothing_loadDefinition _).bind fun _ => writesNothing_pure _
  · split
    · exact writesNothing_throw _
    · split
      · exact writesNothing_throw _
      · exact (writesNothing_loadDefinition _).bind fun _ => writesNothing_pure _

theorem writesNothing_loadComments (p : Path) : WritesNothing (loadComments p) :=
  (writesNothing_record _).bind fun _ => (writesNothing_readText p).bind fun _ =>
    (writesNothing_ofExcept _ _).bind fun _ => writesNothing_ofExcept _ _

theorem writesNothing_loadAll (ps : List Path) : WritesNothing (loadAll ps) := by
  induction ps with
  | nil => exact writesNothing_pure _
  | cons p ps ih =>
    exact (writesNothing_loadComments p).bind fun _ => ih.bind fun _ => writesNothing_pure _

theorem writesNothing_enter (made : Bool) (here : Path) (parts : List String) :
    WritesNothing (enter made here parts) := by
  induction parts generalizing made here with
  | nil => exact writesNothing_pure _
  | cons part parts ih =>
    refine (writesNothing_look _).bind fun entry => ?_
    split
    · exact ih _ _
    · exact ih _ _
    · exact ih _ _
    · exact .unless (writesNothing_throw _) _ _

/-- The first part of a run: the configuration, with the choices of the command line, and the
document that is to be written. -/
def draft (cwd : Path) (r : Usage.Request) : Run (Config × Value) := do
  let c := override r (← configure cwd r)
  Run.print ("Reading " ++ counted c.files.length "comment file(s)...")
  let blocks ← loadAll c.resolvedFiles
  let d ← Run.ofReport .generate
    (Generator.generateStamped (c.options id) c.definition blocks)
  return (c, if (← get).halves then d.restored else d)

/-- The second part of a run: the document is written and its sections are counted. -/
def deliver (r : Usage.Request) (d : Value) : Run Unit := do
  writeOutput d r.output
  let paths ← count d "paths"
  let definitions ← count d "definitions"
  Run.print ("Wrote " ++ r.output.text ++ " (" ++ counted paths "paths" ++ ", " ++
    counted definitions "definitions" ++ ")")

theorem run_eq_draft_deliver (cwd : Path) (r : Usage.Request) :
    run cwd r = (draft cwd r >>= fun p => deliver r p.2) := by
  simp only [run, draft, deliver, bind_assoc, pure_bind]

theorem writesNothing_draft (cwd : Path) (r : Usage.Request) : WritesNothing (draft cwd r) := by
  unfold draft
  refine (writesNothing_configure cwd r).bind fun c => (writesNothing_print _).bind fun _ => ?_
  refine (writesNothing_loadAll _).bind fun blocks => (writesNothing_ofReport _ _).bind fun d => ?_
  exact writesNothing_get.bind fun _ => writesNothing_pure _

section

variable {answer : Path → Entry} {t t' : Transcript} {e : CommandError} {d : Value} {p : Path}
  {r : Usage.Request} {text : String}

theorem written_of_put_error (h : (put p text).outcome answer t = (.error e, t')) :
    t'.written = t.written := by
  rcases error_of_bind h with hlook | ⟨entry, t₁, hlook, hrest⟩
  · exact (writesNothing_look _).written hlook
  · have ht := (writesNothing_look _).written hlook
    split at hrest
    · exact ((writesNothing_throw _).written hrest).trans ht
    · cases hrest

theorem written_of_put {u : Unit} (h : (put p text).outcome answer t = (.ok u, t')) :
    t'.written = some (p.resolved, text) := by
  obtain ⟨entry, t₁, -, hrest⟩ := ok_of_bind h
  split at hrest
  · cases hrest
  · cases hrest
    rfl

/-- A file that could not be written whole is there with nothing in it, or it is not there. -/
theorem error_of_writeOutput (h : (writeOutput d p).outcome answer t = (.error e, t')) :
    t'.written = t.written ∨
      t'.written = some (p.resolved, "") ∧ e = .file .unencodable ∧ Format.ofPath p = .json ∧
        d.wellFormed = false := by
  rcases error_of_bind h with henter | ⟨u, t₁, henter, hrest⟩
  · exact Or.inl ((writesNothing_enter _ _ _).written henter)
  have ht := (writesNothing_enter _ _ _).written henter
  split at hrest
  · exact Or.inl (((writesNothing_throw _).written hrest).trans ht)
  · next text hdump =>
    split at hrest
    · exact Or.inl ((written_of_put_error hrest).trans ht)
    · next hformat =>
      rw [Bool.or_eq_true, not_or, decide_eq_true_eq, Bool.not_eq_true] at hformat
      rcases error_of_bind hrest with hput | ⟨u, t₂, hput, hthrow⟩
      · exact Or.inl ((written_of_put_error hput).trans ht)
      · cases hthrow
        refine Or.inr ⟨written_of_put hput, rfl, ?_, hformat.2⟩
        cases hf : Format.ofPath p with
        | json => rfl
        | yaml => exact absurd hf hformat.1

theorem written_of_writeOutput {u : Unit} (h : (writeOutput d p).outcome answer t = (.ok u, t')) :
    ∃ text, dump d p = .ok text ∧ t'.written = some (p.resolved, text) := by
  obtain ⟨-, t₁, -, hrest⟩ := ok_of_bind h
  split at hrest
  · cases hrest
  · next text hdump =>
    split at hrest
    · exact ⟨text, hdump, written_of_put hrest⟩
    · obtain ⟨-, t₂, -, hthrow⟩ := ok_of_bind hrest
      cases hthrow

theorem writesNothing_count (d : Value) (key : String) : WritesNothing (count d key) := by
  unfold count
  split
  · split
    · exact writesNothing_pure _
    · exact writesNothing_throw _
  · exact writesNothing_throw _

/-- Counting fails on a section without a size. -/
theorem error_of_count {key : String} (h : (count d key).outcome answer t = (.error e, t')) :
    e = .uncountable ∧ ¬ Generator.IsSizedAt key d := by
  unfold count at h
  split at h
  · next l es =>
    split at h
    · cases h
    · next hnone =>
      cases h
      refine ⟨rfl, ?_⟩
      rintro ⟨m, es', hmap, v, hv, hsize⟩
      cases hmap
      rw [show Assoc.get? (.str key) es = some v from hv, Option.bind_some] at hnone
      rw [Value.isSized, hnone] at hsize
      cases hsize
  · next hmap =>
    cases h
    refine ⟨rfl, ?_⟩
    rintro ⟨m, es', rfl, -⟩
    exact hmap m es' rfl

/-- A second part that fails: the file is not written or has nothing in it, or it is written and a
section cannot be counted. -/
theorem error_of_deliver (h : (deliver r d).outcome answer t = (.error e, t')) :
    (writeOutput d r.output).outcome answer t = (.error e, t') ∨
      e = .uncountable ∧ (∃ key ∈ ["paths", "definitions"], ¬ Generator.IsSizedAt key d) ∧
        ∃ text, dump d r.output = .ok text ∧ t'.written = some (r.output.resolved, text) := by
  rcases error_of_bind h with hwrite | ⟨u, t₁, hwrite, hcount⟩
  · exact Or.inl hwrite
  obtain ⟨text, hdump, hwritten⟩ := written_of_writeOutput hwrite
  refine Or.inr ?_
  rcases error_of_bind hcount with hpaths | ⟨m, t₂, hpaths, hcount⟩
  · obtain ⟨rfl, hsize⟩ := error_of_count hpaths
    exact ⟨rfl, ⟨"paths", by simp, hsize⟩, text, hdump,
      ((writesNothing_count _ _).written hpaths).trans hwritten⟩
  have ht := (writesNothing_count _ _).written hpaths
  rcases error_of_bind hcount with hdefinitions | ⟨n, t₃, -, hprint⟩
  · obtain ⟨rfl, hsize⟩ := error_of_count hdefinitions
    exact ⟨rfl, ⟨"definitions", by simp, hsize⟩, text, hdump,
      ((writesNothing_count _ _).written hdefinitions).trans (ht.trans hwritten)⟩
  · cases hprint

end

/-- A first part that comes to a configuration and a document, step by step. -/
theorem ok_of_draft {answer : Path → Entry} {t t' : Transcript} {cwd : Path} {r : Usage.Request}
    {c : Config} {d : Value} (h : (draft cwd r).outcome answer t = (.ok (c, d), t')) :
    ∃ blocks d₀, (Generator.generateStamped (c.options id) c.definition blocks).result = .ok d₀ ∧
      d = if t'.halves then d₀.restored else d₀ := by
  obtain ⟨c₀, t₁, hconfigure, h⟩ := ok_of_bind h
  obtain ⟨-, t₂, -, h⟩ := ok_of_bind h
  obtain ⟨blocks, t₃, hblocks, h⟩ := ok_of_bind h
  obtain ⟨d₀, t₄, hdoc, h⟩ := ok_of_bind h
  obtain ⟨t₅, t₆, hget, h⟩ := ok_of_bind h
  cases hget
  cases h
  exact ⟨blocks, d₀, ok_of_ofReport hdoc, rfl⟩

/-- A section that has no size in the document had none in the base definition. -/
theorem unsized_of_draft {answer : Path → Entry} {t t' : Transcript} {cwd : Path}
    {r : Usage.Request} {c : Config} {d : Value}
    (h : (draft cwd r).outcome answer t = (.ok (c, d), t')) {key : String}
    (hkey : key ∈ ["paths", "definitions"]) (hd : ¬ Generator.IsSizedAt key d) :
    ∃ v, Entries.get? key c.definition.entries = some v ∧ v.truthy = true ∧ v.isSized = false := by
  have hsection : key ∈ sections := by
    rcases List.mem_pair.mp hkey with rfl | rfl <;> decide
  obtain ⟨blocks, d₀, hd₀, rfl⟩ := ok_of_draft h
  by_contra hno
  simp only [not_exists, not_and, Bool.not_eq_false] at hno
  have hsized := Generator.isSizedAt_generateStamped hsection hno hd₀
  refine hd ?_
  split
  · exact hsized.restored hkey
  · exact hsized

end Build

namespace Workspace

open Run

variable {w : Workspace} {args : List String}

/-- What a run is asked, its configuration and the document that it comes to before anything is
written. -/
def Drafts (w : Workspace) (args : List String) (r : Usage.Request) (c : Config) (d : Value) :
    Prop :=
  ∃ verbose rest t, Usage.command args = .ok (verbose, rest) ∧
    (Usage.request rest).result w.look = .ok r ∧
    (Build.draft w.cwd r).outcome w.look { verbose := verbose } = (.ok (c, d), t)

/-- The steps of a run, with the command line read. -/
theorem outcome_steps (answer : Path → Entry) (cwd : Path) (args : List String) :
    (program.steps cwd args).outcome answer {} =
      if Usage.asksHelp args then (.ok (), {})
      else
        match Usage.command args with
        | .error u => (.error (.usage u), {})
        | .ok (verbose, rest) =>
          match (Usage.request rest).result answer with
          | .error u => (.error (.usage u), { verbose := verbose })
          | .ok r => (Build.run cwd r).outcome answer { verbose := verbose } := by
  unfold program.steps
  split
  · rfl
  rw [outcome_bind, outcome_ofExcept]
  rcases Usage.command args with u | ⟨verbose, rest⟩
  · rfl
  dsimp only [Except.mapError]
  rw [outcome_bind]
  show Run.outcome answer { verbose := verbose } _ = _
  rw [outcome_bind, outcome_ofSession]
  dsimp only
  rw [outcome_bind, outcome_ofExcept]
  cases (Usage.request rest).result answer <;> rfl

theorem outcome_steps_of_error {e : CommandError} (h : (w.run args).error = some e) :
    (program.steps w.cwd args).outcome w.look {} = (.error e, (w.run args).transcript) := by
  have hrun : w.run args =
      match (program.steps w.cwd args).outcome w.look {} with
      | (.ok (), t) => ⟨none, t⟩
      | (.error e, t) => ⟨some e, t⟩ := by
    show ((program.steps w.cwd args).run.run {} >>= _).result w.look = _
    rw [Session.result_bind]
    unfold Run.outcome
    rcases ((program.steps w.cwd args).run.run {}).result w.look with ⟨_ | _, t⟩ <;> rfl
  rw [hrun] at h ⊢
  split at h
  · cases h
  · next e' t hsteps =>
    cases h
    exact hsteps

/-- A run that fails does so on the command line, or later in a run of `build`. -/
theorem error_of_run {e : CommandError} (h : (w.run args).error = some e) :
    ((∃ u, e = .usage u) ∧ (w.run args).transcript.written = none) ∨
      ∃ verbose rest r, Usage.command args = .ok (verbose, rest) ∧
        (Usage.request rest).result w.look = .ok r ∧
        (Build.run w.cwd r).outcome w.look { verbose := verbose } =
          (.error e, (w.run args).transcript) := by
  have hsteps := outcome_steps_of_error h
  rw [outcome_steps] at hsteps
  generalize (w.run args).transcript = t' at hsteps ⊢
  split at hsteps
  · cases hsteps
  split at hsteps
  · next u hcommand =>
    cases hsteps
    exact Or.inl ⟨⟨u, rfl⟩, rfl⟩
  · next verbose rest hcommand =>
    split at hsteps
    · next u hrequest =>
      cases hsteps
      exact Or.inl ⟨⟨u, rfl⟩, rfl⟩
    · next r hrequest => exact Or.inr ⟨verbose, rest, r, hcommand, hrequest, hsteps⟩

end Workspace

open Run Workspace in
/-- A run that fails has written nothing, but for two cases: the sections of the document are
counted when its file has been written whole, which fails if the base definition has a section
without a size; and half a character in a document for a JSON file is found out when the file is
there with nothing in it. -/
theorem written_of_failed (w : Workspace) (args : List String) {e : CommandError}
    (h : (w.run args).error = some e) :
    (w.run args).transcript.written = none ∨
      ∃ r c d text, w.Drafts args r c d ∧
        (w.run args).transcript.written = some (r.output.resolved, text) ∧
        ((e = .uncountable ∧ dump d r.output = .ok text ∧
            ∃ key ∈ ["paths", "definitions"], ∃ v,
              Entries.get? key c.definition.entries = some v ∧ v.truthy = true ∧
                v.isSized = false) ∨
          (e = .file .unencodable ∧ text = "" ∧ Format.ofPath r.output = .json ∧
            d.wellFormed = false)) := by
  rcases error_of_run h with ⟨-, hwritten⟩ | ⟨verbose, rest, r, hcommand, hrequest, hrun⟩
  · exact Or.inl hwritten
  rw [Build.run_eq_draft_deliver] at hrun
  rcases error_of_bind hrun with hdraft | ⟨⟨c, d⟩, t, hdraft, hdeliver⟩
  · exact Or.inl ((Build.writesNothing_draft _ _).written hdraft)
  have ht : t.written = none := (Build.writesNothing_draft _ _).written hdraft
  have hdrafts : w.Drafts args r c d := ⟨verbose, rest, t, hcommand, hrequest, hdraft⟩
  rcases Build.error_of_deliver hdeliver with
    hwrite | ⟨rfl, ⟨key, hkey, hsize⟩, text, hdump, hwritten⟩
  · rcases Build.error_of_writeOutput hwrite with hnone | ⟨hwritten, rfl, hformat, hhalf⟩
    · exact Or.inl (hnone.trans ht)
    · exact Or.inr ⟨r, c, d, "", hdrafts, hwritten, Or.inr ⟨rfl, rfl, hformat, hhalf⟩⟩
  · exact Or.inr ⟨r, c, d, text, hdrafts, hwritten,
      Or.inl ⟨rfl, hdump, key, hkey, Build.unsized_of_draft hdraft hkey hsize⟩⟩

/-- A base definition and the comments of one model, in the working directory. -/
def petFolder (definition : String) : Workspace :=
  ⟨["work"], [(["work", "api.yaml"], some definition),
    (["work", "pets.yaml"],
      some "- tags:\n  - title: typedef\n    name: Pet\n  - title: swaggermodel\n")]⟩

def petArguments : List String := ["build", "pets.yaml", "-d", "api.yaml", "-o", "pets.json"]

/-- A model cannot be put into definitions that are a number, and nothing is written. -/
theorem written_of_failed_petFolder :
    ((petFolder "definitions: 5\n").run petArguments).error.map CommandError.subject =
        some "The comment blocks give no document." ∧
      ((petFolder "definitions: 5\n").run petArguments).transcript.written = none := by
  have hsubject : ((petFolder "definitions: 5\n").run petArguments).error.map
      CommandError.subject = some "The comment blocks give no document." := by decide +kernel
  obtain ⟨e, he, hs⟩ := Option.map_eq_some_iff.mp hsubject
  refine ⟨hsubject, ?_⟩
  rcases written_of_failed (petFolder "definitions: 5\n") petArguments he with
    hnone | ⟨r, c, d, text, -, -, ⟨rfl, -⟩ | ⟨rfl, -⟩⟩
  · exact hnone
  · exact absurd hs (by decide)
  · exact absurd hs (by decide)

/-- Paths that are a number are written, and the run fails when it counts them. -/
theorem written_of_uncountable :
    ((petFolder "paths: 5\n").run petArguments).error.isSome = true ∧
      ((petFolder "paths: 5\n").created
        ((petFolder "paths: 5\n").run petArguments).transcript).map Prod.fst = ["pets.json"] := by
  decide +kernel

end AnnotatedApi
