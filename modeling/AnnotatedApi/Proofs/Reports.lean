/-
  Runs that fail with a report. With arguments that are right, a run may still fail because of what
  is in its files. Some errors are reported, as those of the arguments are; others stop the run as
  they are. `Build.Sound` says what the files must not hold, so that there are none of the second
  kind: a definition or a comment file that is no YAML, a scalar that cannot be read, a value that
  contains itself, a comment file that is no list, settings or sections of the wrong kind, or what
  the format of the output cannot write. Each step of a run over such files comes to a result or to
  a report (`Run.Reports`), and so does the run (`reported_of_failed`). `escapes_of_malformed` is a
  run that stops without a report.

  Anchors are allowed in all files, also where the sections of the definition are one object. A
  value that contains itself, which an alias inside the node of its anchor can make, is left out:
  what a run over it comes to is not said here. Nor is the depth of the interpreter's stack, which
  depends on its setting and not on the files alone.
-/
import AnnotatedApi.Proofs.Output
import AnnotatedApi.Proofs.Ready
import Mathlib.Data.List.Infix

namespace AnnotatedApi

/-! ## Paths and texts -/

namespace Path

/-- Whether something can have a name in any run: no null character, not too long, and no half of a
character. -/
def isUsableName (s : String) : Bool :=
  !s.toList.contains '\x00' && s.utf8ByteSize ≤ Build.nameLimit && !s.toList.any Text.isHalf

/-- Whether a path can be looked at in any run. -/
def isUsable (p : Path) : Bool := p.parts.all isUsableName

theorem mem_parts_step {p : Path} {part s : String} (h : s ∈ (p.step part).parts) :
    s ∈ p.parts ∨ s = part := by
  have happend : s ∈ p.parts ++ [part] → s ∈ p.parts ∨ s = part := by simp
  unfold step at h
  split at h
  · exact happend h
  · split at h
    · exact Or.inl (List.dropLast_subset _ h)
    · split at h
      · exact Or.inl h
      · exact happend h

theorem isUsable_step {p : Path} {part : String} (hp : p.isUsable = true)
    (h : isUsableName part = true) : (p.step part).isUsable = true := by
  rw [isUsable, List.all_eq_true] at hp ⊢
  intro s hs
  rcases mem_parts_step hs with hs | rfl
  · exact hp s hs
  · exact h

theorem isUsable_resolved {p : Path} (hp : p.isUsable = true) : p.resolved.isUsable = true :=
  List.foldlRecOn (motive := fun q : Path => q.isUsable = true) p.parts step rfl
    fun _ hq part hpart => isUsable_step hq (List.all_eq_true.mp hp part hpart)

end Path

namespace Build

variable {answer : Path → Entry} {t : Transcript} {p : Path} {s : String}

theorem outcome_look_of_usable (hp : p.isUsable = true) :
    (look p).outcome answer t = (.ok (answer p), t) := by
  rw [Path.isUsable, List.all_eq_true] at hp
  have hnamed : p.isNamed = true := by
    rw [Path.isNamed, List.all_eq_true]
    exact fun s hs => (Bool.and_eq_true_iff.mp (hp s hs)).1
  have hhalf : p.parts.any (·.any Text.isHalf) = false := by
    rw [List.any_eq_false]
    intro s hs
    rw [show s.any Text.isHalf = s.toList.any Text.isHalf from String.contains_bool_eq]
    simpa using (Bool.and_eq_true_iff.mp (hp s hs)).2
  exact outcome_look_of_named hnamed (by rw [hhalf, Bool.and_false])

/-- The text of a file as it is read, with line feeds as line breaks. -/
def text? (answer : Path → Entry) (p : Path) : Option String :=
  match answer p with
  | .file (some s) => if p.isUsable then some (String.ofList (Text.unixLines s.toList)) else none
  | _ => none

theorem outcome_readText_of_text? (h : text? answer p = some s) :
    (readText p).outcome answer t =
      (.ok s, { t with halves := t.halves || Text.spellsHalf s.toList }) := by
  unfold text? at h
  split at h
  · next text htext =>
    split at h
    · next hp =>
      cases h
      rw [readText, Run.outcome_bind, outcome_look_of_usable hp, htext, String.toList_ofList]
      rfl
    · cases h
  · cases h

end Build

/-! ## Steps that come to a result or to a report -/

/-- No text that was read spells half a character, or the format can write one. -/
def Transcript.Whole (f : Format) (t : Transcript) : Prop := f = .json → t.halves = false

namespace Run

variable {α β ε : Type} {answer : Path → Entry} {f : Format}

/-- A step that comes to a result that `P` holds of, or to an error that is reported. -/
def Reports (answer : Path → Entry) (f : Format) (P : α → Prop) (r : Run α) : Prop :=
  ∀ t, t.Whole f → Ends P (fun e => e.isReported = true) (r.outcome answer t).1 ∧
    (r.outcome answer t).2.Whole f

variable {P : α → Prop} {Q : β → Prop} {r : Run α}

theorem reports_pure {a : α} (h : P a) : Reports answer f P (pure a) := fun _ ht => ⟨.ok h, ht⟩

theorem reports_throw {e : CommandError} (h : e.isReported = true) :
    Reports answer f P (throw e) := fun _ ht => ⟨.error h, ht⟩

theorem Reports.bind {k : α → Run β} (hr : Reports answer f P r)
    (hk : ∀ a, P a → Reports answer f Q (k a)) : Reports answer f Q (r >>= k) := by
  intro t ht
  obtain ⟨hend, hwhole⟩ := hr t ht
  rw [outcome_bind]
  split
  · next a t' h =>
    rw [h] at hend hwhole
    cases hend with
    | ok ha => exact hk a ha t' hwhole
  · next e t' h =>
    rw [h] at hend hwhole
    cases hend with
    | error hreported => exact ⟨.error hreported, hwhole⟩

/-- What a step comes to is what it can come to. -/
theorem Reports.possible (hr : Reports answer f P r) :
    Reports answer f (fun a => P a ∧ ∃ t t', r.outcome answer t = (.ok a, t')) r := by
  intro t ht
  obtain ⟨hend, hwhole⟩ := hr t ht
  refine ⟨?_, hwhole⟩
  cases h : r.outcome answer t with
  | mk x t' =>
    rw [h] at hend
    cases hend with
    | error hreported => exact .error hreported
    | ok ha => exact .ok ⟨ha, t, t', h⟩

theorem reports_ofExcept {g : ε → CommandError} {x : Except ε α}
    (h : Ends P (fun e => (g e).isReported = true) x) : Reports answer f P (ofExcept g x) := by
  intro t ht
  rw [outcome_ofExcept]
  cases h with
  | error h => exact ⟨.error h, ht⟩
  | ok h => exact ⟨.ok h, ht⟩

theorem reports_print (line : String) : Reports answer f (fun _ => True) (print line) :=
  fun _ ht => ⟨.ok trivial, ht⟩

theorem reports_record (log : List LogEntry) : Reports answer f (fun _ => True) (record log) :=
  fun _ ht => ⟨.ok trivial, ht⟩

theorem reports_get : Reports answer f (Transcript.Whole f) get := fun _ ht => ⟨.ok ht, ht⟩

theorem reports_ofReport {g : ε → CommandError} {x : Report ε α}
    (h : Ends P (fun e => (g e).isReported = true) x.result) :
    Reports answer f P (ofReport g x) :=
  (reports_record x.log).bind fun _ _ => reports_ofExcept h

end Run

/-! ## What the files of a run may hold -/

namespace Build

open Run

/-- Whether there is a file with a text as asked; for a JSON document it spells no half of a
character. -/
def holds (answer : Path → Entry) (f : Format) (asked : String → Bool) (p : Path) : Bool :=
  match text? answer p with
  | some s => (f = .yaml || !Text.spellsHalf s.toList) && asked s
  | none => false

/-- Whether a text is YAML, for a value that does not contain itself. -/
def isYaml (s : String) : Bool := (Yaml.read s).toOption.isSome

/-- Whether all scalars of a text can be read, if it is not malformed. The text of a value that
contains itself does not count. -/
def hasScalars (s : String) : Bool :=
  match Yaml.read s with
  | .ok _ => true
  | .error fault => fault = .malformed

/-- Whether the blocks that a value holds are sound, where they have the right shape. -/
def hasSoundBlocks (f : Format) (v : Value) : Bool :=
  match commentValues v with
  | .ok items => items.all fun item =>
    match CommentBlock.check item with
    | .ok b => b.isSound f
    | .error _ => true
  | .error _ => false

/-- Whether a text is YAML with a list of comments in it, which does not contain itself. -/
def isComments (f : Format) (s : String) : Bool :=
  match Yaml.read s with
  | .ok v => hasSoundBlocks f v
  | .error _ => false

/-- Whether there is room for a file: no file is in the place of a directory on the way, and no
directory in the place of the file. -/
def hasRoom (answer : Path → Entry) (p : Path) : Bool :=
  p.isUsable && !namesDirectory p && answer p.resolved ≠ .directory &&
    p.parent.parts.inits.all fun pre =>
      match answer (pre.foldl Path.step ⟨p.slashes, []⟩) with
      | .file _ => false
      | _ => true

/-- The configuration that a run can come to. -/
def Configures (answer : Path → Entry) (cwd : Path) (r : Usage.Request) (c : Config) : Prop :=
  ∃ t t', (configure cwd r).outcome answer t = (.ok c, t')

/-- What the files of a run hold, so that it comes to a document or to a report. The base definition
may have anchors anywhere, as long as none makes a value contain itself, and no group is one object
with the paths, a path item or the definitions (`Sections.Open`). -/
structure Sound (answer : Path → Entry) (cwd : Path) (r : Usage.Request) : Prop where
  config : ∀ p, r.config = some p → holds answer (Format.ofPath r.output) hasScalars p = true
  definition : ∀ p, r.definition = some p → holds answer (Format.ofPath r.output) isYaml p = true
  comments : ∀ c, Configures answer cwd r c → ∀ p ∈ c.resolvedFiles,
    holds answer (Format.ofPath r.output) (isComments (Format.ofPath r.output)) p = true
  base : ∀ c, Configures answer cwd r c → ∃ l d, c.definition = .map l d ∧
    (Skeleton.entries d).Ready (Format.ofPath r.output)
  room : hasRoom answer r.output = true

variable {answer : Path → Entry} {f : Format} {p : Path}

/-! ## Reading -/

theorem reports_readText {asked : String → Bool} (h : holds answer f asked p = true) :
    Reports answer f (fun s => asked s = true) (readText p) := by
  unfold holds at h
  split at h
  · next s hs =>
    rw [Bool.and_eq_true, Bool.or_eq_true, decide_eq_true_eq, Bool.not_eq_true'] at h
    intro t ht
    rw [outcome_readText_of_text? hs]
    refine ⟨.ok h.2, fun hf => ?_⟩
    show (t.halves || Text.spellsHalf s.toList) = false
    rw [ht hf, h.1.resolve_left (by rw [hf]; decide)]
    rfl
  · cases h

theorem reports_loadDefinition (h : holds answer f isYaml p = true) :
    Reports answer f Value.Coherent (loadDefinition p) := by
  refine (reports_readText h).bind fun s hs => reports_ofExcept ?_
  unfold isYaml at hs
  unfold readDefinition
  cases hv : Yaml.read s with
  | error fault =>
    rw [hv] at hs
    cases hs
  | ok v =>
    cases v with
    | map l es => exact .ok (Yaml.coherent_of_read hv)
    | _ => exact .error rfl

/-- A field that was checked is there and checked, or has its default. -/
theorem ok_of_field? {α : Type} {key : String} {entries : Entries} {check : Value → Checked α}
    {default : Checked α} {a : α} (h : Tag.field? key entries check default = .ok a) :
    (∃ e ∈ entries, check e.2 = .ok a) ∨ default = .ok a := by
  unfold Tag.field? at h
  split at h
  · next v hv =>
    left
    refine ⟨_, Assoc.mem_of_get? hv, ?_⟩
    cases hc : check v with
    | error cs =>
      rw [hc] at h
      cases h
    | ok b =>
      rw [hc] at h
      exact h
  · exact Or.inr h

theorem ok_of_both {α β : Type} {x : Checked α} {y : Checked β} {p : α × β}
    (h : Checked.both x y = .ok p) : x = .ok p.1 := by
  cases x with
  | error cs => cases y <;> cases h
  | ok a =>
    cases y with
    | error ds => cases h
    | ok b =>
      cases h
      rfl

/-- The definition of a configuration is one of its parts, as an object of its own. -/
theorem coherent_of_check {l : Option Label} {entries : Entries} {c : Config}
    (hv : (Value.map l entries).Coherent) (h : Config.check (.map l entries) = .ok c) :
    c.definition.Coherent := by
  have hmapping : ∀ e ∈ entries, ∀ v, Contribution.anyMap e.2 = .ok v → v.Coherent := by
    intro e he v hchecked
    unfold Contribution.anyMap at hchecked
    split at hchecked
    · next m es hes =>
      cases hchecked
      have hstands : Value.Stands (.map m es) (.map l entries) :=
        .value he (hes ▸ Value.Stands.here)
      exact (hv.of_stands hstands).unlabelled
    · cases hchecked
  have hfield : Config.definitionField entries = .ok c.definition := by
    unfold Config.check at h
    obtain ⟨fields, hfields, rfl⟩ := exists_of_map_ok h
    exact ok_of_both hfields
  rcases ok_of_field? hfield with ⟨e, he, hchecked⟩ | hfield
  · exact hmapping e he _ hchecked
  · rcases ok_of_field? hfield with ⟨e, he, hchecked⟩ | hfield
    · exact hmapping e he _ hchecked
    · cases hfield

theorem ends_ofText (file : Path) {s : String} (h : hasScalars s = true) :
    Ends (fun c => c.definition.Coherent)
      (fun e => (CommandError.config file e).isReported = true) (Config.ofText file s) := by
  unfold hasScalars at h
  unfold Config.ofText
  cases hs : Yaml.read s with
  | error fault =>
    simp only [hs, decide_eq_true_eq] at h
    subst h
    exact .error rfl
  | ok v =>
    cases v with
    | map l es =>
      dsimp only
      cases hc : Config.check (.map l es) with
      | error cs => exact .error rfl
      | ok c =>
        have hcoherent := coherent_of_check (Yaml.coherent_of_read hs) hc
        exact .ok hcoherent
    | _ => exact .error rfl

theorem reports_configure {cwd : Path} {r : Usage.Request}
    (hconfig : ∀ p, r.config = some p → holds answer f hasScalars p = true)
    (hdefinition : ∀ p, r.definition = some p → holds answer f isYaml p = true) :
    Reports answer f (fun c => c.definition.Coherent) (configure cwd r) := by
  unfold configure
  split
  · next file hfile =>
    refine (reports_readText (hconfig file hfile)).bind fun s hs => ?_
    refine (reports_ofExcept (ends_ofText file hs)).bind fun c hc => ?_
    dsimp only
    split
    · exact reports_pure hc
    · next d hd =>
      exact (reports_loadDefinition (hdefinition d hd)).bind fun _ hv => reports_pure hv
  · split
    · exact reports_throw rfl
    · next d hd =>
      split
      · exact reports_throw rfl
      · exact (reports_loadDefinition (hdefinition d hd)).bind fun _ hv => reports_pure hv

theorem ends_commentsOf {v : Value} (h : hasSoundBlocks f v = true) :
    Ends (fun bs => ∀ b ∈ bs, b.isSound f = true)
      (fun e => (CommandError.comments e).isReported = true) (commentsOf v) := by
  unfold hasSoundBlocks at h
  unfold commentsOf
  split at h
  · next items hitems =>
    rw [List.all_eq_true] at h
    rw [hitems]
    refine ends_mapM fun item hitem => ?_
    have hblock := h item hitem
    cases hb : CommentBlock.check item with
    | error cs => exact .error rfl
    | ok b =>
      rw [hb] at hblock
      exact .ok hblock
  · cases h

theorem reports_loadComments (h : holds answer f (isComments f) p = true) :
    Reports answer f (fun bs => ∀ b ∈ bs, b.isSound f = true) (loadComments p) := by
  refine (reports_record _).bind fun _ _ => (reports_readText h).bind fun s hs => ?_
  unfold isComments at hs
  refine (reports_ofExcept (P := fun v => hasSoundBlocks f v = true) ?_).bind fun v hv =>
    reports_ofExcept (ends_commentsOf hv)
  split at hs
  · next v hv =>
    rw [hv]
    exact .ok hs
  · cases hs

theorem reports_loadAll {ps : List Path}
    (h : ∀ p ∈ ps, holds answer f (isComments f) p = true) :
    Reports answer f (fun bs => ∀ b ∈ bs, b.isSound f = true) (loadAll ps) := by
  induction ps with
  | nil => exact reports_pure (by simp)
  | cons p ps ih =>
    refine (reports_loadComments (h p List.mem_cons_self)).bind fun bs hbs => ?_
    refine (ih fun p hp => h p (List.mem_cons_of_mem _ hp)).bind fun bs' hbs' => ?_
    exact reports_pure fun b hb => (List.mem_append.mp hb).elim (hbs b) (hbs' b)

/-! ## The document -/

/-- A document that can be written to a file and counted. -/
structure Deliverable (p : Path) (d : Value) : Prop where
  text : ∃ text, dump d p = .ok text
  wellFormed : Format.ofPath p = .yaml ∨ d.wellFormed = true
  sized : ∀ key ∈ ["paths", "definitions"], Generator.IsSizedAt key d

theorem deliverable_of_writableIn {d : Value} (hd : d.writableIn (Format.ofPath p) = true)
    (hsized : ∀ key ∈ ["paths", "definitions"], Generator.IsSizedAt key d) {t : Transcript}
    (ht : t.Whole (Format.ofPath p)) : Deliverable p (if t.halves then d.restored else d) := by
  cases hf : Format.ofPath p with
  | yaml =>
    have hspellable := Value.spellable_of_writableIn d hd
    have hsome : ∀ e : Value, e.spellable = true → ∃ text, dump e p = .ok text := by
      intro e he
      rw [dump, hf]
      exact exists_render_yaml he
    split
    · exact ⟨hsome _ ((Value.spellable_restored d).trans hspellable), Or.inl hf,
        fun key hkey => (hsized key hkey).restored hkey⟩
    · exact ⟨hsome d hspellable, Or.inl hf, hsized⟩
  | json =>
    rw [hf] at hd
    rw [if_neg (by rw [ht hf]; exact Bool.false_ne_true)]
    refine ⟨?_, Or.inr (Value.wellFormed_of_writableIn d hd), hsized⟩
    rw [dump, hf]
    exact exists_render_json hd

theorem reports_draft {cwd : Path} {r : Usage.Request} (h : Sound answer cwd r) :
    Reports answer (Format.ofPath r.output) (fun p => Deliverable r.output p.2) (draft cwd r) := by
  unfold draft
  refine (reports_configure h.config h.definition).possible.bind fun c hc => ?_
  obtain ⟨l, d, hdefinition, hready⟩ := h.base c hc.2
  refine (reports_print _).bind fun _ _ => ?_
  refine (reports_loadAll (h.comments c hc.2)).bind fun bs hbs => ?_
  refine (reports_ofReport (P := fun doc => doc.writableIn (Format.ofPath r.output) = true ∧
    ∀ key ∈ ["paths", "definitions"], Generator.IsSizedAt key doc) ?_).bind fun doc hdoc => ?_
  · show Ends _ _ (Generator.generateStamped _ c.definition bs).result
    rw [hdefinition]
    exact Generator.ends_generateStamped _ hready (hdefinition ▸ hc.1) hbs
  · exact reports_get.bind fun t ht => reports_pure (deliverable_of_writableIn hdoc.1 hdoc.2 ht)

/-! ## The output -/

theorem reports_look (hp : p.isUsable = true) :
    Reports answer f (fun e => e = answer p) (look p) := by
  intro t ht
  rw [outcome_look_of_usable hp]
  exact ⟨.ok rfl, ht⟩

/-- The way to a file is free. -/
theorem reports_enter (made : Bool) {here : Path} {parts : List String}
    (hhere : here.isUsable = true) (hparts : ∀ s ∈ parts, Path.isUsableName s = true)
    (hway : ∀ pre, pre <+: parts → ∀ text, answer (pre.foldl Path.step here) ≠ .file text) :
    Reports answer f (fun _ => True) (enter made here parts) := by
  induction parts generalizing made here with
  | nil => exact reports_pure trivial
  | cons part parts ih =>
    have hnext : (here.step part).isUsable = true :=
      Path.isUsable_step hhere (hparts part List.mem_cons_self)
    have hrest : ∀ made, Reports answer f (fun _ => True) (enter made (here.step part) parts) :=
      fun made => ih made hnext (fun s hs => hparts s (List.mem_cons_of_mem _ hs))
        fun pre hpre => hway (part :: pre) (List.cons_prefix_cons.mpr ⟨rfl, hpre⟩)
    refine (reports_look hnext).bind ?_
    rintro _ rfl
    split
    · exact hrest _
    · exact hrest _
    · exact hrest _
    · next text htext => exact absurd htext (hway [part] (by simp) text)

theorem reports_writeOutput {d : Value} (hroom : hasRoom answer p = true) (hd : Deliverable p d) :
    Reports answer f (fun _ => True) (writeOutput d p) := by
  simp only [hasRoom, Bool.and_eq_true, Bool.not_eq_true', decide_eq_true_eq, List.all_eq_true,
    List.mem_inits] at hroom
  obtain ⟨⟨⟨husable, hname⟩, hplace⟩, hway⟩ := hroom
  have hparts : ∀ s ∈ p.parts, Path.isUsableName s = true := List.all_eq_true.mp husable
  have hresolved : p.resolved.isUsable = true := Path.isUsable_resolved husable
  have hput : ∀ text, Reports answer f (fun _ => True) (put p text) := by
    intro text
    refine (reports_look hresolved).bind ?_
    rintro _ rfl
    rw [if_neg (by simp [hname, hplace])]
    exact fun t ht => ⟨.ok trivial, ht⟩
  refine (reports_enter false rfl (fun s hs => hparts s (List.dropLast_subset _ hs))
    fun pre hpre text htext => ?_).bind fun _ _ => ?_
  · have hfree := hway pre hpre
    rw [htext] at hfree
    cases hfree
  obtain ⟨text, htext⟩ := hd.text
  rw [htext]
  dsimp only
  rw [if_pos]
  · exact hput text
  · rw [Bool.or_eq_true, decide_eq_true_eq]
    exact hd.wellFormed

theorem reports_count {d : Value} {key : String} (h : Generator.IsSizedAt key d) :
    Reports answer f (fun _ => True) (count d key) := by
  obtain ⟨l, es, rfl, v, hv, hsize⟩ := h
  obtain ⟨n, hn⟩ := Option.isSome_iff_exists.mp hsize
  unfold count
  simp only
  rw [show Assoc.get? (.str key) es = some v from hv, Option.bind_some, hn]
  exact reports_pure trivial

theorem reports_run {cwd : Path} {r : Usage.Request} (h : Sound answer cwd r) :
    Reports answer (Format.ofPath r.output) (fun _ => True) (run cwd r) := by
  rw [run_eq_draft_deliver]
  refine (reports_draft h).bind fun p hp => ?_
  refine (reports_writeOutput h.room hp).bind fun _ _ => ?_
  refine (reports_count (hp.sized "paths" (by simp))).bind fun _ _ => ?_
  exact (reports_count (hp.sized "definitions" (by simp))).bind fun _ _ => reports_print _

end Build

/-- **Bad input is reported.** A run whose arguments are right and whose files are sound comes to
an end, or fails with an error that is reported. Files that hold a value which contains itself are
not sound. -/
theorem reported_of_failed (w : Workspace) {args rest : List String} {verbose : Bool}
    {r : Usage.Request} (hcommand : Usage.command args = .ok (verbose, rest))
    (hrequest : (Usage.request rest).result w.look = .ok r) (hsound : Build.Sound w.look w.cwd r)
    {e : CommandError} (h : (w.run args).error = some e) : e.isReported = true := by
  have hsteps := Workspace.outcome_steps_of_error h
  rw [Workspace.outcome_steps, hcommand] at hsteps
  simp only [hrequest] at hsteps
  split at hsteps
  · cases hsteps
  have hend := (Build.reports_run hsound { verbose := verbose } fun _ => rfl).1
  rw [hsteps, ends_error] at hend
  exact hend

/-- Without a configuration file, the configuration is made of the definition and of the files. -/
theorem Build.eq_of_configures {answer : Path → Entry} {cwd p : Path} {r : Usage.Request}
    {c : Config} (hconfig : r.config = none) (hdefinition : r.definition = some p) {s : String}
    (hs : text? answer p = some s) (h : Configures answer cwd r c) :
    ∃ v, readDefinition p s = .ok v ∧ c = { definition := v, files := r.files.map Path.text } := by
  obtain ⟨t, t', h⟩ := h
  unfold configure at h
  rw [hconfig, hdefinition] at h
  dsimp only at h
  split at h
  · cases h
  · obtain ⟨v, t₁, hload, hreturn⟩ := Run.ok_of_bind h
    obtain ⟨s', t₂, hread, hv⟩ := Run.ok_of_bind hload
    rw [outcome_readText_of_text? hs] at hread
    cases hread
    cases hreturn
    exact ⟨v, Run.ok_of_ofExcept hv, rfl⟩

/-- A base definition and comments with an annotation that has no title. -/
def kennel (definition : String) : Workspace :=
  ⟨["work"], [(["work", "api.yaml"], some definition),
    (["work", "dogs.yaml"], some "- tags:\n  - name: Rex\n")]⟩

def kennelArguments : List String := ["build", "dogs.yaml", "-d", "api.yaml", "-o", "dogs.json"]

def kennelRequest : Usage.Request :=
  { files := [⟨0, ["dogs.yaml"]⟩], output := ⟨0, ["dogs.json"]⟩,
    definition := some ⟨0, ["api.yaml"]⟩ }

/-- The paths and the definitions are one object. -/
def sharedDefinition : String :=
  "paths: &shared\n  /dogs:\n    parameters: []\ndefinitions: *shared\n"

/-- The object that the paths and the definitions are, as it is read. -/
def sharedSection : Value :=
  .map (some [5]) [(.str "/dogs", .map (some [4]) [(.str "parameters", .list (some [3]) [])])]

def sharedEntries : Entries := [(.str "paths", sharedSection), (.str "definitions", sharedSection)]

theorem ready_sharedEntries : (Skeleton.entries sharedEntries).Ready .json := by
  refine ⟨⟨⟨_, _, rfl⟩, ?_, ⟨_, _, rfl⟩, nofun, Or.inl ⟨_, _, rfl⟩, nofun⟩, ?_⟩
  · intro e he
    obtain rfl := List.mem_singleton.mp he
    exact ⟨_, _, rfl⟩
  · rw [Entries.WritableIn]
    decide +kernel

theorem sound_kennel :
    Build.Sound (kennel sharedDefinition).look (kennel sharedDefinition).cwd kennelRequest := by
  have hconfigures : ∀ c, Build.Configures (kennel sharedDefinition).look
      (kennel sharedDefinition).cwd kennelRequest c → c.definition = .map none sharedEntries ∧
        c.resolvedFiles = [⟨0, ["dogs.yaml"]⟩] := by
    intro c hc
    have htext : Build.text? (kennel sharedDefinition).look ⟨0, ["api.yaml"]⟩ =
        some sharedDefinition := by
      decide +kernel
    obtain ⟨v, hv, rfl⟩ := Build.eq_of_configures rfl rfl htext hc
    have hread : Yaml.read sharedDefinition = .ok (.map none sharedEntries) := by
      decide +kernel
    rw [readDefinition, hread] at hv
    cases hv
    exact ⟨rfl, by decide +kernel⟩
  refine ⟨by simp [kennelRequest], ?_, ?_, ?_, ?_⟩
  · intro p hp
    cases hp
    decide +kernel
  · intro c hc p hp
    rw [(hconfigures c hc).2] at hp
    cases List.mem_singleton.mp hp
    decide +kernel
  · intro c hc
    exact ⟨none, _, (hconfigures c hc).1, ready_sharedEntries⟩
  · decide +kernel

/-- A run over an annotation that has no title fails, with a report. -/
theorem reported_of_failed_kennel :
    ((kennel sharedDefinition).run kennelArguments).error.isSome = true ∧
      ∀ e, ((kennel sharedDefinition).run kennelArguments).error = some e →
        e.isReported = true := by
  have hcommand : Usage.command kennelArguments =
      .ok (false, ["dogs.yaml", "-d", "api.yaml", "-o", "dogs.json"]) := by decide +kernel
  have hrequest : (Usage.request ["dogs.yaml", "-d", "api.yaml", "-o", "dogs.json"]).result
      (kennel sharedDefinition).look = .ok kennelRequest := by decide +kernel
  refine ⟨by decide +kernel, fun e he => ?_⟩
  exact reported_of_failed (kennel sharedDefinition) hcommand hrequest sound_kennel he

/-- A base definition that is no YAML stops the run, without a report. -/
theorem escapes_of_malformed :
    ((kennel "info: [\n").run kennelArguments).error.map CommandError.isReported = some false := by
  decide +kernel

end AnnotatedApi
