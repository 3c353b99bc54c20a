/-
  Input that says nothing. A block that is neither a model nor a route contributes nothing, and
  an annotation whose title nobody reads does nothing: behind a `route` it makes the current
  operation be given its parameters and responses once more, but they are there already
  (`Routes.refresh_refresh`), so the progress of the block is the same before and after it
  (`Routes.step_of_inert`). `Drop` is one such block or annotation left out; a run gives the same
  before and after (`Generator.generate_of_drop`), and so after any number of such changes, both
  ways (`generate_of_inert`).
-/
import AnnotatedApi.Document.Generator
import AnnotatedApi.Proofs.Kinds
import AnnotatedApi.Proofs.Routes
import Mathlib.Logic.Relation

namespace AnnotatedApi

namespace Tag

/-- The titles that bear on what a block contributes. -/
def titles : List String :=
  ["route", "param", "group", "returns", "return", "headers", "header", "operationId", "summary",
   "produces", "consumes", "security", "swaggermodel", "property"]

/-- Whether nobody reads the title of an annotation. -/
def isInert (t : Tag) : Bool := !titles.contains t.title

variable {t : Tag}

theorem title_ne_of_isInert (h : t.isInert = true) (title : String) (hmem : title ∈ titles) :
    t.title ≠ title := by
  rintro rfl
  simp [isInert, hmem] at h

theorem isRoute_of_isInert (h : t.isInert = true) : t.isRoute = false := by
  simp [isRoute, title_ne_of_isInert h "route" (by decide)]

/-- An inert annotation is of no kind. -/
theorem isOf_of_isInert (h : t.isInert = true) (k : Kind) : t.isOf k = false := by
  cases k with
  | param => simp [isOf, isParam, title_ne_of_isInert h "param" (by decide)]
  | group => simp [isOf, title_ne_of_isInert h "group" (by decide)]
  | response =>
    simp [isOf, Response.isResponseTag, title_ne_of_isInert h "returns" (by decide),
      title_ne_of_isInert h "return" (by decide)]
  | header =>
    simp [isOf, Header.isHeaderTag, title_ne_of_isInert h "headers" (by decide),
      title_ne_of_isInert h "header" (by decide)]
  | detail d =>
    have hmem : d.name ∈ titles := by cases d <;> decide
    simp [isOf, title_ne_of_isInert h d.name hmem]

end Tag

/-- What is left out and does not pass a test does not show behind the test. -/
theorem filter_drop {α : Type} {p : α → Bool} {a : α} (h : p a = false) (xs ys : List α) :
    (xs ++ a :: ys).filter p = (xs ++ ys).filter p := by
  rw [List.filter_append, List.filter_append, List.filter_cons_of_neg (by simp [h])]

/-! ## Annotations that nobody reads -/

namespace PathMap

theorem set_eq_self {r : Route} {o : Operation} {paths : PathMap} (h : paths.get? r = some o) :
    paths.set r o = paths := by
  obtain ⟨item, hitem, ho⟩ := Option.bind_eq_some_iff.mp h
  unfold set
  rw [hitem, Option.getD_some, Assoc.set_eq_self ho, Assoc.set_eq_self hitem]

/-- What is done twice to an operation and comes to the same is done once. -/
theorem modify_modify {f : Operation → Operation} (hf : ∀ o, f (f o) = f o) (r : Route)
    (paths : PathMap) : (paths.modify r f).modify r f = paths.modify r f := by
  cases h : paths.get? r with
  | none =>
    have hnone : paths.modify r f = paths := by simp [modify, h]
    rw [hnone, hnone]
  | some o =>
    have hset : paths.modify r f = paths.set r (f o) := by simp [modify, h]
    have hget : (paths.set r (f o)).get? r = some (f o) := by simp [get?_set]
    rw [hset, modify, hget]
    simp only [hf]
    exact set_eq_self hget

end PathMap

namespace Routes

variable {opts : RouteOptions} {block block' : CommentBlock} {p q : Progress} {t : Tag}

/-- The current operation has its parameters and responses. -/
def Settled (opts : RouteOptions) (block : CommentBlock) (p : Progress) : Prop :=
  (refresh opts block p).result = .ok p

theorem refresh_refresh (h : (refresh opts block p).result = .ok q) : Settled opts block q := by
  cases hc : p.current with
  | none =>
    rw [refresh_eq_ok_of_none hc] at h
    subst h
    exact (refresh_eq_ok_of_none hc).mpr rfl
  | some r =>
    obtain ⟨rs, hrs, hq⟩ := (refresh_eq_ok_of_some hc).mp h
    have hcq : q.current = some r := by rw [hq]; exact hc
    refine (refresh_eq_ok_of_some hcq).mpr ⟨rs, hrs, ?_⟩
    subst hq
    simp only
    rw [PathMap.modify_modify]
    exact fun _ => rfl

theorem settled_start : Settled opts block {} := rfl

theorem Settled.step (h : (step opts block p t).result = .ok q) : Settled opts block q := by
  obtain ⟨p', -, hq⟩ := Report.result_bind_eq_ok.mp h
  exact refresh_refresh hq

/-- A run keeps the current operation settled. -/
theorem Settled.foldlM {ts : List Tag} (h : Settled opts block p)
    (hrun : (ts.foldlM (Routes.step opts block) p).result = .ok q) : Settled opts block q :=
  Report.foldlM_invariant (fun _ p => Settled opts block p) (fun _ _ _ _ _ hq => Settled.step hq)
    h hrun

theorem step_of_inert (ht : t.isInert = true) (h : Settled opts block p) :
    (step opts block p t).result = .ok p := by
  have hread : (read opts block p t).result = .ok p := by
    refine result_read_other (Tag.isRoute_of_isInert ht) (Tag.isOf_of_isInert ht .param)
      (Or.inr fun d hd => ?_)
    have hdetail := Tag.isOf_of_isInert ht (.detail d)
    simp [Tag.isOf, hd] at hdetail
  exact Report.result_bind_eq_ok.mpr ⟨p, hread, h⟩

/-- A step asks of a block only its description, its groups and its responses. -/
theorem step_congr (hd : block.description = block'.description)
    (hg : Group.ofTags block.tags = Group.ofTags block'.tags)
    (hr : Response.ofTags opts.format opts.headerPolicy block.tags =
      Response.ofTags opts.format opts.headerPolicy block'.tags) :
    step opts block = step opts block' := by
  funext p t
  unfold step read refresh register
  rw [hd, hg, hr]

theorem ofBlock_drop (opts : RouteOptions) (text : String) (ts us : List Tag)
    (ht : t.isInert = true) :
    (ofBlock opts ⟨text, ts ++ t :: us⟩).result = (ofBlock opts ⟨text, ts ++ us⟩).result := by
  have hstep : step opts ⟨text, ts ++ t :: us⟩ = step opts ⟨text, ts ++ us⟩ := by
    have hkind := fun k => filter_drop (Tag.isOf_of_isInert ht k) ts us
    exact step_congr rfl (Group.ofTags_congr (hkind .group))
      (Response.ofTags_congr _ _ (hkind .header) (hkind .response))
  have hrun : ((ts ++ t :: us).foldlM (step opts ⟨text, ts ++ us⟩) {}).result =
      ((ts ++ us).foldlM (step opts ⟨text, ts ++ us⟩) {}).result := by
    rw [Report.result_foldlM, Report.result_foldlM, List.foldlM_append, List.foldlM_append,
      ← Report.result_foldlM]
    cases hts : (ts.foldlM (step opts ⟨text, ts ++ us⟩) {}).result with
    | error e => rfl
    | ok p =>
      have hskip := step_of_inert ht (settled_start.foldlM hts)
      show (t :: us).foldlM (fun p t => (step opts ⟨text, ts ++ us⟩ p t).result) p =
        us.foldlM (fun p t => (step opts ⟨text, ts ++ us⟩ p t).result) p
      rw [List.foldlM_cons, hskip]
      rfl
  unfold ofBlock
  rw [Report.result_bind, Report.result_bind, hstep, hrun]

end Routes

namespace Contribution

variable {opts : RouteOptions} {b : CommentBlock} {t : Tag}

theorem hasTitle_drop (text title : String) (ts us : List Tag) (h : t.title ≠ title) :
    CommentBlock.hasTitle title ⟨text, ts ++ t :: us⟩ =
      CommentBlock.hasTitle title ⟨text, ts ++ us⟩ := by
  simp [CommentBlock.hasTitle, h]

/-- The first annotation of a block decides whether it is a model, so it has to stay. -/
theorem ofBlock_drop (opts : RouteOptions) (text : String) (first : Tag) (ts us : List Tag)
    (ht : t.isInert = true) :
    (ofBlock opts ⟨text, first :: ts ++ t :: us⟩).result =
      (ofBlock opts ⟨text, first :: ts ++ us⟩).result := by
  have hmodel : CommentBlock.isModel ⟨text, first :: ts ++ t :: us⟩ =
      CommentBlock.isModel ⟨text, first :: ts ++ us⟩ := by
    have hne := Tag.title_ne_of_isInert ht "swaggermodel" (by decide)
    unfold CommentBlock.isModel
    rw [hasTitle_drop text "swaggermodel" (first :: ts) us hne]
    rfl
  have hroute : CommentBlock.isRoute ⟨text, first :: ts ++ t :: us⟩ =
      CommentBlock.isRoute ⟨text, first :: ts ++ us⟩ :=
    hasTitle_drop text "route" (first :: ts) us
      (Tag.title_ne_of_isInert ht "route" (by decide))
  have hproperties : Model.ofTags opts.format (first :: ts ++ t :: us) =
      Model.ofTags opts.format (first :: ts ++ us) := by
    have hne := Tag.title_ne_of_isInert ht "property" (by decide)
    rw [List.cons_append, List.cons_append, Model.ofTags, Model.ofTags,
      filter_drop (by simp [hne])]
  unfold ofBlock
  rw [hmodel, hroute]
  simp only [hproperties]
  split
  · rfl
  split
  · rw [Report.result_bind, Report.result_bind, Routes.ofBlock_drop opts text (first :: ts) us ht]
  · rfl

/-- A block that is neither a model nor a route contributes nothing. -/
theorem ofBlock_of_inert (hm : b.isModel = false) (hr : b.isRoute = false) :
    (ofBlock opts b).result = .ok none := by
  unfold ofBlock
  rw [hm, hr]
  rfl

end Contribution

/-! ## Runs over blocks -/

/-- A block that contributes nothing left out, or an annotation behind the first of its block that
nobody reads. -/
inductive Drop : List CommentBlock → List CommentBlock → Prop
  | block (pre post : List CommentBlock) {b : CommentBlock} (hm : b.isModel = false)
      (hr : b.isRoute = false) : Drop (pre ++ b :: post) (pre ++ post)
  | tag (pre post : List CommentBlock) (text : String) (first : Tag) (ts us : List Tag) {t : Tag}
      (h : t.isInert = true) :
      Drop (pre ++ ⟨text, first :: ts ++ t :: us⟩ :: post)
        (pre ++ ⟨text, first :: ts ++ us⟩ :: post)

namespace Generator

variable {opts : GenerateOptions} {b b' : CommentBlock}

/-- What a document is after a block, or the error that stopped it. -/
def added (opts : GenerateOptions) (v : Value) (b : CommentBlock) : Except GenerateError Value :=
  (add opts v b).toReport.result

theorem added_of_inert (hm : b.isModel = false) (hr : b.isRoute = false) (v : Value) :
    added opts v b = .ok v := by
  unfold added add addPrepared
  simp only [Contribution.ofBlock_of_inert hm hr]
  rfl

theorem added_congr (h : (Contribution.ofBlock opts.toRouteOptions b).result =
    (Contribution.ofBlock opts.toRouteOptions b').result) (v : Value) :
    added opts v b = added opts v b' := by
  unfold added add addPrepared
  simp only [h]
  cases (Contribution.ofBlock opts.toRouteOptions b').result with
  | error e => rfl
  | ok c => cases c <;> rfl

/-- Blocks without annotations would contribute nothing anyway. -/
theorem foldlM_annotated (v : Value) (blocks : List CommentBlock) :
    (annotated blocks).foldlM (added opts) v = blocks.foldlM (added opts) v := by
  induction blocks generalizing v with
  | nil => rfl
  | cons b blocks ih =>
    obtain ⟨text, tags⟩ := b
    cases tags with
    | nil =>
      rw [List.foldlM_cons, added_of_inert rfl rfl]
      exact ih v
    | cons t ts =>
      show (_ :: annotated blocks).foldlM (added opts) v = _
      rw [List.foldlM_cons, List.foldlM_cons]
      exact congrArg _ (funext ih)

/-- What a run gives, block by block. -/
theorem result_generate (opts : GenerateOptions) (definition : Value)
    (blocks : List CommentBlock) :
    (generate opts definition blocks).result =
      (ofMerge (skeleton definition)).result.bind fun base =>
        (blocks.foldlM (added opts) base).bind fun d => (ofMerge (finalize d)).result := by
  unfold generate produce
  rw [Report.result_bind]
  congr 1
  funext base
  rw [Report.result_bind, Edit.result_each, ← foldlM_annotated]
  rfl

theorem foldlM_of_drop {blocks blocks' : List CommentBlock} (h : Drop blocks blocks') (v : Value) :
    blocks.foldlM (added opts) v = blocks'.foldlM (added opts) v := by
  cases h with
  | block pre post hm hr =>
    rw [List.foldlM_append, List.foldlM_append]
    congr 1
    funext v
    rw [List.foldlM_cons, added_of_inert hm hr]
    rfl
  | tag pre post text first ts us ht =>
    rw [List.foldlM_append, List.foldlM_append]
    congr 1
    funext v
    rw [List.foldlM_cons, List.foldlM_cons,
      added_congr (Contribution.ofBlock_drop opts.toRouteOptions text first ts us ht)]

theorem generate_of_drop {blocks blocks' : List CommentBlock} (h : Drop blocks blocks')
    (definition : Value) :
    (generate opts definition blocks).result = (generate opts definition blocks').result := by
  rw [result_generate, result_generate]
  simp only [foldlM_of_drop h]

end Generator

/-- **What says nothing changes nothing.** Blocks that are neither models nor routes, with or
without annotations, and annotations that nobody reads, other than the first of their block, can be
left out and put in anywhere and any number of times: a run gives the same document, or fails with
the same error. -/
theorem generate_of_inert (opts : GenerateOptions) (definition : Value)
    {blocks blocks' : List CommentBlock} (h : Relation.EqvGen Drop blocks blocks') :
    (Generator.generate opts definition blocks).result =
      (Generator.generate opts definition blocks').result := by
  induction h with
  | rel _ _ h => exact Generator.generate_of_drop h definition
  | refl _ => rfl
  | symm _ _ _ ih => exact ih.symm
  | trans _ _ _ _ _ ih ih' => exact ih.trans ih'

/-- `petBlock` with an annotation that nobody reads in its first stretch. -/
def markedPetBlock : CommentBlock :=
  { petBlock with
    tags := petBlock.tags.take 3 ++ { title := "deprecated" } :: petBlock.tags.drop 3 }

/-- A block of the program's own, without a route. -/
def remarkBlock : CommentBlock :=
  { tags := [{ title := "private" }, { title := "param", name := "id" }] }

theorem generate_of_inert_markedPetBlock :
    Relation.EqvGen Drop [{}, markedPetBlock] [petBlock, remarkBlock] ∧
      (Generator.generate {} (.map none []) [{}, markedPetBlock]).result =
        (Generator.generate {} (.map none []) [petBlock, remarkBlock]).result := by
  have hempty : Drop [{}, markedPetBlock] [markedPetBlock] := Drop.block [] _ rfl rfl
  have hmark : Drop [markedPetBlock] [petBlock] := Drop.tag [] [] "Pets." _ _ _ (by decide)
  have hremark : Drop [petBlock, remarkBlock] [petBlock] := Drop.block [petBlock] [] rfl rfl
  have hall : Relation.EqvGen Drop [{}, markedPetBlock] [petBlock, remarkBlock] :=
    (Relation.EqvGen.rel _ _ hempty).trans _ _ _
      ((Relation.EqvGen.rel _ _ hmark).trans _ _ _ ((Relation.EqvGen.rel _ _ hremark).symm _ _))
  exact ⟨hall, generate_of_inert {} (.map none []) hall⟩

end AnnotatedApi
