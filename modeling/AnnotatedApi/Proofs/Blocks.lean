/-
  Comment blocks added to a document. If all blocks can be put together, to add them is to merge
  their contributions (`Generator.addAll_of_assembles`); the first block that cannot stops the
  run with its error, and the document is that of the blocks before it
  (`Generator.addAll_of_fails`). What blocks contribute has the shape that merging asks for: each
  group has a name and a description, and no operation and no definition comes twice.
-/
import AnnotatedApi.Document.Generator
import AnnotatedApi.Proofs.Merge
import AnnotatedApi.Proofs.Routes

namespace AnnotatedApi

namespace Contribution

variable {opts : RouteOptions} {block : CommentBlock} {c : Contribution}

theorem described_ofBlock (h : (ofBlock opts block).result = .ok (some c)) :
    ∀ t ∈ c.tags, Groups.Described t := by
  rcases of_ofBlock h with ⟨m, -, rfl⟩ | ⟨routes, -, rfl⟩
  · simp [ofModel]
  · intro t ht
    obtain ⟨g, -, rfl⟩ := List.mem_map.mp ht
    exact ⟨rfl, rfl⟩

theorem nestedNodup_ofBlock (h : (ofBlock opts block).result = .ok (some c)) :
    Assoc.NestedNodup c.paths := by
  rcases of_ofBlock h with ⟨m, -, rfl⟩ | ⟨routes, hr, rfl⟩
  · exact ⟨List.nodup_nil, by simp [ofModel]⟩
  · obtain ⟨p, rfl, hp⟩ := Routes.Reads.ofBlock hr
    exact nestedNodup_ofRoutes hp.nodup

theorem nodup_definitions_ofBlock (h : (ofBlock opts block).result = .ok (some c)) :
    (Assoc.keys c.definitions).Nodup := by
  rcases of_ofBlock h with ⟨m, -, rfl⟩ | ⟨routes, -, rfl⟩
  · simp [ofModel, Assoc.keys]
  · exact List.nodup_nil

end Contribution

namespace Generator

variable {opts : GenerateOptions}

/-- A block can be put together, into a contribution or into nothing. -/
def Assembles (opts : GenerateOptions) (block : CommentBlock) : Prop :=
  ∃ c, (Contribution.ofBlock opts.toRouteOptions block).result = .ok c

/-- The contribution of a block, if it has one. -/
def contribution? (opts : GenerateOptions) (block : CommentBlock) : Option Contribution :=
  match (Contribution.ofBlock opts.toRouteOptions block).result with
  | .ok c => c
  | .error _ => none

/-- The contributions of blocks, in order. -/
def contributions (opts : GenerateOptions) (blocks : List CommentBlock) : List Contribution :=
  blocks.filterMap (contribution? opts)

theorem result_of_contribution? {block : CommentBlock} {c : Contribution}
    (h : contribution? opts block = some c) :
    (Contribution.ofBlock opts.toRouteOptions block).result = .ok (some c) := by
  unfold contribution? at h
  split at h
  · next hr => rw [hr, h]
  · cases h

theorem result_of_mem {blocks : List CommentBlock} {c : Contribution}
    (h : c ∈ contributions opts blocks) :
    ∃ block ∈ blocks, (Contribution.ofBlock opts.toRouteOptions block).result = .ok (some c) := by
  obtain ⟨block, hb, hc⟩ := List.mem_filterMap.mp h
  exact ⟨block, hb, result_of_contribution? hc⟩

theorem described_contributions (opts : GenerateOptions) (blocks : List CommentBlock) :
    ∀ c ∈ contributions opts blocks, ∀ t ∈ c.tags, Groups.Described t := by
  intro c hc
  obtain ⟨block, -, hr⟩ := result_of_mem hc
  exact Contribution.described_ofBlock hr

theorem nestedNodup_contributions (opts : GenerateOptions) (blocks : List CommentBlock) :
    ∀ c ∈ contributions opts blocks, Assoc.NestedNodup c.paths := by
  intro c hc
  obtain ⟨block, -, hr⟩ := result_of_mem hc
  exact Contribution.nestedNodup_ofBlock hr

theorem nodup_definitions_contributions (opts : GenerateOptions) (blocks : List CommentBlock) :
    ∀ c ∈ contributions opts blocks, (Assoc.keys c.definitions).Nodup := by
  intro c hc
  obtain ⟨block, -, hr⟩ := result_of_mem hc
  exact Contribution.nodup_definitions_ofBlock hr

theorem add_of_error {block : CommentBlock} {e : AssemblyError}
    (h : (Contribution.ofBlock opts.toRouteOptions block).result = .error e) (v : Value) :
    (add opts v block).error = some (.assembly e) ∧ (add opts v block).state = v := by
  simp [add, addPrepared, h]

/-- To add a block is to merge what it contributes. -/
theorem add_of_assembles {block : CommentBlock} (h : Assembles opts block) (v : Value) :
    (add opts v block).error = (Edit.each (fun v c => merge opts.dedupe c v) v
      (contribution? opts block).toList).error.map .document ∧
    (add opts v block).state = (Edit.each (fun v c => merge opts.dedupe c v) v
      (contribution? opts block).toList).state := by
  obtain ⟨c, hc⟩ := h
  unfold add addPrepared contribution?
  cases c with
  | none => simp [hc]
  | some c =>
    simp only [hc, Option.toList_some, Edit.each_cons, Edit.each_nil, id]
    cases hm : (merge opts.dedupe c v).error with
    | none => simp [Edit.error_andThen hm, Edit.state_andThen hm]
    | some err => simp [Edit.andThen_of_error hm, hm]

theorem addAll_of_assembles {blocks : List CommentBlock} (h : ∀ b ∈ blocks, Assembles opts b)
    (v : Value) :
    (addAll opts v blocks).error = (Edit.each (fun v c => merge opts.dedupe c v) v
      (contributions opts blocks)).error.map .document ∧
    (addAll opts v blocks).state = (Edit.each (fun v c => merge opts.dedupe c v) v
      (contributions opts blocks)).state := by
  induction blocks generalizing v with
  | nil => exact ⟨rfl, rfl⟩
  | cons block blocks ih =>
    obtain ⟨herr, hstate⟩ := add_of_assembles (h block List.mem_cons_self) v
    have hsplit : contributions opts (block :: blocks) =
        (contribution? opts block).toList ++ contributions opts blocks := by
      unfold contributions
      rw [List.filterMap_cons]
      cases contribution? opts block <;> rfl
    rw [addAll, Edit.each_cons, hsplit, Edit.each_append]
    cases hm : (Edit.each (fun v c => merge opts.dedupe c v) v
        (contribution? opts block).toList).error with
    | none =>
      rw [hm] at herr
      rw [Edit.error_andThen herr, Edit.state_andThen herr, Edit.error_andThen hm,
        Edit.state_andThen hm, hstate]
      exact ih (fun b hb => h b (List.mem_cons_of_mem _ hb)) _
    | some err =>
      rw [hm] at herr
      rw [Edit.andThen_of_error herr, Edit.andThen_of_error hm]
      exact ⟨by rw [herr, hm], hstate⟩

/-- To add blocks to a mapping is to merge what they contribute into its entries. -/
theorem addAll_map {blocks : List CommentBlock} (h : ∀ b ∈ blocks, Assembles opts b)
    (l : Option Label) (d : Entries) :
    (addAll opts (.map l d) blocks).error =
      (Merge.all opts.dedupe (contributions opts blocks) d).error.map .document ∧
    (addAll opts (.map l d) blocks).state =
      .map l (Merge.all opts.dedupe (contributions opts blocks) d).state := by
  obtain ⟨herr, hstate⟩ := addAll_of_assembles h (.map l d)
  obtain ⟨herr', hstate'⟩ := Merge.each_merge opts.dedupe (contributions opts blocks) l d
  exact ⟨by rw [herr, herr'], hstate.trans hstate'⟩

/-- A run without an error has put every block together. -/
theorem assembles_of_addAll {blocks : List CommentBlock} {v : Value}
    (h : (addAll opts v blocks).error = none) : ∀ b ∈ blocks, Assembles opts b := by
  induction blocks generalizing v with
  | nil => simp
  | cons block blocks ih =>
    rw [addAll, Edit.each_cons, Edit.error_andThen_eq_none] at h
    intro b hb
    rcases List.mem_cons.mp hb with rfl | hb
    · cases hr : (Contribution.ofBlock opts.toRouteOptions b).result with
      | ok c => exact ⟨c, hr⟩
      | error e => simp [(add_of_error hr v).1] at h
    · exact ih h.2 b hb

/-- A block that cannot be put together stops the run and changes nothing. -/
theorem addAll_of_fails {pre post : List CommentBlock} {block : CommentBlock} {e : AssemblyError}
    {v : Value} (hpre : (addAll opts v pre).error = none)
    (h : (Contribution.ofBlock opts.toRouteOptions block).result = .error e) :
    (addAll opts v (pre ++ block :: post)).error = some (.assembly e) ∧
    (addAll opts v (pre ++ block :: post)).state = (addAll opts v pre).state := by
  obtain ⟨herr, hstate⟩ := add_of_error h (addAll opts v pre).state
  have hrest : Edit.each (add opts) (addAll opts v pre).state (block :: post) =
      add opts (addAll opts v pre).state block := by
    rw [Edit.each_cons, Edit.andThen_of_error herr]
  unfold addAll at hpre hrest herr hstate ⊢
  rw [Edit.each_append, Edit.error_andThen hpre, Edit.state_andThen hpre, hrest]
  exact ⟨herr, hstate⟩

/-- All blocks can be put together, or there is a first one that cannot. -/
theorem assembles_or_first_fails (opts : GenerateOptions) (blocks : List CommentBlock) :
    (∀ b ∈ blocks, Assembles opts b) ∨
      ∃ pre block post e, blocks = pre ++ block :: post ∧ (∀ b ∈ pre, Assembles opts b) ∧
        (Contribution.ofBlock opts.toRouteOptions block).result = .error e := by
  induction blocks with
  | nil => exact Or.inl (by simp)
  | cons block blocks ih =>
    cases hr : (Contribution.ofBlock opts.toRouteOptions block).result with
    | error e => exact Or.inr ⟨[], block, blocks, e, rfl, by simp, hr⟩
    | ok c =>
      have hb : Assembles opts block := ⟨c, hr⟩
      rcases ih with h | ⟨pre, b, post, e, rfl, hpre, he⟩
      · exact Or.inl (List.forall_mem_cons.mpr ⟨hb, h⟩)
      · exact Or.inr ⟨block :: pre, b, post, e, rfl, List.forall_mem_cons.mpr ⟨hb, hpre⟩, he⟩

end Generator

end AnnotatedApi
