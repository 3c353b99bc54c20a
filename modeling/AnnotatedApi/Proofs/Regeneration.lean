/-
  Documents made again. A document that was generated without duplicates among its described
  groups and is then taken as the base definition for the same comment blocks comes out as it
  went in (`generate_idempotent`): it is its own skeleton (`Skeleton.Skeletal.withSections`), its
  sections take the contributions again without a change (`Sections.take_sorted`), and its groups
  are in order. A run over such a document ends where it began (`Generator.generate_eq_self`).
-/
import AnnotatedApi.Proofs.Blocks
import AnnotatedApi.Proofs.Skeleton
import AnnotatedApi.Proofs.TagOrder

namespace AnnotatedApi

/-! ## Sections that have taken the contributions -/

namespace Merge

theorem putPaths_putPaths (paths : List (String × List (String × Value))) (v : Value) :
    putPaths paths (putPaths paths v) = putPaths paths v := by
  cases v with
  | map l ps => rw [putPaths, putPaths, Paths.putAll_putAll]
  | _ => rfl

theorem mem_putName {v : Value} {vs : List Value} {e : String × Value} :
    v ∈ putName vs e ↔ v ∈ vs ∨ v = .str e.1 := by
  unfold putName
  split
  · next hc =>
    rw [List.contains_iff_mem] at hc
    constructor
    · exact Or.inl
    · rintro (hv | rfl)
      · exact hv
      · exact hc
  · simp

theorem mem_foldl_putName {definitions : List (String × Value)} {vs : List Value} {v : Value}
    (h : v ∈ vs ∨ ∃ e ∈ definitions, v = .str e.1) : v ∈ definitions.foldl putName vs := by
  induction definitions generalizing vs with
  | nil => simpa using h
  | cons e definitions ih =>
    apply ih
    rw [mem_putName]
    rcases h with h | ⟨e', he', rfl⟩
    · exact Or.inl (Or.inl h)
    · rcases List.mem_cons.mp he' with rfl | he'
      · exact Or.inl (Or.inr rfl)
      · exact Or.inr ⟨e', he', rfl⟩

theorem foldl_putName_eq_self {definitions : List (String × Value)} {vs : List Value}
    (h : ∀ e ∈ definitions, Value.str e.1 ∈ vs) : definitions.foldl putName vs = vs := by
  induction definitions with
  | nil => rfl
  | cons e definitions ih =>
    have hstep : putName vs e = vs := if_pos (by simpa using h e List.mem_cons_self)
    rw [List.foldl_cons, hstep]
    exact ih fun e he => h e (List.mem_cons_of_mem _ he)

theorem putDefinitions_putDefinitions (definitions : List (String × Value)) (v : Value) :
    putDefinitions definitions (putDefinitions definitions v) = putDefinitions definitions v := by
  cases v with
  | map l es => rw [putDefinitions, putDefinitions, Store.run_run]
  | set l vs =>
    rw [putDefinitions, putDefinitions, foldl_putName_eq_self]
    intro e he
    exact mem_foldl_putName (Or.inr ⟨e, he, rfl⟩)
  | _ => rfl

/-- Groups that were taken in without duplicates and then sorted are taken in again without a
change: the first entry of each name is still the first. -/
theorem putTags_sorted {tags : List (List (String × String))}
    (hd : ∀ t ∈ tags, Groups.Described t) {v : Value}
    (hv : tags = [] ∨ ∃ ts, v = .list none ts) {ts us : List Value}
    (hts : Finish.items? (putTags true tags v) = some ts) (hus : Finish.sorted ts = .ok us) :
    putTags true tags (.list none us) = .list none us := by
  rcases hv with rfl | ⟨base, rfl⟩
  · exact putTags_nil true _
  · have hfold : tags.foldl Groups.takeIn base = ts := by
      simpa [putTags, Finish.items?, Groups.add_true] using hts
    rw [putTags, Groups.add_true, Groups.foldl_takeIn_eq_self]
    intro t ht
    obtain ⟨w, hw, hb⟩ := Groups.heard_foldl hd ht base
    refine ⟨w, ?_, hb⟩
    rw [Finish.find?_isNamed_sorted hus, ← hfold]
    exact hw

end Merge

/-! ## Runs that give a document -/

/-- A document could be finished if what its groups go through could be sorted. -/
theorem Finish.entries_eq_ok {d e : Entries} : Finish.entries d = .ok e ↔
    ∃ ts us, items? (Sections.of d).tags = some ts ∧ sorted ts = .ok us ∧
      e = d.put "tags" (.list none us) := by
  unfold Finish.entries
  have htags : (d.get? "tags").getD (.list none []) = (Sections.of d).tags := rfl
  rw [htags]
  constructor
  · intro h
    cases hts : items? (Sections.of d).tags with
    | none =>
      rw [hts] at h
      cases h
    | some ts =>
      cases hus : sorted ts with
      | error err =>
        rw [hts] at h
        simp only [hus] at h
        cases h
      | ok us =>
        rw [hts] at h
        simp only [hus] at h
        cases h
        exact ⟨ts, us, rfl, hus, rfl⟩
  · rintro ⟨ts, us, hts, hus, rfl⟩
    rw [hts]
    simp only [hus]
    rfl

namespace Generator

variable {opts : GenerateOptions} {definition doc : Value} {blocks : List CommentBlock}

theorem result_ofMerge_eq_ok {α : Type} {x : Except MergeError α} {a : α} :
    (ofMerge x).result = .ok a ↔ x = .ok a := by
  cases x with
  | ok b => simp [ofMerge]
  | error e => simp [ofMerge, Report.fail]

theorem result_toReport_eq_ok {ε α : Type} {e : Edit ε α} {a : α} :
    e.toReport.result = .ok a ↔ e.error = none ∧ e.state = a := by
  unfold Edit.toReport
  cases h : e.error with
  | none => simp
  | some err => simp

theorem finalize_eq_ok {l : Option Label} {d : Entries} :
    finalize (.map l d) = .ok doc ↔ ∃ e, Finish.entries d = .ok e ∧ doc = .map l e := by
  rw [finalize]
  cases h : Finish.entries d with
  | error err =>
    constructor
    · intro hD
      cases hD
    · rintro ⟨e, he, -⟩
      cases he
  | ok e =>
    constructor
    · intro hD
      cases hD
      exact ⟨e, rfl, rfl⟩
    · rintro ⟨e', he, rfl⟩
      cases he
      rfl

/-- A run gives a document if the base is a mapping, all blocks can be put together, their
contributions can be merged into the skeleton, and the groups can be sorted. -/
theorem generate_eq_ok : (generate opts definition blocks).result = .ok doc ↔
    ∃ l d e, definition = .map l d ∧ (∀ b ∈ annotated blocks, Assembles opts b) ∧
      (Merge.all opts.dedupe (contributions opts (annotated blocks))
        (Skeleton.entries d)).error = none ∧
      Finish.entries (Merge.all opts.dedupe (contributions opts (annotated blocks))
        (Skeleton.entries d)).state = .ok e ∧
      doc = .map l e := by
  unfold generate produce
  rw [Report.result_bind_eq_ok]
  simp only [Report.result_bind_eq_ok, result_ofMerge_eq_ok, result_toReport_eq_ok]
  constructor
  · rintro ⟨base, hbase, v, ⟨herr, rfl⟩, hD⟩
    cases definition with
    | map l d =>
      cases hbase
      have hall := assembles_of_addAll herr
      obtain ⟨herr', hstate'⟩ := addAll_map hall l (Skeleton.entries d)
      unfold addAll at herr' hstate'
      rw [hstate'] at hD
      rw [herr', Option.map_eq_none_iff] at herr
      obtain ⟨e, he, rfl⟩ := finalize_eq_ok.mp hD
      exact ⟨l, d, e, rfl, hall, herr, he, rfl⟩
    | _ => cases hbase
  · rintro ⟨l, d, e, rfl, hall, herr, he, rfl⟩
    obtain ⟨herr', hstate'⟩ := addAll_map hall l (Skeleton.entries d)
    rw [herr] at herr'
    exact ⟨_, rfl, _, ⟨herr', hstate'⟩, finalize_eq_ok.mpr ⟨e, he, rfl⟩⟩

end Generator

/-! ## Documents made again -/

namespace Merge

theorem filled_map (es : Entries) :
    (Value.map none es).truthy = true ∨ Value.map none es = .map none [] := by
  cases es with
  | nil => exact Or.inr rfl
  | cons e es => exact Or.inl rfl

theorem filled_putPaths {v : Value} (hs : v.isShared = false)
    (h : v.truthy = true ∨ v = .map none []) (paths : List (String × List (String × Value))) :
    (putPaths paths v).truthy = true ∨ putPaths paths v = .map none [] := by
  cases v with
  | map l ps =>
    obtain rfl := Value.label_map hs
    exact filled_map _
  | _ => exact h

theorem filled_putDefinitions {v : Value} (hs : v.isShared = false)
    (h : v.truthy = true ∨ v = .map none []) (definitions : List (String × Value)) :
    (putDefinitions definitions v).truthy = true ∨
      putDefinitions definitions v = .map none [] := by
  cases v with
  | map l es =>
    obtain rfl := Value.label_map hs
    exact filled_map _
  | set l vs =>
    -- A set that was not empty holds what it held.
    left
    have hvs : vs ≠ [] := by simpa [Value.truthy] using h
    obtain ⟨v, vs', rfl⟩ := List.exists_cons_of_ne_nil hvs
    have hmem : v ∈ definitions.foldl putName (v :: vs') := mem_foldl_putName (Or.inl (by simp))
    simpa [putDefinitions, Value.truthy] using List.ne_nil_of_mem hmem
  | _ => exact h

end Merge

/-- The skeleton stays one when its sections have taken contributions. -/
theorem Skeleton.Skeletal.withSections {d : Entries} (h : Skeletal d)
    (hu : (Sections.of d).Unshared) (dedupe : Bool) (c : Contribution) (us : List Value) :
    Skeletal (d.withSections { (Sections.of d).take dedupe c with tags := .list none us }) := by
  refine ⟨?_, ?_, ?_⟩
  · exact (Entries.get?_withSections (by decide) d _).trans h.swagger
  · intro key hk
    obtain ⟨v, hv, ht⟩ := h.sections key hk
    by_cases hp : key = "paths"
    · subst hp
      have hof : (Sections.of d).paths = v := Entries.getD_of_some hv _
      refine ⟨_, Entries.get?_withSections_paths d _, ?_⟩
      exact Merge.filled_putPaths hu.paths (hof.symm ▸ ht) c.paths
    by_cases hx : key = "definitions"
    · subst hx
      have hof : (Sections.of d).definitions = v := Entries.getD_of_some hv _
      refine ⟨_, Entries.get?_withSections_definitions d _, ?_⟩
      exact Merge.filled_putDefinitions hu.definitions (hof.symm ▸ ht) c.definitions
    · have hother : Value.str key ∉ ["paths", "tags", "definitions"].map Value.str := by
        have htags : key ≠ "tags" := by
          rintro rfl
          exact absurd hk (by decide)
        simp [hp, hx, htags]
      exact ⟨v, (Entries.get?_withSections hother d _).trans hv, ht⟩
  · refine ⟨_, Entries.get?_withSections_tags d _, ?_⟩
    cases us with
    | nil => exact Or.inr rfl
    | cons u us => exact Or.inl rfl

/-- The groups that a document was finished with are its own, and are mappings. -/
theorem Sections.Unshared.sorted {s : Sections} (h : s.Unshared) {ts us : List Value}
    (hts : Finish.items? s.tags = some ts) (hus : Finish.sorted ts = .ok us) :
    Unshared { s with tags := .list none us } ∧ Grouped { s with tags := .list none us } := by
  have hmem : ∀ v ∈ us, v ∈ ts := fun v hv => (Finish.perm_sorted hus).subset hv
  have hshared : ∀ v ∈ us, v.isShared = false := fun v hv => h.groups ts hts v (hmem v hv)
  refine ⟨⟨h.paths, h.items, rfl, ?_, h.definitions⟩, ?_⟩
  · intro us' hus'
    cases hus'
    exact hshared
  · intro l us' hus'
    cases hus'
    intro v hv
    obtain ⟨l', es, rfl⟩ := Finish.map_of_sorted hus v (hmem v hv)
    obtain rfl := Value.label_map (hshared _ hv)
    exact ⟨es, rfl⟩

/-- Groups that could be taken in have found a list. -/
theorem Sections.list_of_fits {s : Sections} {cs : List Contribution} {dedupe : Bool}
    (h : ∀ c ∈ cs, c.Fits (s.take dedupe (Contribution.join cs))) :
    (Contribution.join cs).tags = [] ∨ ∃ ts, s.tags = .list none ts := by
  by_cases hnil : (Contribution.join cs).tags = []
  · exact Or.inl hnil
  · right
    obtain ⟨t, ht⟩ := List.exists_mem_of_ne_nil _ hnil
    obtain ⟨c, hc, ht⟩ := List.mem_flatMap.mp ht
    obtain ⟨ts, hts⟩ := (h c hc).tags.resolve_left (List.ne_nil_of_mem ht)
    obtain ⟨paths, tags, definitions⟩ := s
    cases tags with
    | list l us =>
      cases hts
      exact ⟨us, rfl⟩
    | _ => cases hts

/-- Sections that have taken contributions, with the groups sorted, take them again without a
change. -/
theorem Sections.take_sorted {s : Sections} {cs : List Contribution}
    (hd : ∀ c ∈ cs, ∀ t ∈ c.tags, Groups.Described t)
    (hf : ∀ c ∈ cs, c.Fits (s.take true (Contribution.join cs))) {ts us : List Value}
    (hts : Finish.items? (s.take true (Contribution.join cs)).tags = some ts)
    (hus : Finish.sorted ts = .ok us) :
    take true { s.take true (Contribution.join cs) with tags := .list none us }
        (Contribution.join cs) =
      { s.take true (Contribution.join cs) with tags := .list none us } := by
  have htags := Merge.putTags_sorted (Contribution.described_join hd) (list_of_fits hf) hts hus
  simp only [take, Merge.putPaths_putPaths, Merge.putDefinitions_putDefinitions, htags]

theorem Merge.complete_of_skeletal {d : Entries} (h : Skeleton.Skeletal d) : Complete d := by
  obtain ⟨p, hp, -⟩ := h.sections "paths" (by decide)
  obtain ⟨x, hx, -⟩ := h.sections "definitions" (by decide)
  obtain ⟨t, ht, -⟩ := h.tags
  exact Entries.withSections_of (by simp [hp]) (by simp [ht]) (by simp [hx])

/-- A document that has taken the contributions and has its groups in order comes out of a run as
it is. -/
theorem Generator.generate_eq_self {opts : GenerateOptions} {l : Option Label} {e : Entries}
    {blocks : List CommentBlock} (hall : ∀ b ∈ annotated blocks, Assembles opts b)
    (hskel : Skeleton.Skeletal e) (hu : (Sections.of e).Unshared) (hg : (Sections.of e).Grouped)
    (hf : ∀ c ∈ contributions opts (annotated blocks), c.Fits (Sections.of e))
    (htake : (Sections.of e).take opts.dedupe
      (Contribution.join (contributions opts (annotated blocks))) = Sections.of e)
    {us : List Value} (htags : (Sections.of e).tags = .list none us)
    (hus : Finish.sorted us = .ok us) :
    (generate opts (.map l e) blocks).result = .ok (.map l e) := by
  have hd := described_contributions opts (annotated blocks)
  have herr := Merge.error_all hu hd hf hg opts.dedupe
  have hcomplete := Merge.complete_of_skeletal hskel
  have hstate := (Merge.state_all hu hd herr).1.eq_withSections hcomplete
  rw [Sections.foldl_take, htake, hcomplete] at hstate
  rw [← Skeleton.entries_of_skeletal hskel] at herr hstate
  refine generate_eq_ok.mpr ⟨l, e, e, rfl, hall, herr, ?_, rfl⟩
  rw [hstate, Skeleton.entries_of_skeletal hskel]
  refine Finish.entries_eq_ok.mpr ⟨us, us, by rw [htags]; rfl, hus, ?_⟩
  obtain ⟨v, hv, -⟩ := hskel.tags
  have hv' : v = .list none us := (Entries.getD_of_some hv _).symm.trans htags
  exact (Entries.put_eq_self (hv' ▸ hv)).symm

/-- **To generate a document again changes nothing.** If duplicates among the described groups are
looked for and the base definition is a tree, then a document that came out of a run, taken as
the base definition of another run over the same blocks, comes out as it is. -/
theorem generate_idempotent {opts : GenerateOptions} (hdedupe : opts.dedupe = true)
    {definition : Value} (htree : definition.isTree = true) (blocks : List CommentBlock)
    {doc : Value} (h : (Generator.generate opts definition blocks).result = .ok doc) :
    (Generator.generate opts doc blocks).result = .ok doc := by
  obtain ⟨l, d, e, rfl, hall, herr, he, rfl⟩ := Generator.generate_eq_ok.mp h
  rw [hdedupe] at herr he
  have hd := Generator.described_contributions opts (Generator.annotated blocks)
  have hskel := Skeleton.skeletal_entries d
  have hu := Skeleton.unshared_of_isTree htree
  -- What the first run came to: the skeleton with its sections filled, and its groups sorted.
  obtain ⟨htaken, hfits⟩ := Merge.state_all hu hd herr
  have hstate := htaken.eq_withSections (Merge.complete_of_skeletal hskel)
  rw [Sections.foldl_take] at hstate
  obtain ⟨ts, us, hts, hus, rfl⟩ := Finish.entries_eq_ok.mp he
  rw [hstate, Entries.of_withSections] at hts hfits
  rw [hstate, Entries.put_tags_withSections]
  -- The second run finds all of it in place.
  obtain ⟨hu', hg'⟩ := (hu.take true _).sorted hts hus
  have hof := Entries.of_withSections (Skeleton.entries d)
    { (Sections.of (Skeleton.entries d)).take true
        (Contribution.join (Generator.contributions opts (Generator.annotated blocks))) with
      tags := .list none us }
  refine Generator.generate_eq_self hall (hskel.withSections hu true _ us) ?_ ?_ ?_ ?_ ?_
    (Finish.sorted_sorted hus)
  · rw [hof]
    exact hu'
  · rw [hof]
    exact hg'
  · intro c hc
    rw [hof]
    exact ⟨(hfits c hc).paths, Or.inr ⟨us, rfl⟩, (hfits c hc).definitions⟩
  · rw [hof, hdedupe]
    exact Sections.take_sorted hd hfits hts hus
  · rw [hof]

/-- A base definition whose groups are not in order, one of them that of `petBlock`. -/
def petDefinition : Value :=
  .object [("info", .str "Pets"), ("tags", .array
    [.object [("name", .str "zoo")],
     .object [("name", .str "default"), ("description", .str "All else")]])]

theorem generate_idempotent_petDefinition :
    petDefinition.isTree = true ∧
      ∃ doc, (Generator.generate { dedupe := true } petDefinition [petBlock]).result = .ok doc ∧
        (Generator.generate { dedupe := true } doc [petBlock]).result = .ok doc := by
  have htree : petDefinition.isTree = true := by decide
  have hsome : (Generator.generate { dedupe := true } petDefinition
      [petBlock]).result.toOption.isSome = true := by decide +kernel
  cases hr : (Generator.generate { dedupe := true } petDefinition [petBlock]).result with
  | error e =>
    rw [hr] at hsome
    cases hsome
  | ok doc => exact ⟨htree, doc, rfl, generate_idempotent rfl htree [petBlock] hr⟩

end AnnotatedApi
