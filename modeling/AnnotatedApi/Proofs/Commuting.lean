/-
  Blocks that have nothing in common commute. If no two blocks contribute an operation under one
  uri and method, a definition of one name or a group of one name (`Contribution.Independent`),
  then the order of the blocks bears on the order of keys only: under each key there is at most
  one writer, so the last one is the same in every order (`lastOperation_perm`,
  `lastDefinition_perm`), and the groups of one name come from one block, so they are sorted to
  the same list (`Groups.sorted_foldl_add`). A document comes about in all orders or in none,
  since contributions have to fit the base (`Merge.fits_of_all`).
-/
import AnnotatedApi.Proofs.Alike
import AnnotatedApi.Proofs.LastWriter
import AnnotatedApi.Proofs.Regeneration

namespace AnnotatedApi

/-! ## At most one that counts -/

/-- What a list comes to does not depend on its order, if at most one of its elements counts. -/
theorem foldr_perm {α β γ : Type} {op : γ → β → β} {unit : γ} (hunit : ∀ b, op unit b = b)
    {m : α → γ} {xs ys : List α} (h : xs.Perm ys)
    (hone : xs.Pairwise fun x y => m x = unit ∨ m y = unit) (b : β) :
    xs.foldr (fun x => op (m x)) b = ys.foldr (fun x => op (m x)) b := by
  induction h with
  | nil => rfl
  | cons x _ ih =>
    rw [List.foldr_cons, List.foldr_cons, ih (List.pairwise_cons.mp hone).2]
  | swap x y xs =>
    have hxy := (List.pairwise_cons.mp hone).1 x List.mem_cons_self
    simp only [List.foldr_cons]
    rcases hxy with hy | hx
    · rw [hy, hunit, hunit]
    · rw [hx, hunit, hunit]
  | trans h₁ _ ih₁ ih₂ =>
    have hsymm : ∀ {x y : α}, (m x = unit ∨ m y = unit) → m y = unit ∨ m x = unit := Or.symm
    exact (ih₁ hone).trans (ih₂ ((h₁.pairwise_iff hsymm).mp hone))

theorem findSome?_perm {α β : Type} {f : α → Option β} {xs ys : List α} (h : xs.Perm ys)
    (hone : xs.Pairwise fun x y => f x = none ∨ f y = none) :
    xs.findSome? f = ys.findSome? f := by
  have hfold : ∀ zs : List α, zs.findSome? f = zs.foldr (fun x => (f x).or) none := by
    intro zs
    induction zs with
    | nil => rfl
    | cons z zs ih =>
      rw [List.findSome?_cons, List.foldr_cons, ← ih]
      cases f z <;> rfl
  rw [hfold, hfold]
  exact foldr_perm (fun _ => Option.none_or) h hone none

theorem filter_flatMap_perm {α β : Type} {f : α → List β} {p : β → Bool} {xs ys : List α}
    (h : xs.Perm ys) (hone : xs.Pairwise fun x y => (f x).filter p = [] ∨ (f y).filter p = []) :
    (xs.flatMap f).filter p = (ys.flatMap f).filter p := by
  have hfold : ∀ zs : List α,
      (zs.flatMap f).filter p = zs.foldr (fun x => ((f x).filter p ++ ·)) [] := by
    intro zs
    induction zs with
    | nil => rfl
    | cons z zs ih => rw [List.flatMap_cons, List.filter_append, List.foldr_cons, ih]
  rw [hfold, hfold]
  exact foldr_perm List.nil_append h hone []

/-! ## Contributions that have nothing in common -/

namespace Contribution

/-- The uris and methods of operations. -/
def operations (c : Contribution) : List (String × String) :=
  c.paths.flatMap fun path => path.2.map fun op => (path.1, op.1)

/-- Two contributions without an operation, a definition or a group in common. -/
structure Independent (c c' : Contribution) : Prop where
  operations : ∀ k ∈ c.operations, k ∉ c'.operations
  definitions : ∀ name ∈ Assoc.keys c.definitions, name ∉ Assoc.keys c'.definitions
  groups : ∀ name ∈ c.tags.map Groups.nameOf, name ∉ c'.tags.map Groups.nameOf

instance (c c' : Contribution) : Decidable (Independent c c') :=
  decidable_of_iff ((∀ k ∈ c.operations, k ∉ c'.operations) ∧
      (∀ name ∈ Assoc.keys c.definitions, name ∉ Assoc.keys c'.definitions) ∧
      ∀ name ∈ c.tags.map Groups.nameOf, name ∉ c'.tags.map Groups.nameOf)
    ⟨fun h => ⟨h.1, h.2.1, h.2.2⟩, fun h => ⟨h.operations, h.definitions, h.groups⟩⟩

theorem mem_operations {c : Contribution} {uri method : String}
    (h : c.operation? uri method ≠ none) : (uri, method) ∈ c.operations := by
  obtain ⟨o, ho⟩ := Option.ne_none_iff_exists'.mp h
  obtain ⟨item, hitem, ho⟩ := Option.bind_eq_some_iff.mp ho
  exact List.mem_flatMap.mpr ⟨(uri, item), Assoc.mem_of_get? hitem,
    List.mem_map.mpr ⟨(method, o), Assoc.mem_of_get? ho, rfl⟩⟩

variable {c c' : Contribution} (h : Independent c c')
include h

theorem Independent.operation? (uri method : String) :
    c.operation? uri method = none ∨ c'.operation? uri method = none := by
  by_contra hboth
  rw [not_or] at hboth
  exact h.operations _ (mem_operations hboth.1) (mem_operations hboth.2)

theorem Independent.definition? (name : String) :
    Assoc.get? name c.definitions = none ∨ Assoc.get? name c'.definitions = none := by
  rw [Assoc.get?_eq_none_iff, Assoc.get?_eq_none_iff]
  by_cases hname : name ∈ Assoc.keys c.definitions
  · exact Or.inr (h.definitions name hname)
  · exact Or.inl hname

theorem Independent.filter_groups (name : String) :
    (c.tags.filter fun t => Groups.nameOf t = name) = [] ∨
      (c'.tags.filter fun t => Groups.nameOf t = name) = [] := by
  simp only [List.filter_eq_nil_iff, decide_eq_true_eq]
  by_cases hname : name ∈ c.tags.map Groups.nameOf
  · exact Or.inr fun t ht he => h.groups name hname (List.mem_map.mpr ⟨t, ht, he⟩)
  · exact Or.inl fun t ht he => hname (List.mem_map.mpr ⟨t, ht, he⟩)

end Contribution

variable {cs cs' : List Contribution}

theorem reverse_findSome?_perm {α β : Type} {f : α → Option β} {xs ys : List α} (h : xs.Perm ys)
    (hone : xs.Pairwise fun x y => f x = none ∨ f y = none) :
    xs.reverse.findSome? f = ys.reverse.findSome? f := by
  rw [← findSome?_perm (xs.reverse_perm.symm) hone,
    ← findSome?_perm (h.trans ys.reverse_perm.symm) hone]

theorem lastOperation_perm (h : cs.Perm cs') (hi : cs.Pairwise Contribution.Independent)
    (uri method : String) : lastOperation uri method cs = lastOperation uri method cs' :=
  reverse_findSome?_perm h (hi.imp fun hc => hc.operation? uri method)

theorem lastDefinition_perm (h : cs.Perm cs') (hi : cs.Pairwise Contribution.Independent)
    (name : String) : lastDefinition name cs = lastDefinition name cs' :=
  reverse_findSome?_perm h (hi.imp fun hc => hc.definition? name)

theorem filter_groups_perm (h : cs.Perm cs') (hi : cs.Pairwise Contribution.Independent)
    (name : String) :
    ((Contribution.join cs).tags.filter fun t => Groups.nameOf t = name) =
      (Contribution.join cs').tags.filter fun t => Groups.nameOf t = name :=
  filter_flatMap_perm h (hi.imp fun hc => hc.filter_groups name)

/-! ## Paths and definitions in another order -/

theorem last_writes_perm (h : cs.Perm cs') (hi : cs.Pairwise Contribution.Independent)
    (hp : ∀ c ∈ cs, Assoc.NestedNodup c.paths) (k : Value × Value) :
    Store.last k ((Contribution.join cs).paths.flatMap Paths.writes) =
      Store.last k ((Contribution.join cs').paths.flatMap Paths.writes) := by
  by_cases hk : ∃ uri method, k = (.str uri, .str method)
  · obtain ⟨uri, method, rfl⟩ := hk
    rw [lastOperation_eq uri method hp,
      lastOperation_eq uri method fun c hc => hp c (h.symm.subset hc), lastOperation_perm h hi]
  · simp only [not_exists] at hk
    rw [Paths.last_writes_of_ne hk, Paths.last_writes_of_ne hk]

theorem last_definitions_perm (h : cs.Perm cs') (hi : cs.Pairwise Contribution.Independent)
    (hx : ∀ c ∈ cs, (Assoc.keys c.definitions).Nodup) (k : Value) :
    Store.last k ((Contribution.join cs).definitions.map fun e => (Value.str e.1, e.2)) =
      Store.last k ((Contribution.join cs').definitions.map fun e => (Value.str e.1, e.2)) := by
  by_cases hk : ∃ name, k = .str name
  · obtain ⟨name, rfl⟩ := hk
    rw [lastDefinition_eq name hx,
      lastDefinition_eq name fun c hc => hx c (h.symm.subset hc), lastDefinition_perm h hi]
  · simp only [not_exists] at hk
    rw [Merge.last_definitions_of_ne hk, Merge.last_definitions_of_ne hk]

namespace Merge

theorem foldl_putName (definitions : List (String × Value)) (vs : List Value) :
    definitions.foldl putName vs =
      (definitions.map fun e => Value.str e.1).foldl Assoc.addKey vs := by
  rw [List.foldl_map]
  congr 1
  funext vs e
  simp [putName, Assoc.addKey]

theorem putDefinitions_perm {definitions definitions' : List (String × Value)}
    (h : definitions.Perm definitions')
    (hlast : ∀ k, Store.last k (definitions.map fun e => (Value.str e.1, e.2)) =
      Store.last k (definitions'.map fun e => (Value.str e.1, e.2))) (v : Value) :
    Value.Reordered Eq (putDefinitions definitions v) (putDefinitions definitions' v) := by
  cases v with
  | map l es => exact .map l (.run ((h.map _).map _) hlast es)
  | set l vs =>
    rw [putDefinitions, putDefinitions, foldl_putName, foldl_putName]
    exact .set l (Assoc.foldl_addKey_perm (h.map _) (List.Perm.refl vs))
  | _ => exact .refl _

theorem putPaths_perm {paths paths' : List (String × List (String × Value))} {v : Value}
    (h : paths.Perm paths')
    (hlast : ∀ k, Store.last k (paths.flatMap Paths.writes) =
      Store.last k (paths'.flatMap Paths.writes))
    (hw : paths = [] ∨ ∃ ps, v = .map none ps ∧
      ∀ path ∈ paths, path.2 = [] ∨ Paths.Writable path.1 ps) :
    Value.Reordered (Value.Reordered Eq) (putPaths paths v) (putPaths paths' v) := by
  rcases hw with rfl | ⟨ps, rfl, hw⟩
  · rw [h.symm.eq_nil]
    exact .refl _
  · exact .map none (Paths.putAll_perm h hlast hw)

end Merge

/-! ## Documents in another order -/

/-- The same sections, up to the order of paths, of the methods of each path item and of
definitions. -/
structure Sections.Alike (s s' : Sections) : Prop where
  paths : Value.Reordered (Value.Reordered Eq) s.paths s'.paths
  tags : s.tags = s'.tags
  definitions : Value.Reordered Eq s.definitions s'.definitions

/-- The same document, entry by entry, with sections that are alike. -/
def Value.SameDocument (doc doc' : Value) : Prop :=
  ∃ l d s s', doc = .map l (Entries.withSections d s) ∧ doc' = .map l (Entries.withSections d s') ∧
    Sections.Alike s s'

/-- Operations that fit contribution by contribution fit together. -/
theorem Contribution.paths_join_of_fits {s : Sections} (h : ∀ c ∈ cs, c.Fits s) :
    (join cs).paths = [] ∨ ∃ ps, s.paths = .map none ps ∧
      ∀ path ∈ (join cs).paths, path.2 = [] ∨ Paths.Writable path.1 ps := by
  by_cases hnil : (join cs).paths = []
  · exact Or.inl hnil
  right
  have hpath : ∀ path ∈ (join cs).paths, ∃ ps, s.paths = .map none ps ∧
      (path.2 = [] ∨ Paths.Writable path.1 ps) := by
    intro path hpath
    obtain ⟨c, hc, hpath⟩ := List.mem_flatMap.mp hpath
    obtain ⟨ps, hps, hw⟩ := (h c hc).paths.resolve_left (List.ne_nil_of_mem hpath)
    exact ⟨ps, hps, hw path hpath⟩
  obtain ⟨first, hfirst⟩ := List.exists_mem_of_ne_nil _ hnil
  obtain ⟨ps, hps, -⟩ := hpath first hfirst
  refine ⟨ps, hps, fun path hmem => ?_⟩
  obtain ⟨ps', hps', hw⟩ := hpath path hmem
  cases hps.symm.trans hps'
  exact hw

/-- Sections that take contributions in another order. -/
theorem Sections.take_perm {s : Sections} (h : cs.Perm cs')
    (hi : cs.Pairwise Contribution.Independent) (hp : ∀ c ∈ cs, Assoc.NestedNodup c.paths)
    (hx : ∀ c ∈ cs, (Assoc.keys c.definitions).Nodup) (hf : ∀ c ∈ cs, c.Fits s) (dedupe : Bool)
    (v : Value) :
    Alike { s.take dedupe (Contribution.join cs) with tags := v }
      { s.take dedupe (Contribution.join cs') with tags := v } where
  paths := Merge.putPaths_perm (h.flatMap_right _) (last_writes_perm h hi hp)
    (Contribution.paths_join_of_fits hf)
  tags := rfl
  definitions := Merge.putDefinitions_perm (h.flatMap_right _) (last_definitions_perm h hi hx) _

/-- The groups of a document that could be finished were mappings from the start. -/
theorem Sections.grouped_of_sorted {s : Sections} (hu : s.Unshared) {dedupe : Bool}
    {c : Contribution} {ts us : List Value} (hts : Finish.items? (s.take dedupe c).tags = some ts)
    (hus : Finish.sorted ts = .ok us) : s.Grouped := by
  intro l base hbase v hv
  have hfold : c.tags.foldl (Groups.add dedupe) base = ts := by
    simpa [Sections.take, hbase, Merge.putTags, Finish.items?] using hts
  obtain ⟨k, hk⟩ := Groups.exists_key_of_foldl_add (hfold ▸ hus) v hv
  have hshared : v.isShared = false := hu.groups base (by rw [hbase]; rfl) v hv
  cases v with
  | map m es =>
    obtain rfl := Value.label_map hshared
    exact ⟨es, rfl⟩
  | _ => cases hk

theorem Merge.putTags_perm {dedupe : Bool} {tags tags' : List (List (String × String))}
    (hd : ∀ t ∈ tags, Groups.Described t) (hd' : ∀ t ∈ tags', Groups.Described t)
    (h : ∀ name, (tags.filter fun t => Groups.nameOf t = name) =
      tags'.filter fun t => Groups.nameOf t = name)
    {v : Value} {ts us : List Value} (hts : Finish.items? (putTags dedupe tags v) = some ts)
    (hus : Finish.sorted ts = .ok us) :
    ∃ ts', Finish.items? (putTags dedupe tags' v) = some ts' ∧ Finish.sorted ts' = .ok us := by
  cases v with
  | list l base =>
    obtain rfl : tags.foldl (Groups.add dedupe) base = ts := Option.some.inj hts
    exact ⟨_, rfl, Groups.sorted_foldl_add hd hd' h hus⟩
  | _ => exact ⟨ts, hts, hus⟩

namespace Merge

variable {d e : Entries} {dedupe : Bool}

/-- A document that was merged and finished: its sections have taken the contributions, and its
groups are sorted. -/
theorem finish_all_eq_ok (hu : (Sections.of d).Unshared) (hcomplete : Complete d)
    (hd : ∀ c ∈ cs, ∀ t ∈ c.tags, Groups.Described t) (h : (all dedupe cs d).error = none) :
    Finish.entries (all dedupe cs d).state = .ok e ↔ ∃ ts us,
      Finish.items? ((Sections.of d).take dedupe (Contribution.join cs)).tags = some ts ∧
        Finish.sorted ts = .ok us ∧
        e = d.withSections
          { (Sections.of d).take dedupe (Contribution.join cs) with tags := .list none us } := by
  have hstate := (taken_all hu hd h).eq_withSections hcomplete
  rw [Sections.foldl_take] at hstate
  rw [Finish.entries_eq_ok, hstate, Entries.of_withSections]
  simp only [Entries.put_tags_withSections]

/-- Contributions merged in another order. -/
theorem all_perm (hu : (Sections.of d).Unshared) (hcomplete : Complete d) (hperm : cs.Perm cs')
    (hi : cs.Pairwise Contribution.Independent) (hp : ∀ c ∈ cs, Assoc.NestedNodup c.paths)
    (hx : ∀ c ∈ cs, (Assoc.keys c.definitions).Nodup)
    (hd : ∀ c ∈ cs, ∀ t ∈ c.tags, Groups.Described t) (h : (all dedupe cs d).error = none)
    (he : Finish.entries (all dedupe cs d).state = .ok e) :
    ∃ e', (all dedupe cs' d).error = none ∧ Finish.entries (all dedupe cs' d).state = .ok e' ∧
      ∃ s s', e = d.withSections s ∧ e' = d.withSections s' ∧ s.Alike s' := by
  obtain ⟨ts, us, hts, hus, rfl⟩ := (finish_all_eq_ok hu hcomplete hd h).mp he
  have hmem : ∀ c ∈ cs', c ∈ cs := fun c hc => hperm.symm.subset hc
  have hd' : ∀ c ∈ cs', ∀ t ∈ c.tags, Groups.Described t := fun c hc => hd c (hmem c hc)
  have hfits := fits_of_all hu hd h
  have h' := error_all hu hd' (fun c hc => hfits c (hmem c hc))
    (Sections.grouped_of_sorted hu hts hus) dedupe
  obtain ⟨ts', hts', hus'⟩ := putTags_perm (Contribution.described_join hd)
    (Contribution.described_join hd') (filter_groups_perm hperm hi) hts hus
  exact ⟨_, h', (finish_all_eq_ok hu hcomplete hd' h').mpr ⟨ts', us, hts', hus', rfl⟩,
    _, _, rfl, rfl, Sections.take_perm hperm hi hp hx hfits dedupe _⟩

end Merge

namespace Generator

variable {opts : GenerateOptions} {blocks blocks' : List CommentBlock}

/-- Blocks without an operation, a definition or a group in common. -/
def Independent (opts : GenerateOptions) (b b' : CommentBlock) : Prop :=
  ∀ c ∈ contribution? opts b, ∀ c' ∈ contribution? opts b', c.Independent c'

instance (opts : GenerateOptions) (b b' : CommentBlock) : Decidable (Independent opts b b') :=
  inferInstanceAs (Decidable (∀ c ∈ contribution? opts b, ∀ c' ∈ contribution? opts b', _))

theorem pairwise_contributions (h : blocks.Pairwise (Independent opts)) :
    (contributions opts (annotated blocks)).Pairwise Contribution.Independent :=
  List.pairwise_filterMap.mpr ((h.filter _).imp fun hb c hc c' hc' => hb c hc c' hc')

end Generator

/-- **Independent blocks commute.** If no two blocks have an operation, a definition or a group in
common and the base definition is a tree, then with the blocks in another order a document comes
about if it does in this one, and it is the same up to the order of paths, of methods and of
definitions; its groups are the same, in the same order. -/
theorem generate_of_independent {opts : GenerateOptions} {definition : Value}
    (htree : definition.isTree = true) {blocks blocks' : List CommentBlock}
    (hi : blocks.Pairwise (Generator.Independent opts)) (hperm : blocks.Perm blocks') {doc : Value}
    (h : (Generator.generate opts definition blocks).result = .ok doc) :
    ∃ doc', (Generator.generate opts definition blocks').result = .ok doc' ∧
      doc.SameDocument doc' := by
  obtain ⟨l, d, e, rfl, hall, herr, he, rfl⟩ := Generator.generate_eq_ok.mp h
  have hblocks : (Generator.annotated blocks).Perm (Generator.annotated blocks') :=
    hperm.filter _
  obtain ⟨e', herr', he', s, s', rfl, rfl, hs⟩ := Merge.all_perm
    (Skeleton.unshared_of_isTree htree)
    (Merge.complete_of_skeletal (Skeleton.skeletal_entries d)) (hblocks.filterMap _)
    (Generator.pairwise_contributions hi)
    (Generator.nestedNodup_contributions opts (Generator.annotated blocks))
    (Generator.nodup_definitions_contributions opts (Generator.annotated blocks))
    (Generator.described_contributions opts (Generator.annotated blocks)) herr he
  have hall' : ∀ b ∈ Generator.annotated blocks', Generator.Assembles opts b :=
    fun b hb => hall b (hblocks.symm.subset hb)
  exact ⟨_, Generator.generate_eq_ok.mpr ⟨l, d, _, rfl, hall', herr', he', rfl⟩,
    l, Skeleton.entries d, s, s', rfl, rfl, hs⟩

/-- A block with an operation under the uri of `petBlock` and a group that comes before its own. -/
def adoptionBlock : CommentBlock :=
  { description := "Adopts a pet."
    tags :=
      [{ title := "route", description := "PUT /pets" },
       { title := "group", description := "Adoption - Finding a home" }] }

theorem generate_of_independent_adoptionBlock :
    petDefinition.isTree = true ∧
      [petBlock, adoptionBlock].Pairwise (Generator.Independent { dedupe := true }) ∧
      [petBlock, adoptionBlock].Perm [adoptionBlock, petBlock] ∧
      ∃ doc doc',
        (Generator.generate { dedupe := true } petDefinition [petBlock, adoptionBlock]).result =
          .ok doc ∧
        (Generator.generate { dedupe := true } petDefinition [adoptionBlock, petBlock]).result =
          .ok doc' ∧
        doc.SameDocument doc' := by
  have htree : petDefinition.isTree = true := by decide
  have hi : [petBlock, adoptionBlock].Pairwise (Generator.Independent { dedupe := true }) := by
    decide +kernel
  have hperm : [petBlock, adoptionBlock].Perm [adoptionBlock, petBlock] := .swap _ _ _
  have hsome : (Generator.generate { dedupe := true } petDefinition
      [petBlock, adoptionBlock]).result.toOption.isSome = true := by decide +kernel
  cases hr : (Generator.generate { dedupe := true } petDefinition
      [petBlock, adoptionBlock]).result with
  | error e =>
    rw [hr] at hsome
    cases hsome
  | ok doc =>
    obtain ⟨doc', hr', hsame⟩ := generate_of_independent htree hi hperm hr
    exact ⟨htree, hi, hperm, doc, doc', rfl, hr', hsame⟩

end AnnotatedApi
