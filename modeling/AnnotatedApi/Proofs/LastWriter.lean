/-
  Documents that take whole runs of comment blocks. A document is `WellShaped` if its sections
  are what merging expects, where they are there at all. Such a document takes any contribution
  and stays well-shaped; after a run there stands under each uri and method, and under each name
  of a definition, what the last block to have it contributed, and nothing of the base is lost
  (`Merged`). A block that cannot be put together stops the run, and the document is that of the
  blocks before it. `last_writer_wins` says all of this.
-/
import AnnotatedApi.Proofs.Blocks

namespace AnnotatedApi

/-- The sections are mappings and a list of mappings, where they are there, and none of these
containers stands in another place too. -/
structure WellShaped (d : Entries) : Prop where
  paths : ∀ v, d.get? "paths" = some v → ∃ ps, v = .map none ps ∧ ∀ e ∈ ps, e.2.IsOwnMap
  tags : ∀ v, d.get? "tags" = some v → ∃ ts, v = .list none ts ∧ ∀ t ∈ ts, t.IsOwnMap
  definitions : ∀ v, d.get? "definitions" = some v → v.IsOwnMap

namespace Value

/-- The entries of a mapping; nothing else has any. -/
def entries : Value → Entries
  | .map _ es => es
  | _ => []

/-- The items of a list; nothing else has any. -/
def items : Value → List Value
  | .list _ vs => vs
  | _ => []

end Value

namespace Sections

/-- The path item of a uri; an absent one is empty. -/
def item (uri : Value) (s : Sections) : Entries :=
  ((Assoc.get? uri s.paths.entries).getD (.map none [])).entries

def operation? (uri method : Value) (s : Sections) : Option Value :=
  Assoc.get? method (s.item uri)

def definition? (name : Value) (s : Sections) : Option Value :=
  Assoc.get? name s.definitions.entries

/-- What merging expects of the sections. -/
structure Shaped (s : Sections) : Prop where
  paths : ∃ ps, s.paths = .map none ps ∧ ∀ e ∈ ps, e.2.IsOwnMap
  tags : ∃ ts, s.tags = .list none ts ∧ ∀ t ∈ ts, t.IsOwnMap
  definitions : s.definitions.IsOwnMap

end Sections

/-- The operation under a uri and a method of the last contribution that has one. -/
def lastOperation (uri method : String) (cs : List Contribution) : Option Value :=
  cs.reverse.findSome? (·.operation? uri method)

/-- The definition of a name of the last contribution that has one. -/
def lastDefinition (name : String) (cs : List Contribution) : Option Value :=
  cs.reverse.findSome? fun c => Assoc.get? name c.definitions

/-- The document `d'` is the base `d` after the contributions: the last writer wins, and what is
not written stays. -/
structure Merged (dedupe : Bool) (cs : List Contribution) (d d' : Entries) : Prop where
  operation : ∀ uri method, (Sections.of d').operation? (.str uri) (.str method) =
    (lastOperation uri method cs).or ((Sections.of d).operation? (.str uri) (.str method))
  /-- Only under texts is anything written. -/
  otherOperation : ∀ uri method, (∀ u m, (uri, method) ≠ (.str u, .str m)) →
    (Sections.of d').operation? uri method = (Sections.of d).operation? uri method
  definition : ∀ name, (Sections.of d').definition? (.str name) =
    (lastDefinition name cs).or ((Sections.of d).definition? (.str name))
  otherDefinition : ∀ name, (∀ n, name ≠ .str n) →
    (Sections.of d').definition? name = (Sections.of d).definition? name
  paths : Assoc.keys (Sections.of d).paths.entries ⊆ Assoc.keys (Sections.of d').paths.entries
  methods : ∀ uri, Assoc.keys ((Sections.of d).item uri) ⊆ Assoc.keys ((Sections.of d').item uri)
  definitions : Assoc.keys (Sections.of d).definitions.entries ⊆
    Assoc.keys (Sections.of d').definitions.entries
  other : ∀ key ∉ ["paths", "tags", "definitions"].map Value.str,
    Assoc.get? key d' = Assoc.get? key d
  tags : dedupe = false → (Sections.of d').tags.items =
    (Sections.of d).tags.items ++ cs.flatMap fun c => c.tags.map Merge.tagValue

/-! ## Sections of the expected shape -/

theorem WellShaped.sections {d : Entries} (h : WellShaped d) : (Sections.of d).Shaped := by
  refine ⟨?_, ?_, ?_⟩
  · cases hv : d.get? "paths" with
    | none => exact ⟨[], by simp [Sections.of, Entries.getD, hv], by simp⟩
    | some v =>
      obtain ⟨ps, rfl, hps⟩ := h.paths v hv
      exact ⟨ps, Entries.getD_of_some hv _, hps⟩
  · cases hv : d.get? "tags" with
    | none => exact ⟨[], by simp [Sections.of, Entries.getD, hv], by simp⟩
    | some v =>
      obtain ⟨ts, rfl, hts⟩ := h.tags v hv
      exact ⟨ts, Entries.getD_of_some hv _, hts⟩
  · cases hv : d.get? "definitions" with
    | none => exact ⟨[], by simp [Sections.of, Entries.getD, hv]⟩
    | some v =>
      obtain ⟨es, rfl⟩ := h.definitions v hv
      exact ⟨es, Entries.getD_of_some hv _⟩

theorem wellShaped_of_sections {d : Entries} (h : (Sections.of d).Shaped) : WellShaped d := by
  obtain ⟨⟨ps, hp, hps⟩, ⟨ts, ht, hts⟩, ⟨es, hx⟩⟩ := h
  refine ⟨?_, ?_, ?_⟩
  · intro v hv
    exact ⟨ps, (Entries.getD_of_some hv _).symm.trans hp, hps⟩
  · intro v hv
    exact ⟨ts, (Entries.getD_of_some hv _).symm.trans ht, hts⟩
  · intro v hv
    exact ⟨es, (Entries.getD_of_some hv _).symm.trans hx⟩

namespace Sections.Shaped

variable {s : Sections}

theorem unshared (h : s.Shaped) : s.Unshared := by
  obtain ⟨⟨ps, hp, hps⟩, ⟨ts, ht, hts⟩, ⟨es, hx⟩⟩ := h
  refine ⟨by rw [hp]; rfl, ?_, by rw [ht]; rfl, ?_, by rw [hx]; rfl⟩
  · intro l ps' hps'
    cases hp.symm.trans hps'
    exact fun e he => (hps e he).isShared
  · intro ts' hts'
    rw [ht] at hts'
    cases hts'
    exact fun v hv => (hts v hv).isShared

theorem grouped (h : s.Shaped) : s.Grouped := by
  obtain ⟨ts, ht, hts⟩ := h.tags
  intro l ts' hts'
  cases ht.symm.trans hts'
  exact hts

/-- Sections of the expected shape take any contribution. -/
theorem fits (h : s.Shaped) (c : Contribution) : c.Fits s := by
  obtain ⟨⟨ps, hp, hps⟩, ⟨ts, ht, hts⟩, ⟨es, hx⟩⟩ := h
  refine ⟨Or.inr ⟨ps, hp, fun path _ => Or.inr ?_⟩, Or.inr ⟨ts, ht⟩, Or.inl ⟨es, hx⟩⟩
  intro v hv
  exact hps _ (Assoc.mem_of_get? hv)

theorem take (h : s.Shaped) (dedupe : Bool) (c : Contribution) : (s.take dedupe c).Shaped := by
  have hg := h.grouped.take dedupe c
  obtain ⟨⟨ps, hp, hps⟩, ⟨ts, ht, hts⟩, ⟨es, hx⟩⟩ := h
  have hps : Paths.Every Value.IsOwnMap ps := hps
  refine ⟨⟨Paths.putAll c.paths ps, ?_, hps.putAll (fun es => ⟨es, rfl⟩) c.paths⟩,
    ⟨c.tags.foldl (Groups.add dedupe) ts, ?_, hg none _ ?_⟩, ?_⟩
  · simp only [Sections.take, hp, Merge.putPaths]
  · simp only [Sections.take, ht, Merge.putTags]
  · simp only [Sections.take, ht, Merge.putTags]
  · rw [Sections.take, hx]
    exact ⟨_, rfl⟩

/-- In sections of the expected shape, operations are looked up as they are written. -/
theorem item_eq (h : s.Shaped) {ps : Entries} (hp : s.paths = .map none ps) (uri : Value) :
    s.item uri = Paths.item uri ps := by
  obtain ⟨ps', hp', hps⟩ := h.paths
  cases hp.symm.trans hp'
  rw [Sections.item, hp, Value.entries, Paths.item]
  cases hv : Assoc.get? uri ps with
  | none => rfl
  | some v =>
    obtain ⟨es, he⟩ := hps _ (Assoc.mem_of_get? hv)
    subst he
    rfl

variable (h : s.Shaped) (dedupe : Bool) (c : Contribution)
include h

/-- An operation is the last one written, or else the one that was there. -/
theorem operation?_take (uri method : Value) : (s.take dedupe c).operation? uri method =
    (Store.last (uri, method) (c.paths.flatMap Paths.writes)).or (s.operation? uri method) := by
  obtain ⟨ps, hp, -⟩ := h.paths
  have hp' : (s.take dedupe c).paths = .map none (Paths.putAll c.paths ps) := by
    rw [Sections.take, hp, Merge.putPaths]
  unfold Sections.operation?
  rw [(h.take dedupe c).item_eq hp', h.item_eq hp]
  exact Paths.get?_putAll (uri, method) c.paths ps

theorem definition?_take (name : Value) : (s.take dedupe c).definition? name =
    (Store.last name (c.definitions.map fun e => (Value.str e.1, e.2))).or
      (s.definition? name) := by
  obtain ⟨es, hx⟩ := h.definitions
  rw [Sections.definition?, Sections.definition?, Sections.take, hx]
  exact Store.entries.get?_run name _ es

theorem keys_paths_take :
    Assoc.keys s.paths.entries ⊆ Assoc.keys (s.take dedupe c).paths.entries := by
  obtain ⟨ps, hp, -⟩ := h.paths
  rw [Sections.take, hp]
  exact fun uri huri => Paths.mem_keys_putAll (Or.inl huri)

theorem keys_item_take (uri : Value) :
    Assoc.keys (s.item uri) ⊆ Assoc.keys ((s.take dedupe c).item uri) := by
  obtain ⟨ps, hp, -⟩ := h.paths
  have hp' : (s.take dedupe c).paths = .map none (Paths.putAll c.paths ps) := by
    rw [Sections.take, hp, Merge.putPaths]
  rw [(h.take dedupe c).item_eq hp', h.item_eq hp]
  exact Paths.keys_item_putAll uri c.paths ps

end Sections.Shaped

/-! ## The last writer -/

/-- Only texts are written to. -/
theorem Paths.mem_keys_flatMap_writes {paths : List (String × List (String × Value))}
    {k : Value × Value} (h : k ∈ Assoc.keys (paths.flatMap writes)) :
    ∃ uri method, k = (.str uri, .str method) := by
  obtain ⟨w, hw, rfl⟩ := List.mem_map.mp h
  obtain ⟨path, -, hw⟩ := List.mem_flatMap.mp hw
  obtain ⟨op, -, rfl⟩ := List.mem_map.mp hw
  exact ⟨path.1, op.1, rfl⟩

theorem Paths.last_writes (uri method : String) {path : String × List (String × Value)}
    (h : (Assoc.keys path.2).Nodup) :
    Store.last (.str uri, .str method) (writes path) =
      if path.1 = uri then Assoc.get? method path.2 else none := by
  have hf : Function.Injective fun m => (Value.str path.1, Value.str m) := by
    intro m m' e
    simpa using e
  split
  · next hu =>
    subst hu
    rw [Store.last_of_nodup]
    · exact (Assoc.get?_map hf id method path.2).trans (by simp)
    · have hkeys : Assoc.keys (writes path) =
          (Assoc.keys path.2).map fun m => (Value.str path.1, Value.str m) := by
        simp [Assoc.keys, writes, Function.comp_def]
      rw [hkeys]
      exact h.map hf
  · next hu =>
    rw [← Option.not_isSome_iff_eq_none, Store.isSome_last_iff]
    intro hmem
    obtain ⟨w, hw, hk⟩ := List.mem_map.mp hmem
    obtain ⟨op, -, rfl⟩ := List.mem_map.mp hw
    simp only [Prod.mk.injEq, Value.str.injEq] at hk
    exact hu hk.1

/-- In a mapping of mappings each operation is written once. -/
theorem Paths.last_flatMap_writes (uri method : String)
    {paths : List (String × List (String × Value))} (h : Assoc.NestedNodup paths) :
    Store.last (.str uri, .str method) (paths.flatMap writes) =
      (Assoc.get? uri paths).bind (Assoc.get? method) := by
  obtain ⟨hkeys, hitems⟩ := h
  induction paths with
  | nil => rfl
  | cons path paths ih =>
    obtain ⟨uri', ops⟩ := path
    simp only [Assoc.keys, List.map_cons, List.nodup_cons] at hkeys
    rw [List.flatMap_cons, Store.last_append,
      ih hkeys.2 fun e he => hitems e (List.mem_cons_of_mem _ he),
      last_writes uri method (hitems _ List.mem_cons_self), Assoc.get?_cons]
    by_cases hu : uri' = uri
    · subst hu
      have hnone : Assoc.get? uri' paths = none := (Assoc.get?_eq_none_iff _ _).mpr hkeys.1
      simp [hnone]
    · simp [hu]

/-- Operations are written under texts only. -/
theorem Paths.last_writes_of_ne {k : Value × Value}
    (h : ∀ uri method, k ≠ (.str uri, .str method))
    (paths : List (String × List (String × Value))) :
    Store.last k (paths.flatMap writes) = none := by
  rw [← Option.not_isSome_iff_eq_none, Store.isSome_last_iff]
  intro hmem
  obtain ⟨uri, method, he⟩ := mem_keys_flatMap_writes hmem
  exact h uri method he

/-- Definitions are written under texts only. -/
theorem Merge.last_definitions_of_ne {k : Value} (h : ∀ name, k ≠ .str name)
    (definitions : List (String × Value)) :
    Store.last k (definitions.map fun e => (Value.str e.1, e.2)) = none := by
  rw [← Option.not_isSome_iff_eq_none, Store.isSome_last_iff]
  intro hmem
  obtain ⟨w, hw, rfl⟩ := List.mem_map.mp hmem
  obtain ⟨e, -, rfl⟩ := List.mem_map.mp hw
  exact h e.1 rfl

theorem lastOperation_eq (uri method : String) {cs : List Contribution}
    (h : ∀ c ∈ cs, Assoc.NestedNodup c.paths) :
    Store.last (.str uri, .str method) ((Contribution.join cs).paths.flatMap Paths.writes) =
      lastOperation uri method cs := by
  rw [Contribution.join, List.flatMap_assoc]
  exact Store.last_flatMap fun c hc => Paths.last_flatMap_writes uri method (h c hc)

theorem lastDefinition_eq (name : String) {cs : List Contribution}
    (h : ∀ c ∈ cs, (Assoc.keys c.definitions).Nodup) :
    Store.last (.str name)
        ((Contribution.join cs).definitions.map fun e => (Value.str e.1, e.2)) =
      lastDefinition name cs := by
  rw [Contribution.join, List.map_flatMap]
  refine Store.last_flatMap fun c hc => ?_
  rw [Store.last_of_nodup]
  · exact (Assoc.get?_map Value.str_injective id name c.definitions).trans (by simp)
  · have hkeys : Assoc.keys (c.definitions.map fun e => (Value.str e.1, e.2)) =
        (Assoc.keys c.definitions).map Value.str := by
      simp [Assoc.keys, Function.comp_def]
    rw [hkeys]
    exact (h c hc).map Value.str_injective

/-- Groups that are only appended. -/
theorem Groups.foldl_add_false (tags : List (List (String × String))) (ts : List Value) :
    tags.foldl (add false) ts = ts ++ tags.map Merge.tagValue := by
  induction tags generalizing ts with
  | nil => simp
  | cons tag tags ih =>
    rw [List.foldl_cons, ih]
    simp [add]

variable {d d' : Entries} {cs : List Contribution} {dedupe : Bool}

theorem Merge.Taken.shaped (h : Taken dedupe cs d d') (hd : (Sections.of d).Shaped) :
    (Sections.of d').Shaped := by
  rw [h.sections]
  exact foldl_take_keeps (fun s c hs => hs.take dedupe c) hd

theorem Merge.Taken.merged (h : Taken dedupe cs d d') (hd : (Sections.of d).Shaped)
    (hp : ∀ c ∈ cs, Assoc.NestedNodup c.paths)
    (hx : ∀ c ∈ cs, (Assoc.keys c.definitions).Nodup) : Merged dedupe cs d d' := by
  have hs : Sections.of d' = (Sections.of d).take dedupe (Contribution.join cs) := by
    rw [h.sections, Sections.foldl_take]
  constructor
  case operation =>
    intro uri method
    rw [hs, hd.operation?_take, lastOperation_eq uri method hp]
  case otherOperation =>
    intro uri method hk
    rw [hs, hd.operation?_take, Paths.last_writes_of_ne hk, Option.none_or]
  case definition =>
    intro name
    rw [hs, hd.definition?_take, lastDefinition_eq name hx]
  case otherDefinition =>
    intro name hk
    rw [hs, hd.definition?_take, Merge.last_definitions_of_ne hk, Option.none_or]
  case paths =>
    rw [hs]
    exact hd.keys_paths_take dedupe _
  case methods =>
    intro uri
    rw [hs]
    exact hd.keys_item_take dedupe _ uri
  case definitions =>
    intro name hname
    have hkept := hd.definition?_take dedupe (Contribution.join cs) name
    unfold Sections.definition? at hkept
    rw [← Assoc.isSome_get?_iff] at hname ⊢
    rw [hs, hkept, Option.isSome_or, hname, Bool.or_true]
  case other =>
    intro key hkey
    rw [← Entries.get?_withSections hkey d' (Sections.of d), h.rest,
      Entries.get?_withSections hkey]
  case tags =>
    rintro rfl
    obtain ⟨ts, hts, -⟩ := hd.tags
    rw [hs, Sections.take, hts, putTags, Groups.foldl_add_false, Contribution.join,
      List.map_flatMap]
    rfl

/-- A well-shaped document takes the contribution of any block. -/
theorem merge_wellShaped (hd : WellShaped d) (l : Option Label) {opts : RouteOptions}
    {block : CommentBlock} {c : Contribution}
    (hc : (Contribution.ofBlock opts block).result = .ok (some c)) (dedupe : Bool) :
    ∃ d', (merge dedupe c (.map l d)).error = none ∧
      (merge dedupe c (.map l d)).state = .map l d' ∧ WellShaped d' := by
  have hs := hd.sections
  have hdesc := Contribution.described_ofBlock hc
  have herr := Merge.error_entries hs.unshared hdesc (hs.fits c) hs.grouped dedupe
  refine ⟨_, herr, rfl, wellShaped_of_sections ?_⟩
  rw [(Merge.state_entries hs.unshared hdesc herr).1, Entries.of_withSections]
  exact hs.take dedupe c

/-- A well-shaped document takes any contributions whose groups are described. -/
theorem each_merge_of_wellShaped (hd : WellShaped d) (l : Option Label)
    (hdesc : ∀ c ∈ cs, ∀ t ∈ c.tags, Groups.Described t) (dedupe : Bool) :
    ∃ d', (Edit.each (fun v c => merge dedupe c v) (.map l d) cs).error = none ∧
      (Edit.each (fun v c => merge dedupe c v) (.map l d) cs).state = .map l d' ∧
      Merge.Taken dedupe cs d d' := by
  have hs := hd.sections
  have herr := Merge.error_all hs.unshared hdesc (fun c _ => hs.fits c) hs.grouped dedupe
  obtain ⟨herr', hstate⟩ := Merge.each_merge dedupe cs l d
  exact ⟨_, herr'.trans herr, hstate, (Merge.state_all hs.unshared hdesc herr).1⟩

theorem addAll_merged (hd : WellShaped d) (l : Option Label) {opts : GenerateOptions}
    {blocks : List CommentBlock} (h : ∀ b ∈ blocks, Generator.Assembles opts b) :
    ∃ d', (Generator.addAll opts (.map l d) blocks).error = none ∧
      (Generator.addAll opts (.map l d) blocks).state = .map l d' ∧ WellShaped d' ∧
      Merged opts.dedupe (Generator.contributions opts blocks) d d' := by
  have hs := hd.sections
  obtain ⟨d', herr, hstate, htaken⟩ :=
    each_merge_of_wellShaped hd l (Generator.described_contributions opts blocks) opts.dedupe
  obtain ⟨herr', hstate'⟩ := Generator.addAll_of_assembles h (.map l d)
  refine ⟨d', ?_, hstate'.trans hstate, wellShaped_of_sections (htaken.shaped hs),
    htaken.merged hs (Generator.nestedNodup_contributions opts blocks)
      (Generator.nodup_definitions_contributions opts blocks)⟩
  rw [herr', herr]
  rfl

/-- **The last writer wins, nothing is lost, and a run stops cleanly.** A well-shaped document
takes the contribution of any block and stays well-shaped. If all blocks can be put together, the
run does not fail, and the document is the base with what the blocks contribute. Otherwise the
run fails with the error of the first block that cannot, and the document is the base with what
the blocks before it contribute. -/
theorem last_writer_wins (opts : GenerateOptions) (l : Option Label) {d : Entries}
    (hd : WellShaped d) (blocks : List CommentBlock) :
    (∀ block c, (Contribution.ofBlock opts.toRouteOptions block).result = .ok (some c) →
      ∃ d', (merge opts.dedupe c (.map l d)).error = none ∧
        (merge opts.dedupe c (.map l d)).state = .map l d' ∧ WellShaped d') ∧
    ((∀ b ∈ blocks, Generator.Assembles opts b) →
      ∃ d', (Generator.addAll opts (.map l d) blocks).error = none ∧
        (Generator.addAll opts (.map l d) blocks).state = .map l d' ∧ WellShaped d' ∧
        Merged opts.dedupe (Generator.contributions opts blocks) d d') ∧
    ((∃ b ∈ blocks, ¬ Generator.Assembles opts b) →
      ∃ pre block post e d', blocks = pre ++ block :: post ∧
        (∀ b ∈ pre, Generator.Assembles opts b) ∧
        (Contribution.ofBlock opts.toRouteOptions block).result = .error e ∧
        (Generator.addAll opts (.map l d) blocks).error = some (.assembly e) ∧
        (Generator.addAll opts (.map l d) blocks).state = .map l d' ∧
        (Generator.addAll opts (.map l d) pre).state = .map l d' ∧ WellShaped d' ∧
        Merged opts.dedupe (Generator.contributions opts pre) d d') := by
  refine ⟨fun _ _ hc => merge_wellShaped hd l hc opts.dedupe, addAll_merged hd l, ?_⟩
  rintro ⟨b, hb, hfails⟩
  rcases Generator.assembles_or_first_fails opts blocks with
    h | ⟨pre, block, post, e, rfl, hpre, he⟩
  · exact absurd (h b hb) hfails
  · obtain ⟨d', herr, hstate, hshaped, hmerged⟩ := addAll_merged hd l hpre
    obtain ⟨herr', hstate'⟩ := Generator.addAll_of_fails herr he
    exact ⟨pre, block, post, e, d', rfl, hpre, he, herr', hstate'.trans hstate, hstate, hshaped,
      hmerged⟩

/-- A document with an operation that `petBlock` replaces and one that it leaves. -/
def petStore : Entries :=
  [(.str "info", .str "Pets"),
   (.str "paths", .object
     [("/pets", .object [("get", .str "old"), ("put", .str "kept")]),
      ("/owners", .object [("get", .str "kept")])]),
   (.str "definitions", .object [("Pet", .str "kept")])]

theorem wellShaped_petStore : WellShaped petStore := by
  refine ⟨?_, ?_, ?_⟩
  · intro v hv
    cases hv
    refine ⟨_, rfl, ?_⟩
    simp [Value.IsOwnMap, Value.object]
  · intro v hv
    cases hv
  · intro v hv
    cases hv
    exact ⟨_, rfl⟩

/-- A block whose settings are no mapping. -/
def brokenBlock : CommentBlock :=
  { tags :=
      [{ title := "route", description := "GET /owners" },
       { title := "param", name := "id.path",
         description := "```yaml-swagger-settings\n1\n```" }] }

theorem not_assembles_brokenBlock : ¬ Generator.Assembles {} brokenBlock := by
  have hnone : (Contribution.ofBlock {} brokenBlock).result.toOption.isSome = false := by
    decide +kernel
  rintro ⟨c, hc⟩
  have hc : (Contribution.ofBlock {} brokenBlock).result = .ok c := hc
  rw [hc] at hnone
  cases hnone

theorem last_writer_wins_petStore :
    (∃ d', (Generator.addAll {} (.map none petStore) [petBlock, petBlock]).error = none ∧
      (Generator.addAll {} (.map none petStore) [petBlock, petBlock]).state = .map none d' ∧
      WellShaped d' ∧
      Merged false (Generator.contributions {} [petBlock, petBlock]) petStore d') ∧
    ∃ e d', (Generator.addAll {} (.map none petStore) [petBlock, brokenBlock]).error =
        some (.assembly e) ∧
      (Generator.addAll {} (.map none petStore) [petBlock, brokenBlock]).state = .map none d' ∧
      WellShaped d' := by
  have hpet : Generator.Assembles {} petBlock := ⟨_, rfl⟩
  have hall : ∀ b ∈ [petBlock, petBlock], Generator.Assembles {} b := by
    simp [hpet]
  refine ⟨(last_writer_wins {} none wellShaped_petStore [petBlock, petBlock]).2.1 hall, ?_⟩
  obtain ⟨_, _, _, e, d', -, -, -, herr, hstate, -, hshaped, -⟩ :=
    (last_writer_wins {} none wellShaped_petStore [petBlock, brokenBlock]).2.2
      ⟨brokenBlock, by simp, not_assembles_brokenBlock⟩
  exact ⟨e, d', herr, hstate, hshaped⟩

end AnnotatedApi
