/-
  Described groups without duplicates. To merge contributions one after another searches and
  changes a growing list; `Groups.batch` says in one go what the list comes to. The two agree for
  every well-shaped document and every sequence of contributions whose groups have a name and a
  description, and the other two sections do not depend on whether duplicates are looked for
  (`merges_to_batch`).
-/
import AnnotatedApi.Proofs.LastWriter

namespace AnnotatedApi

/-- **Without duplicates, one after another is all at once.** The base entries stand in their
places; behind them stands one entry for each name that is new, in the order in which the names
come first. The first entry of each name has the first description that is not empty, its own or
a contributed one, and all else is as it was. -/
theorem merges_to_batch (l : Option Label) {d : Entries} (hd : WellShaped d)
    {cs : List Contribution} (hc : ∀ c ∈ cs, ∀ t ∈ c.tags, Groups.Described t) :
    ∃ d' d'',
      (Edit.each (fun v c => merge true c v) (.map l d) cs).error = none ∧
      (Edit.each (fun v c => merge true c v) (.map l d) cs).state = .map l d' ∧
      (Edit.each (fun v c => merge false c v) (.map l d) cs).error = none ∧
      (Edit.each (fun v c => merge false c v) (.map l d) cs).state = .map l d'' ∧
      (Sections.of d').paths = (Sections.of d'').paths ∧
      (Sections.of d').definitions = (Sections.of d'').definitions ∧
      (Sections.of d').tags =
        .list none (Groups.batch (Sections.of d).tags.items (cs.flatMap (·.tags))) ∧
      (((Sections.of d).tags.items.filterMap Groups.name?).Nodup →
        ((Sections.of d').tags.items.filterMap Groups.name?).Nodup) := by
  obtain ⟨d', herr, hstate, htaken⟩ := each_merge_of_wellShaped hd l hc true
  obtain ⟨d'', herr', hstate', htaken'⟩ := each_merge_of_wellShaped hd l hc false
  have hs := htaken.sections
  have hs' := htaken'.sections
  rw [Sections.foldl_take] at hs hs'
  have hdesc : ∀ t ∈ cs.flatMap (·.tags), Groups.Described t := by
    intro t ht
    obtain ⟨c, hmem, ht⟩ := List.mem_flatMap.mp ht
    exact hc c hmem t ht
  have htags : (Sections.of d').tags =
      .list none (Groups.batch (Sections.of d).tags.items (cs.flatMap (·.tags))) := by
    obtain ⟨ts, hts, -⟩ := hd.sections.tags
    rw [hs, hts, ← Groups.foldl_takeIn _ hdesc, ← Groups.add_true]
    simp only [Sections.take, hts, Merge.putTags, Contribution.join, Value.items]
  refine ⟨d', d'', herr, hstate, herr', hstate', ?_, ?_, htags, ?_⟩
  · rw [hs, hs']
    rfl
  · rw [hs, hs']
    rfl
  · rw [htags]
    exact Groups.nodup_names_batch hdesc

/-- A document with two entries of one name, neither of them described, and one without a name. -/
def taggedStore : Entries :=
  [(.str "paths", .map none []), (.str "definitions", .map none []),
   (.str "tags", .list none
     [.object [("name", .str "pets"), ("x-order", .int 1)], .object [],
      .object [("name", .str "pets")]])]

theorem wellShaped_taggedStore : WellShaped taggedStore := by
  refine ⟨?_, ?_, ?_⟩
  · intro v hv
    cases hv
    exact ⟨[], rfl, by simp⟩
  · intro v hv
    cases hv
    refine ⟨_, rfl, ?_⟩
    simp [Value.IsOwnMap, Value.object]
  · intro v hv
    cases hv
    exact ⟨[], rfl⟩

/-- Groups that repeat a name within one contribution and across two. -/
def petGroups : List Contribution :=
  [{ tags := [[("name", "pets"), ("description", "")], [("name", "owners"), ("description", "")],
      [("name", "pets"), ("description", "Pets")]] },
   { tags := [[("name", "owners"), ("description", "Owners")],
      [("name", "pets"), ("description", "Animals")]] }]

theorem merges_to_batch_petGroups :
    (∀ c ∈ petGroups, ∀ t ∈ c.tags, Groups.Described t) ∧
      ∃ d', (Edit.each (fun v c => merge true c v) (.map none taggedStore) petGroups).state =
          .map none d' ∧
        (Sections.of d').tags = .list none
          [.object [("name", .str "pets"), ("x-order", .int 1), ("description", .str "Pets")],
           .object [], .object [("name", .str "pets")],
           .object [("name", .str "owners"), ("description", .str "Owners")]] := by
  have hdesc : ∀ c ∈ petGroups, ∀ t ∈ c.tags, Groups.Described t := by
    simp [petGroups, Groups.Described, Assoc.get?]
  obtain ⟨d', -, -, hstate, -, -, -, -, htags, -⟩ :=
    merges_to_batch none wellShaped_taggedStore hdesc
  refine ⟨hdesc, d', hstate, htags.trans ?_⟩
  decide

end AnnotatedApi
