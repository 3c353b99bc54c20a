/-
  The skeleton of a document. `Skeletal` says that the version and all sections are there; the
  skeleton of any base definition is so (`Skeleton.skeletal_entries`), and what is so is its own
  skeleton (`Skeleton.entries_of_skeletal`). A base definition that is a tree has a skeleton
  whose sections stand in one place each (`Skeleton.unshared_of_isTree`).
-/
import AnnotatedApi.Proofs.Sections

namespace AnnotatedApi

/-! ## Trees -/

namespace Value

mutual

/-- Whether no container in a value stands in several places. -/
def isTree : Value → Bool
  | .pair a b => a.isTree && b.isTree
  | .list l vs | .set l vs => l.isNone && isTreeList vs
  | .map l es => l.isNone && isTreeEntries es
  | _ => true

def isTreeList : List Value → Bool
  | [] => true
  | v :: vs => v.isTree && isTreeList vs

def isTreeEntries : List (Value × Value) → Bool
  | [] => true
  | (k, v) :: es => k.isTree && v.isTree && isTreeEntries es

end

theorem isTreeList_iff (vs : List Value) : isTreeList vs = true ↔ ∀ v ∈ vs, v.isTree = true := by
  induction vs with
  | nil => simp [isTreeList]
  | cons v vs ih => simp [isTreeList, ih]

theorem isTreeEntries_iff (es : Entries) :
    isTreeEntries es = true ↔ ∀ e ∈ es, e.1.isTree = true ∧ e.2.isTree = true := by
  induction es with
  | nil => simp [isTreeEntries]
  | cons e es ih =>
    obtain ⟨k, v⟩ := e
    simp [isTreeEntries, ih]

theorem isShared_of_isTree {v : Value} (h : v.isTree = true) : v.isShared = false := by
  cases v <;> simp_all [isTree, isShared]

theorem isTree_of_items? {v : Value} (h : v.isTree = true) {ts : List Value}
    (hts : Finish.items? v = some ts) : ∀ t ∈ ts, t.isTree = true := by
  intro t ht
  cases v with
  | list l vs =>
    cases hts
    simp only [isTree, Bool.and_eq_true, isTreeList_iff] at h
    exact h.2 t ht
  | set l vs =>
    cases hts
    simp only [isTree, Bool.and_eq_true, isTreeList_iff] at h
    exact h.2 t ht
  | pair a b =>
    cases hts
    simp only [isTree, Bool.and_eq_true] at h
    simp only [List.mem_cons, List.not_mem_nil, or_false] at ht
    rcases ht with rfl | rfl
    · exact h.1
    · exact h.2
  | map l es =>
    cases hts
    simp only [isTree, Bool.and_eq_true, isTreeEntries_iff] at h
    obtain ⟨e, he, rfl⟩ := List.mem_map.mp ht
    exact (h.2 e he).1
  | str s =>
    cases hts
    obtain ⟨c, -, rfl⟩ := List.mem_map.mp ht
    rfl
  | illFormed ps =>
    cases hts
    obtain ⟨n, -, rfl⟩ := List.mem_map.mp ht
    rfl
  | bytes bs =>
    cases hts
    obtain ⟨b, -, rfl⟩ := List.mem_map.mp ht
    rfl
  | _ => cases hts

end Value

namespace Skeleton

/-- There is something under a key, or the empty container. -/
def Filled (empty : Value) (key : String) (d : Entries) : Prop :=
  ∃ v, d.get? key = some v ∧ (v.truthy = true ∨ v = empty)

/-- The version and all sections are there. -/
structure Skeletal (d : Entries) : Prop where
  swagger : d.get? "swagger" = some (.str swaggerVersion)
  sections : ∀ key ∈ sections, Filled (.map none []) key d
  tags : Filled (.list none []) "tags" d

/-! ## Missing sections -/

variable {empty : Value} {key : String} {d : Entries}

theorem fill_of_filled (h : Filled empty key d) : fill empty d key = d := by
  obtain ⟨v, hv, ht⟩ := h
  unfold fill
  rw [hv]
  split
  · rfl
  · next hf =>
    rcases ht with ht | rfl
    · exact absurd ht hf
    · exact Entries.put_eq_self hv

theorem filled_fill (empty : Value) (key : String) (d : Entries) :
    Filled empty key (fill empty d key) := by
  unfold fill
  split
  · next ht =>
    cases hv : d.get? key with
    | none => simp [hv] at ht
    | some v => exact ⟨v, hv, Or.inl (by simpa [hv] using ht)⟩
  · exact ⟨empty, Entries.get?_put_self key empty d, Or.inr rfl⟩

theorem get?_fill_of_ne {key' : String} (h : key' ≠ key) (empty : Value) (d : Entries) :
    (fill empty d key').get? key = d.get? key := by
  unfold fill
  split
  · rfl
  · exact Entries.get?_put_of_ne h empty d

theorem filled_foldl {keys : List String} (h : key ∈ keys ∨ Filled empty key d) :
    Filled empty key (keys.foldl (fill empty) d) := by
  induction keys generalizing d with
  | nil => exact h.resolve_left (by simp)
  | cons key' keys ih =>
    apply ih
    by_cases hk : key' = key
    · subst hk
      exact Or.inr (filled_fill empty key' d)
    · rcases h with h | ⟨v, hv, ht⟩
      · exact Or.inl ((List.mem_cons.mp h).resolve_left (Ne.symm hk))
      · exact Or.inr ⟨v, (get?_fill_of_ne hk empty d).trans hv, ht⟩

theorem get?_foldl_fill {keys : List String} (h : key ∉ keys) :
    (keys.foldl (fill empty) d).get? key = d.get? key := by
  induction keys generalizing d with
  | nil => rfl
  | cons key' keys ih =>
    rw [List.mem_cons, not_or] at h
    rw [List.foldl_cons, ih h.2, get?_fill_of_ne (Ne.symm h.1)]

theorem foldl_fill_of_filled {keys : List String} (h : ∀ key ∈ keys, Filled empty key d) :
    keys.foldl (fill empty) d = d := by
  induction keys with
  | nil => rfl
  | cons key keys ih =>
    rw [List.foldl_cons, fill_of_filled (h key List.mem_cons_self)]
    exact ih fun key hk => h key (List.mem_cons_of_mem _ hk)

theorem skeletal_entries (d : Entries) : Skeletal (entries d) := by
  unfold entries
  refine ⟨?_, ?_, filled_fill _ _ _⟩
  · rw [get?_fill_of_ne (by decide), get?_foldl_fill (by decide)]
    exact Entries.get?_put_self "swagger" _ d
  · intro key hk
    have hne : "tags" ≠ key := by
      rintro rfl
      exact absurd hk (by decide)
    have hfilled : Filled (.map none []) key
        (AnnotatedApi.sections.foldl (fill (.map none []))
          (Assoc.set (.str "swagger") (.str swaggerVersion) d)) := filled_foldl (Or.inl hk)
    obtain ⟨v, hv, ht⟩ := hfilled
    exact ⟨v, (get?_fill_of_ne hne _ _).trans hv, ht⟩

/-- What has all sections is its own skeleton. -/
theorem entries_of_skeletal (h : Skeletal d) : entries d = d := by
  have hs : Assoc.set (.str "swagger") (.str swaggerVersion) d = d := Assoc.set_eq_self h.swagger
  unfold entries
  rw [hs]
  simp only
  rw [foldl_fill_of_filled h.sections, fill_of_filled h.tags]

/-! ## Sections that stand in one place -/

/-- What stands under the keys of a document are trees. -/
def Trees (d : Entries) : Prop := ∀ e ∈ d, e.2.isTree = true

theorem Trees.put (h : Trees d) (key : String) {v : Value} (hv : v.isTree = true) :
    Trees (d.put key v) := by
  intro e he
  rcases Assoc.mem_set he with rfl | he
  · exact hv
  · exact h e he

theorem Trees.fill (h : Trees d) (hv : empty.isTree = true) (key : String) :
    Trees (fill empty d key) := by
  unfold Skeleton.fill
  split
  · exact h
  · exact h.put key hv

theorem Trees.entries (h : Trees d) : Trees (entries d) := by
  refine Trees.fill ?_ rfl "tags"
  exact List.foldlRecOn sections _ (h.put "swagger" rfl) fun d hd key _ => hd.fill rfl key

theorem Trees.getD (h : Trees d) (key : String) {default : Value} (hv : default.isTree = true) :
    (d.getD key default).isTree = true := by
  unfold Entries.getD
  cases hd : d.get? key with
  | none => exact hv
  | some v => exact h _ (Assoc.mem_of_get? hd)

theorem Trees.unshared (h : Trees d) : (Sections.of d).Unshared := by
  have hp : (Sections.of d).paths.isTree = true := h.getD "paths" rfl
  have ht : (Sections.of d).tags.isTree = true := h.getD "tags" rfl
  have hx : (Sections.of d).definitions.isTree = true := h.getD "definitions" rfl
  refine ⟨Value.isShared_of_isTree hp, ?_, Value.isShared_of_isTree ht, ?_,
    Value.isShared_of_isTree hx⟩
  · intro l ps hps e he
    rw [hps] at hp
    simp only [Value.isTree, Bool.and_eq_true, Value.isTreeEntries_iff] at hp
    exact Value.isShared_of_isTree (hp.2 e he).2
  · intro ts hts t hmem
    exact Value.isShared_of_isTree (Value.isTree_of_items? ht hts t hmem)

theorem unshared_of_isTree {l : Option Label} (h : (Value.map l d).isTree = true) :
    (Sections.of (entries d)).Unshared := by
  simp only [Value.isTree, Bool.and_eq_true, Value.isTreeEntries_iff] at h
  have htrees : Trees d := fun e he => (h.2 e he).2
  exact htrees.entries.unshared

end Skeleton

end AnnotatedApi
