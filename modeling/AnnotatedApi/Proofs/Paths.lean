/-
  The `paths` of a document. Its entries are a store whose keys are a uri and a method
  (`Paths.operations`). To merge operations is to write them to that store, after the path items
  that are missing have been made (`Paths.putAll`). Under each uri and method stands at last what
  was written last (`get?_putAll`), no path item goes (`mem_keys_putAll`) and none loses a method
  (`grows_putAll`). What is written again changes nothing (`putAll_putAll`). Uris and methods stand
  in the order of their first appearance (`keys_putAll`, `keys_item_putAll_eq`), so to write in
  another order what has the same last values only reorders them (`putAll_perm`).
-/
import AnnotatedApi.Proofs.Alike
import AnnotatedApi.Proofs.Sections

namespace AnnotatedApi

namespace Paths

/-- The entries of a path item; none if there is no item or it is no mapping. -/
def item (uri : Value) (ps : Entries) : Entries :=
  match Assoc.get? uri ps with
  | some (.map none es) => es
  | _ => []

/-- The operation under a uri and a method. -/
def get? (k : Value × Value) (ps : Entries) : Option Value := Assoc.get? k.2 (item k.1 ps)

/-- An operation written under a uri and a method. -/
def put (k : Value × Value) (o : Value) (ps : Entries) : Entries :=
  Assoc.set k.1 (.map none (Assoc.set k.2 o (item k.1 ps))) ps

theorem item_set (uri uri' : Value) (es : Entries) (ps : Entries) :
    item uri' (Assoc.set uri (.map none es) ps) = if uri = uri' then es else item uri' ps := by
  unfold item
  rw [Assoc.get?_set]
  by_cases h : uri = uri' <;> simp [h]

theorem item_eq_of_get? {uri : Value} {ps : Entries} {es : Entries}
    (h : Assoc.get? uri ps = some (.map none es)) : item uri ps = es := by
  simp [item, h]

/-- A uri with an operation has a path item that is a mapping. -/
theorem get?_item_of_isSome {k : Value × Value} {ps : Entries} (h : (get? k ps).isSome) :
    Assoc.get? k.1 ps = some (.map none (item k.1 ps)) := by
  unfold get? item at h
  unfold item
  split at h
  · next es he => simp [he]
  · simp at h

theorem get?_put (k k' : Value × Value) (o : Value) (ps : Entries) :
    get? k' (put k o ps) = if k = k' then some o else get? k' ps := by
  unfold get? put
  rw [item_set]
  obtain ⟨uri, method⟩ := k
  obtain ⟨uri', method'⟩ := k'
  by_cases hu : uri = uri'
  · subst hu
    rw [if_pos rfl, Assoc.get?_set]
    simp
  · simp [hu]

theorem put_put (k : Value × Value) (a b : Value) (ps : Entries) :
    put k a (put k b ps) = put k a ps := by
  unfold put
  rw [item_set, if_pos rfl, Assoc.set_set, Assoc.set_set]

theorem put_comm (k k' : Value × Value) (a b : Value) (ps : Entries) (hne : k ≠ k')
    (h : (get? k ps).isSome) : put k' b (put k a ps) = put k a (put k' b ps) := by
  have hitem := get?_item_of_isSome h
  obtain ⟨uri, method⟩ := k
  obtain ⟨uri', method'⟩ := k'
  unfold put
  rw [item_set, item_set]
  by_cases hu : uri = uri'
  · subst hu
    have hm : method ≠ method' := fun e => hne (by simp_all)
    have hkey : method ∈ Assoc.keys (item uri ps) :=
      (Assoc.isSome_get?_iff _ _).mp h
    rw [if_pos rfl, if_pos rfl, Assoc.set_set, Assoc.set_set, Assoc.set_comm hm a b hkey]
  · have hkey : uri ∈ Assoc.keys ps := (Assoc.isSome_get?_iff _ _).mp (by simp [hitem])
    rw [if_neg hu, if_neg (Ne.symm hu), Assoc.set_comm hu _ _ hkey]

theorem put_get? (k : Value × Value) (a : Value) (ps : Entries) (h : get? k ps = some a) :
    put k a ps = ps := by
  have hsome : (get? k ps).isSome := by simp [h]
  have hitem := get?_item_of_isSome hsome
  unfold put
  rw [Assoc.set_eq_self h, Assoc.set_eq_self hitem]

/-- The operations of a document, by uri and method. -/
def operations : Store (Value × Value) Value Entries where
  get? := get?
  put := put
  get?_put := get?_put
  put_put := put_put
  put_comm := put_comm
  put_get? := put_get?

/-- The path item of a uri made, if there is none. -/
def ensureItem (uri : String) (ps : Entries) : Entries :=
  if (Assoc.get? (.str uri) ps).isSome then ps else Assoc.set (.str uri) (.map none []) ps

/-- The writes that the operations of one uri come to. -/
def writes (path : String × List (String × Value)) : List ((Value × Value) × Value) :=
  path.2.map fun op => ((.str path.1, .str op.1), op.2)

/-- The operations of one uri written. -/
def putPath (ps : Entries) (path : String × List (String × Value)) : Entries :=
  operations.run (writes path) (ensureItem path.1 ps)

/-- The operations of several uris written. -/
def putAll (paths : List (String × List (String × Value))) (ps : Entries) : Entries :=
  paths.foldl putPath ps

/-- A path item can be written to, if it is there at all. -/
def Writable (uri : String) (ps : Entries) : Prop :=
  ∀ v, Assoc.get? (.str uri) ps = some v → v.IsOwnMap

theorem get?_ensureItem (k : Value × Value) (uri : String) (ps : Entries) :
    get? k (ensureItem uri ps) = get? k ps := by
  unfold ensureItem
  split
  · rfl
  · next h =>
    unfold get?
    rw [item_set]
    split
    · next hu =>
      have hnone : Assoc.get? k.1 ps = none := by simpa [hu] using h
      simp [item, hnone]
    · rfl

theorem get?_putAll (k : Value × Value) (paths : List (String × List (String × Value)))
    (ps : Entries) :
    get? k (putAll paths ps) = (Store.last k (paths.flatMap writes)).or (get? k ps) := by
  induction paths generalizing ps with
  | nil => simp [putAll]
  | cons path paths ih =>
    have hstep : get? k (putPath ps path) = (Store.last k (writes path)).or (get? k ps) := by
      have hrun := operations.get?_run k (writes path) (ensureItem path.1 ps)
      rw [show operations.get? k (ensureItem path.1 ps) = get? k ps from
        get?_ensureItem k path.1 ps] at hrun
      exact hrun
    show get? k (putAll paths (putPath ps path)) = _
    rw [ih, hstep, List.flatMap_cons, Store.last_append, Option.or_assoc]

/-! ## Which path items are there -/

theorem mem_keys_put (key : Value) (k : Value × Value) (o : Value) (ps : Entries) :
    key ∈ Assoc.keys (put k o ps) ↔ key ∈ Assoc.keys ps ∨ key = k.1 :=
  Assoc.mem_keys_set

theorem mem_keys_run {key : Value} (ws : List ((Value × Value) × Value)) {ps : Entries}
    (h : key ∈ Assoc.keys ps) : key ∈ Assoc.keys (operations.run ws ps) := by
  induction ws generalizing ps with
  | nil => exact h
  | cons w ws ih => exact ih ((mem_keys_put key w.1 w.2 ps).mpr (Or.inl h))

theorem mem_keys_ensureItem (key : Value) (uri : String) (ps : Entries) :
    key ∈ Assoc.keys (ensureItem uri ps) ↔ key ∈ Assoc.keys ps ∨ key = .str uri := by
  unfold ensureItem
  split
  · next h =>
    rw [Assoc.isSome_get?_iff] at h
    refine ⟨Or.inl, ?_⟩
    rintro (hk | rfl)
    · exact hk
    · exact h
  · exact Assoc.mem_keys_set

/-- No path item goes, and each uri has one at last. -/
theorem mem_keys_putAll {key : Value} {paths : List (String × List (String × Value))}
    {ps : Entries} (h : key ∈ Assoc.keys ps ∨ ∃ path ∈ paths, key = .str path.1) :
    key ∈ Assoc.keys (putAll paths ps) := by
  induction paths generalizing ps with
  | nil =>
    rcases h with h | ⟨path, hp, -⟩
    · exact h
    · cases hp
  | cons path paths ih =>
    show key ∈ Assoc.keys (putAll paths (putPath ps path))
    apply ih
    rcases h with h | ⟨path', hp, hkey⟩
    · exact Or.inl (mem_keys_run _ ((mem_keys_ensureItem _ _ _).mpr (Or.inl h)))
    · rcases List.mem_cons.mp hp with rfl | hp
      · exact Or.inl (mem_keys_run _ ((mem_keys_ensureItem _ _ _).mpr (Or.inr hkey)))
      · exact Or.inr ⟨path', hp, hkey⟩

theorem ensureItem_of_mem {uri : String} {ps : Entries} (h : Value.str uri ∈ Assoc.keys ps) :
    ensureItem uri ps = ps := by
  unfold ensureItem
  rw [if_pos ((Assoc.isSome_get?_iff _ _).mpr h)]

/-- If all path items are there, merging is writing and nothing else. -/
theorem putAll_of_mem {paths : List (String × List (String × Value))} {ps : Entries}
    (h : ∀ path ∈ paths, Value.str path.1 ∈ Assoc.keys ps) :
    putAll paths ps = operations.run (paths.flatMap writes) ps := by
  induction paths generalizing ps with
  | nil => rfl
  | cons path paths ih =>
    show putAll paths (putPath ps path) = _
    rw [putPath, ensureItem_of_mem (h path List.mem_cons_self), ih]
    · unfold Store.run
      rw [List.flatMap_cons, List.foldl_append]
    · intro path' hp
      exact mem_keys_run _ (h path' (List.mem_cons_of_mem _ hp))

/-- Operations that are written again change nothing. -/
theorem putAll_putAll (paths : List (String × List (String × Value))) (ps : Entries) :
    putAll paths (putAll paths ps) = putAll paths ps := by
  have hkeys : ∀ path ∈ paths, Value.str path.1 ∈ Assoc.keys (putAll paths ps) :=
    fun path hp => mem_keys_putAll (Or.inr ⟨path, hp, rfl⟩)
  rw [putAll_of_mem hkeys]
  refine operations.run_eq_self fun k hk => ?_
  show get? k (putAll paths ps) = _
  rw [get?_putAll, Option.or_of_isSome ((Store.isSome_last_iff k _).mpr hk)]

/-- Each path item that is a mapping stays one, with all its methods, and those that were not
there before are mappings. -/
structure Grows (ps ps' : Entries) : Prop where
  kept : ∀ uri es, Assoc.get? uri ps = some (.map none es) →
    ∃ es', Assoc.get? uri ps' = some (.map none es') ∧ Assoc.keys es ⊆ Assoc.keys es'
  made : ∀ uri v, Assoc.get? uri ps' = some v → v.IsOwnMap ∨ Assoc.get? uri ps = some v

theorem Grows.refl (ps : Entries) : Grows ps ps :=
  ⟨fun _ es h => ⟨es, h, List.Subset.refl _⟩, fun _ _ h => Or.inr h⟩

theorem Grows.trans {ps ps' ps'' : Entries} (h : Grows ps ps') (h' : Grows ps' ps'') :
    Grows ps ps'' := by
  constructor
  · intro uri es he
    obtain ⟨es', he', hsub⟩ := h.kept uri es he
    obtain ⟨es'', he'', hsub'⟩ := h'.kept uri es' he'
    exact ⟨es'', he'', List.Subset.trans hsub hsub'⟩
  · intro uri v hv
    exact (h'.made uri v hv).elim Or.inl (h.made uri v)

theorem Grows.writable {ps ps' : Entries} (h : Grows ps ps') {uri : String}
    (hw : Writable uri ps) : Writable uri ps' := by
  intro v hv
  exact (h.made _ v hv).elim id (hw v)

theorem grows_put (k : Value × Value) (o : Value) (ps : Entries) : Grows ps (put k o ps) := by
  unfold put
  constructor
  · intro uri es h
    rw [Assoc.get?_set]
    split
    · next hu =>
      subst hu
      refine ⟨_, rfl, ?_⟩
      rw [item_eq_of_get? h, Assoc.keys_set]
      split
      · exact List.Subset.refl _
      · exact List.subset_append_left _ _
    · exact ⟨es, h, List.Subset.refl _⟩
  · intro uri v h
    rw [Assoc.get?_set] at h
    split at h
    · exact Or.inl ⟨_, (Option.some.inj h).symm⟩
    · exact Or.inr h

theorem grows_run (ws : List ((Value × Value) × Value)) (ps : Entries) :
    Grows ps (operations.run ws ps) := by
  induction ws generalizing ps with
  | nil => exact Grows.refl ps
  | cons w ws ih => exact (grows_put w.1 w.2 ps).trans (ih _)

theorem grows_ensureItem (uri : String) (ps : Entries) : Grows ps (ensureItem uri ps) := by
  unfold ensureItem
  split
  · exact Grows.refl ps
  · next hnone =>
    constructor
    · intro uri' es he
      rw [Assoc.get?_set, if_neg]
      · exact ⟨es, he, List.Subset.refl _⟩
      · rintro rfl
        simp [he] at hnone
    · intro uri' v hv
      rw [Assoc.get?_set] at hv
      split at hv
      · exact Or.inl ⟨_, (Option.some.inj hv).symm⟩
      · exact Or.inr hv

theorem grows_putPath (ps : Entries) (path : String × List (String × Value)) :
    Grows ps (putPath ps path) :=
  (grows_ensureItem path.1 ps).trans (grows_run _ _)

theorem grows_putAll (paths : List (String × List (String × Value))) (ps : Entries) :
    Grows ps (putAll paths ps) := by
  induction paths generalizing ps with
  | nil => exact Grows.refl ps
  | cons path paths ih => exact (grows_putPath ps path).trans (ih _)

/-- No path item loses a method. -/
theorem keys_item_putAll (uri : Value) (paths : List (String × List (String × Value)))
    (ps : Entries) : Assoc.keys (item uri ps) ⊆ Assoc.keys (item uri (putAll paths ps)) := by
  cases hi : item uri ps with
  | nil => exact List.nil_subset _
  | cons e es =>
    have hget : Assoc.get? uri ps = some (.map none (item uri ps)) := by
      unfold item at hi ⊢
      split at hi
      · next es' he => rw [he]
      · cases hi
    obtain ⟨es', hes', hsub⟩ := (grows_putAll paths ps).kept uri _ hget
    rw [item_eq_of_get? hes', ← hi]
    exact hsub

/-- After a write there is a mapping to write to. -/
theorem get?_ensureItem_of_writable {uri : String} {ps : Entries} (h : Writable uri ps) :
    Assoc.get? (.str uri) (ensureItem uri ps) = some (.map none (item (.str uri) ps)) := by
  unfold ensureItem
  split
  · next hs =>
    obtain ⟨v, hv⟩ := Option.isSome_iff_exists.mp hs
    obtain ⟨es, rfl⟩ := h v hv
    rw [hv, item_eq_of_get? hv]
  · next hs =>
    have hnone : Assoc.get? (.str uri) ps = none := by simpa using hs
    simp [item, hnone]

/-! ## Path items that are not written to -/

theorem get?_run_of_ne {uri : Value} {ws : List ((Value × Value) × Value)}
    (h : ∀ w ∈ ws, w.1.1 ≠ uri) (ps : Entries) :
    Assoc.get? uri (operations.run ws ps) = Assoc.get? uri ps := by
  induction ws generalizing ps with
  | nil => rfl
  | cons w ws ih =>
    rw [Store.run_cons, ih fun w hw => h w (List.mem_cons_of_mem _ hw)]
    show Assoc.get? uri (put w.1 w.2 ps) = _
    rw [put, Assoc.get?_set, if_neg (h w List.mem_cons_self)]

theorem get?_putPath_of_ne {uri : Value} {path : String × List (String × Value)}
    (h : Value.str path.1 ≠ uri) (ps : Entries) :
    Assoc.get? uri (putPath ps path) = Assoc.get? uri ps := by
  have hwrites : ∀ w ∈ writes path, w.1.1 ≠ uri := by
    intro w hw
    obtain ⟨op, -, rfl⟩ := List.mem_map.mp hw
    exact h
  rw [putPath, get?_run_of_ne hwrites, ensureItem]
  split
  · rfl
  · rw [Assoc.get?_set, if_neg h]

/-- What is there and is no mapping is not written to, if only mappings are. -/
theorem get?_putPath_of_not_own {uri v : Value} {path : String × List (String × Value)}
    {ps : Entries} (hv : Assoc.get? uri ps = some v) (hown : ¬ v.IsOwnMap)
    (h : path.2 = [] ∨ Writable path.1 ps) : Assoc.get? uri (putPath ps path) = some v := by
  by_cases hu : Value.str path.1 = uri
  · subst hu
    have hops : path.2 = [] := h.resolve_right fun hw => hown (hw v hv)
    have hmem : Value.str path.1 ∈ Assoc.keys ps := (Assoc.isSome_get?_iff _ _).mp (by simp [hv])
    rw [putPath, ensureItem_of_mem hmem, writes, hops]
    exact hv
  · rw [get?_putPath_of_ne hu, hv]

theorem get?_putAll_of_not_own {uri v : Value} {paths : List (String × List (String × Value))}
    {ps : Entries} (hv : Assoc.get? uri ps = some v) (hown : ¬ v.IsOwnMap)
    (h : ∀ path ∈ paths, path.2 = [] ∨ Writable path.1 ps) :
    Assoc.get? uri (putAll paths ps) = some v := by
  induction paths generalizing ps with
  | nil => exact hv
  | cons path paths ih =>
    refine ih (get?_putPath_of_not_own hv hown (h path List.mem_cons_self)) ?_
    intro path' hp
    exact (h path' (List.mem_cons_of_mem _ hp)).imp_right (grows_putPath ps path).writable

/-- What can be written to at last could be written to at first, if only mappings were. -/
theorem writable_of_putAll {uri : String} {paths : List (String × List (String × Value))}
    {ps : Entries} (h : ∀ path ∈ paths, path.2 = [] ∨ Writable path.1 ps)
    (hw : Writable uri (putAll paths ps)) : Writable uri ps := by
  intro v hv
  by_contra hown
  exact hown (hw v (get?_putAll_of_not_own hv hown h))

/-! ## The order of keys -/

theorem keys_run_of_mem {ws : List ((Value × Value) × Value)} {ps : Entries}
    (h : ∀ w ∈ ws, w.1.1 ∈ Assoc.keys ps) :
    Assoc.keys (operations.run ws ps) = Assoc.keys ps := by
  induction ws generalizing ps with
  | nil => rfl
  | cons w ws ih =>
    have hput : Assoc.keys (put w.1 w.2 ps) = Assoc.keys ps := by
      rw [put, Assoc.keys_set, if_pos (h w List.mem_cons_self)]
    rw [Store.run_cons, ← hput]
    refine ih fun w' hw' => ?_
    show w'.1.1 ∈ Assoc.keys (put w.1 w.2 ps)
    rw [hput]
    exact h w' (List.mem_cons_of_mem _ hw')

theorem keys_putPath (ps : Entries) (path : String × List (String × Value)) :
    Assoc.keys (putPath ps path) = Assoc.addKey (Assoc.keys ps) (.str path.1) := by
  have hensure : Assoc.keys (ensureItem path.1 ps) =
      Assoc.addKey (Assoc.keys ps) (.str path.1) := by
    unfold ensureItem Assoc.addKey
    simp only [Assoc.isSome_get?_iff]
    split
    · rfl
    · next hk => rw [Assoc.keys_set, if_neg hk]
  rw [putPath, keys_run_of_mem, hensure]
  intro w hw
  obtain ⟨op, -, rfl⟩ := List.mem_map.mp hw
  exact (mem_keys_ensureItem _ _ _).mpr (Or.inr rfl)

/-- The uris of path items stand in the order of their first appearance. -/
theorem keys_putAll (paths : List (String × List (String × Value))) (ps : Entries) :
    Assoc.keys (putAll paths ps) =
      (paths.map fun path => Value.str path.1).foldl Assoc.addKey (Assoc.keys ps) := by
  induction paths generalizing ps with
  | nil => rfl
  | cons path paths ih =>
    show Assoc.keys (putAll paths (putPath ps path)) = _
    rw [ih, keys_putPath, List.map_cons, List.foldl_cons]

/-- The methods that are written under a uri. -/
def methodsAt (uri : Value) (ws : List ((Value × Value) × Value)) : List Value :=
  (ws.filter fun w => w.1.1 = uri).map fun w => w.1.2

theorem keys_item_run (uri : Value) (ws : List ((Value × Value) × Value)) (ps : Entries) :
    Assoc.keys (item uri (operations.run ws ps)) =
      (methodsAt uri ws).foldl Assoc.addKey (Assoc.keys (item uri ps)) := by
  induction ws generalizing ps with
  | nil => rfl
  | cons w ws ih =>
    have hput : item uri (put w.1 w.2 ps) =
        if w.1.1 = uri then Assoc.set w.1.2 w.2 (item uri ps) else item uri ps := by
      rw [put, item_set]
      split
      · next hu => rw [hu]
      · rfl
    rw [Store.run_cons, ih]
    show (methodsAt uri ws).foldl Assoc.addKey (Assoc.keys (item uri (put w.1 w.2 ps))) = _
    rw [hput, methodsAt, methodsAt, List.filter_cons]
    by_cases hu : w.1.1 = uri
    · simp only [hu, if_true, decide_true, List.map_cons, List.foldl_cons]
      rw [Assoc.keys_set]
      rfl
    · simp [hu]

theorem item_ensureItem (uri : Value) (uri' : String) (ps : Entries) :
    item uri (ensureItem uri' ps) = item uri ps := by
  unfold ensureItem
  split
  · rfl
  · next hnone =>
    rw [item_set]
    split
    · next hu =>
      subst hu
      have hget : Assoc.get? (.str uri') ps = none := by simpa using hnone
      simp [item, hget]
    · rfl

/-- The methods of a path item stand in the order of their first appearance. -/
theorem keys_item_putAll_eq (uri : Value) (paths : List (String × List (String × Value)))
    (ps : Entries) : Assoc.keys (item uri (putAll paths ps)) =
      (methodsAt uri (paths.flatMap writes)).foldl Assoc.addKey (Assoc.keys (item uri ps)) := by
  induction paths generalizing ps with
  | nil => rfl
  | cons path paths ih =>
    have hsplit : methodsAt uri ((path :: paths).flatMap writes) =
        methodsAt uri (writes path) ++ methodsAt uri (paths.flatMap writes) := by
      simp [methodsAt, List.filter_append]
    show Assoc.keys (item uri (putAll paths (putPath ps path))) = _
    rw [ih, putPath, keys_item_run, item_ensureItem, hsplit, List.foldl_append]

section

variable {paths paths' : List (String × List (String × Value))} {ps : Entries}

theorem item_putAll_perm (h : paths.Perm paths')
    (hlast : ∀ k, Store.last k (paths.flatMap writes) = Store.last k (paths'.flatMap writes))
    (uri : Value) (ps : Entries) :
    Assoc.Alike Eq (item uri (putAll paths ps)) (item uri (putAll paths' ps)) := by
  constructor
  · rw [keys_item_putAll_eq, keys_item_putAll_eq]
    exact Assoc.foldl_addKey_perm (((h.flatMap_right writes).filter _).map _) (List.Perm.refl _)
  · intro method
    have hget := get?_putAll (uri, method) paths ps
    rw [hlast, ← get?_putAll (uri, method) paths' ps] at hget
    exact Assoc.rel_eq hget

/-- A path item that was missing or a mapping is a mapping at last. -/
theorem get?_putAll_of_own {uri : Value} (h : ∀ v, Assoc.get? uri ps = some v → v.IsOwnMap)
    (hmem : uri ∈ Assoc.keys (putAll paths ps)) :
    Assoc.get? uri (putAll paths ps) = some (.map none (item uri (putAll paths ps))) := by
  obtain ⟨v, hv⟩ := Option.isSome_iff_exists.mp ((Assoc.isSome_get?_iff _ _).mpr hmem)
  obtain ⟨es, rfl⟩ := ((grows_putAll paths ps).made uri v hv).elim id (h v)
  rw [hv, item_eq_of_get? hv]

/-- Operations written in another order, with the same one last under each uri and method. -/
theorem putAll_perm (h : paths.Perm paths')
    (hlast : ∀ k, Store.last k (paths.flatMap writes) = Store.last k (paths'.flatMap writes))
    (hw : ∀ path ∈ paths, path.2 = [] ∨ Writable path.1 ps) :
    Assoc.Alike (Value.Reordered Eq) (putAll paths ps) (putAll paths' ps) := by
  have hkeys : (Assoc.keys (putAll paths ps)).Perm (Assoc.keys (putAll paths' ps)) := by
    rw [keys_putAll, keys_putAll]
    exact Assoc.foldl_addKey_perm (h.map _) (List.Perm.refl _)
  refine ⟨hkeys, fun uri => ?_⟩
  by_cases hown : ∀ v, Assoc.get? uri ps = some v → v.IsOwnMap
  · by_cases hmem : uri ∈ Assoc.keys (putAll paths ps)
    · rw [get?_putAll_of_own hown hmem, get?_putAll_of_own hown (hkeys.subset hmem)]
      exact .some (.map none (item_putAll_perm h hlast uri ps))
    · have hmem' : uri ∉ Assoc.keys (putAll paths' ps) := fun hm => hmem (hkeys.symm.subset hm)
      rw [(Assoc.get?_eq_none_iff _ _).mpr hmem, (Assoc.get?_eq_none_iff _ _).mpr hmem']
      exact .none
  · -- What is no mapping is written to by neither.
    simp only [not_forall] at hown
    obtain ⟨v, hv, hown⟩ := hown
    rw [get?_putAll_of_not_own hv hown hw,
      get?_putAll_of_not_own hv hown fun path hp => hw path (h.symm.subset hp)]
    exact .some (.refl v)

end

/-! ## What all path items have in common -/

/-- All path items have a property. -/
def Every (P : Value → Prop) (ps : Entries) : Prop := ∀ e ∈ ps, P e.2

theorem Every.get? {P : Value → Prop} {ps : Entries} (h : Every P ps) {uri v : Value}
    (hv : Assoc.get? uri ps = some v) : P v :=
  h _ (Assoc.mem_of_get? hv)

variable {P : Value → Prop} (hP : ∀ es, P (.map none es))
include hP

theorem Every.put {ps : Entries} (h : Every P ps) (k : Value × Value) (o : Value) :
    Every P (put k o ps) := by
  intro e he
  rcases Assoc.mem_set he with rfl | he
  · exact hP _
  · exact h e he

theorem Every.run {ps : Entries} (h : Every P ps) (ws : List ((Value × Value) × Value)) :
    Every P (operations.run ws ps) := by
  induction ws generalizing ps with
  | nil => exact h
  | cons w ws ih => exact ih (h.put hP w.1 w.2)

theorem Every.ensureItem {ps : Entries} (h : Every P ps) (uri : String) :
    Every P (ensureItem uri ps) := by
  unfold Paths.ensureItem
  split
  · exact h
  · intro e he
    rcases Assoc.mem_set he with rfl | he
    · exact hP _
    · exact h e he

theorem Every.putPath {ps : Entries} (h : Every P ps) (path : String × List (String × Value)) :
    Every P (putPath ps path) :=
  (h.ensureItem hP path.1).run hP _

theorem Every.putAll {ps : Entries} (h : Every P ps)
    (paths : List (String × List (String × Value))) : Every P (putAll paths ps) := by
  induction paths generalizing ps with
  | nil => exact h
  | cons path paths ih => exact ih (h.putPath hP path)

end Paths

end AnnotatedApi
