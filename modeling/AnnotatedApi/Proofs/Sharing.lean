/-
  Sections whose containers may stand in several places. What merging writes to one place of an
  object is written to all its places, so a container that merging relies on may change when another
  one is written to. `Roles` names the objects that merging writes to by what they are: the paths
  and the path items, the list of groups and the groups, the definitions. If the roles are apart
  (`Roles.Apart`), an object in its new state suits all the places that it stands in (`Suits`), so a
  document that fits its roles goes on to fit them (`Entries.Fits.settle`), and it takes every
  contribution without an error (`Entries.Fits.entries`).

  Sections take every contribution if they are of the right kinds and no group is one object with
  the paths, a path item or the definitions (`Sections.Open`). The path items may be one object with
  the definitions, and so may the paths. With labels as they are in what was read, the other roles
  are apart by themselves: a list is no mapping, and no mapping stands in itself
  (`Sections.Open.apart_roles`).
-/
import AnnotatedApi.Proofs.Groups
import AnnotatedApi.Proofs.Sizes
import AnnotatedApi.Proofs.Yaml.Objects

namespace AnnotatedApi

/-! ## An object in a new state -/

namespace Value

/-- The value, when the object `new` has taken its new state. -/
def after (new v : Value) : Value :=
  match new.label? with
  | none => v
  | some l => rebind l new v

variable {new v : Value}

theorem label?_after (new v : Value) : (after new v).label? = v.label? := by
  unfold after
  cases hnew : new.label? with
  | none => rfl
  | some l =>
    cases v with
    | pair a b => rfl
    | list m vs =>
      dsimp only [rebind]
      split
      · next h => rw [h, hnew]; rfl
      · rfl
    | map m es =>
      dsimp only [rebind]
      split
      · next h => rw [h, hnew]; rfl
      · rfl
    | _ =>
      dsimp only [rebind]
      split
      · next h => rw [h, hnew]
      · rfl

theorem after_of_same (h : Same new v) : after new v = new := by
  obtain ⟨hsome, heq⟩ := h
  obtain ⟨l, hl⟩ := Option.isSome_iff_exists.mp hsome
  rw [hl] at heq
  rw [after, hl]
  cases v with
  | pair a b => cases heq
  | list m vs => exact if_pos heq.symm
  | map m es => exact if_pos heq.symm
  | _ => exact if_pos heq.symm

@[simp] theorem after_self (v : Value) : after v v = v := by
  cases h : v.label? with
  | none => rw [after, h]
  | some l => exact after_of_same ⟨by rw [h]; rfl, rfl⟩

@[simp] theorem after_str (new : Value) (s : String) : after new (.str s) = .str s := by
  unfold after
  cases new.label? <;> rfl

@[simp] theorem after_illFormed (new : Value) (ps : List Nat) :
    after new (.illFormed ps) = .illFormed ps := by
  unfold after
  cases new.label? <;> rfl

theorem rebindEntries_eq_map (l : Label) (new : Value) (es : Entries) :
    rebindEntries l new es = es.map fun e => (e.1, rebind l new e.2) := by
  induction es with
  | nil => rfl
  | cons e es ih => rw [rebindEntries, ih, List.map_cons]

theorem rebindList_eq_map (l : Label) (new : Value) (vs : List Value) :
    rebindList l new vs = vs.map (rebind l new) := by
  induction vs with
  | nil => rfl
  | cons v vs ih => rw [rebindList, ih, List.map_cons]

/-- Another mapping stays what it is, but for what stands in it. -/
theorem after_map {m : Option Label} {es : Entries} (h : ¬ Same new (.map m es)) :
    after new (.map m es) = .map m (es.map fun e => (e.1, after new e.2)) := by
  unfold after
  cases hnew : new.label? with
  | none => simp
  | some l =>
    dsimp only [rebind]
    rw [if_neg fun hm => h ⟨by rw [hnew]; rfl, by rw [hnew, ← hm]; rfl⟩, rebindEntries_eq_map]

theorem after_list {m : Option Label} {vs : List Value} (h : ¬ Same new (.list m vs)) :
    after new (.list m vs) = .list m (vs.map (after new)) := by
  unfold after
  cases hnew : new.label? with
  | none => simp
  | some l =>
    dsimp only [rebind]
    rw [if_neg fun hm => h ⟨by rw [hnew]; rfl, by rw [hnew, ← hm]; rfl⟩, rebindList_eq_map]

theorem after_set {m : Option Label} {vs : List Value} (h : ¬ Same new (.set m vs)) :
    after new (.set m vs) = .set m vs := by
  unfold after
  cases hnew : new.label? with
  | none => rfl
  | some l => exact if_neg fun hm => h ⟨by rw [hnew]; rfl, by rw [hnew]; exact hm.symm⟩

end Value

open Value

namespace Entries

variable {d : Entries} {key key' : String} {v : Value}

theorem get?_settle (v : Value) (d : Entries) (key : String) :
    get? key (settle v d) = (d.get? key).map (after v) := by
  unfold settle after
  cases v.label? with
  | none => simp
  | some l => exact get?_rebindEntries l v (.str key) d

theorem get?_set_self (key : String) (v : Value) (d : Entries) :
    (d.set key v).get? key = some v := by
  have hput : get? key (Assoc.set (.str key) v d) = some v := get?_put_self key v d
  rw [set, get?_settle, hput, Option.map_some, after_self]

theorem get?_set_of_ne (h : key ≠ key') (v : Value) (d : Entries) :
    (d.set key v).get? key' = (d.get? key').map (after v) := by
  have hput : get? key' (Assoc.set (.str key) v d) = d.get? key' := get?_put_of_ne h v d
  rw [set, get?_settle, hput]

theorem ensure_of_get? (h : d.get? key = some v) (w : Value) : d.ensure key w = d := by
  rw [ensure, h]
  rfl

end Entries

/-- What can be sorted as a group is a mapping. -/
theorem Finish.isMap_of_sortKey {v : Value} (h : ∃ k, sortKey v = .ok k) : v.IsMap := by
  obtain ⟨k, hk⟩ := h
  cases v with
  | map l es => exact ⟨l, es, rfl⟩
  | _ => cases hk

/-! ## Roles -/

/-- The labels of the objects that merging writes to. -/
structure Roles where
  paths : Option Label
  items : List Label
  tags : Option Label
  groups : List Label
  definitions : Option Label

namespace Roles

/-- The list of groups is nothing else, a group is neither paths nor a path item nor definitions,
and the paths are no path item. -/
structure Apart (r : Roles) : Prop where
  tags : ∀ l, r.tags = some l → r.paths ≠ some l ∧ l ∉ r.items ∧ l ∉ r.groups ∧
    r.definitions ≠ some l
  groups : ∀ l ∈ r.groups, r.paths ≠ some l ∧ l ∉ r.items ∧ r.definitions ≠ some l
  items : ∀ l ∈ r.items, r.paths ≠ some l

/-- A path item: a mapping. -/
structure IsItem (r : Roles) (v : Value) : Prop where
  map : v.IsMap
  label : ∀ l, v.label? = some l → l ∈ r.items

/-- A mapping of path items. -/
def IsPaths (r : Roles) (v : Value) : Prop :=
  ∃ ps, v = .map r.paths ps ∧ ∀ e ∈ ps, r.IsItem e.2

/-- A group that can be sorted. -/
structure IsGroup (r : Roles) (v : Value) : Prop where
  sortable : ∃ k, Finish.sortKey v = .ok k
  label : ∀ l, v.label? = some l → l ∈ r.groups

def IsTags (r : Roles) (v : Value) : Prop :=
  ∃ ts, v = .list r.tags ts ∧ ∀ t ∈ ts, r.IsGroup t

/-- A mapping, or a set that is no path item. -/
def IsDefinitions (r : Roles) (v : Value) : Prop :=
  (∃ es, v = .map r.definitions es) ∨
    (∃ vs, v = .set r.definitions vs) ∧ ∀ l ∈ r.items, r.definitions ≠ some l

/-- The new state of an object suits every role that the object has. -/
structure Suits (r : Roles) (new : Value) : Prop where
  item : ∀ l ∈ r.items, new.label? = some l → r.IsItem new
  paths : ∀ l, new.label? = some l → r.paths = some l → r.IsPaths new
  group : ∀ l ∈ r.groups, new.label? = some l → r.IsGroup new
  tags : ∀ l, new.label? = some l → r.tags = some l → r.IsTags new
  definitions : ∀ l, new.label? = some l → r.definitions = some l → r.IsDefinitions new

variable {r : Roles} {new v : Value}

/-! ### What stands in a place, when an object has taken its new state -/

theorem IsItem.after (hs : r.Suits new) (h : r.IsItem v) : r.IsItem (after new v) := by
  by_cases hsame : Same new v
  · rw [after_of_same hsame]
    obtain ⟨l, hnew, hv⟩ := same_label hsame
    exact hs.item l (h.label l hv) hnew
  · refine ⟨?_, fun l hl => h.label l (by rwa [label?_after] at hl)⟩
    obtain ⟨l, es, rfl⟩ := h.map
    exact ⟨l, _, after_map hsame⟩

theorem IsPaths.after (hs : r.Suits new) (h : r.IsPaths v) : r.IsPaths (after new v) := by
  by_cases hsame : Same new v
  · rw [after_of_same hsame]
    obtain ⟨l, hnew, hv⟩ := same_label hsame
    obtain ⟨ps, rfl, -⟩ := h
    exact hs.paths l hnew hv
  · obtain ⟨ps, rfl, hps⟩ := h
    refine ⟨_, after_map hsame, fun e he => ?_⟩
    obtain ⟨e, hmem, rfl⟩ := List.mem_map.mp he
    exact (hps e hmem).after hs

/-- The name of another mapping stays: a text is no object. -/
theorem sortable_after {k : Finish.SortKey} (hsame : ¬ Same new v)
    (h : Finish.sortKey v = .ok k) : Finish.sortKey (Value.after new v) = .ok k := by
  cases v with
  | map m es =>
    rw [after_map hsame]
    change Finish.keyOfName ((Assoc.get? (.str "name") es).getD (.str "")) = .ok k at h
    show Finish.keyOfName ((Assoc.get? (.str "name")
      (es.map fun e => (e.1, Value.after new e.2))).getD (.str "")) = .ok k
    rw [Assoc.get?_mapValues]
    cases hname : Assoc.get? (.str "name") es with
    | none => rwa [hname] at h
    | some name =>
      rw [hname] at h
      cases name with
      | str s => simpa using h
      | illFormed ps => simpa using h
      | _ => cases h
  | _ => cases h

theorem IsGroup.after (hs : r.Suits new) (h : r.IsGroup v) : r.IsGroup (after new v) := by
  by_cases hsame : Same new v
  · rw [after_of_same hsame]
    obtain ⟨l, hnew, hv⟩ := same_label hsame
    exact hs.group l (h.label l hv) hnew
  · obtain ⟨k, hk⟩ := h.sortable
    exact ⟨⟨k, sortable_after hsame hk⟩, fun l hl => h.label l (by rwa [label?_after] at hl)⟩

theorem IsTags.after (hs : r.Suits new) (h : r.IsTags v) : r.IsTags (after new v) := by
  by_cases hsame : Same new v
  · rw [after_of_same hsame]
    obtain ⟨l, hnew, hv⟩ := same_label hsame
    obtain ⟨ts, rfl, -⟩ := h
    exact hs.tags l hnew hv
  · obtain ⟨ts, rfl, hts⟩ := h
    refine ⟨_, after_list hsame, fun t ht => ?_⟩
    obtain ⟨t, hmem, rfl⟩ := List.mem_map.mp ht
    exact (hts t hmem).after hs

theorem IsDefinitions.after (hs : r.Suits new) (h : r.IsDefinitions v) :
    r.IsDefinitions (after new v) := by
  by_cases hsame : Same new v
  · rw [after_of_same hsame]
    obtain ⟨l, hnew, hv⟩ := same_label hsame
    refine hs.definitions l hnew ?_
    rcases h with ⟨es, rfl⟩ | ⟨⟨vs, rfl⟩, -⟩
    · exact hv
    · exact hv
  · rcases h with ⟨es, rfl⟩ | ⟨⟨vs, rfl⟩, hitems⟩
    · exact Or.inl ⟨_, after_map hsame⟩
    · exact Or.inr ⟨⟨_, after_set hsame⟩, hitems⟩

/-! ### What has one role suits the others -/

theorem IsPaths.suits (ha : r.Apart) (h : r.IsPaths v) : r.Suits v := by
  have hpaths := h
  obtain ⟨ps, rfl, -⟩ := h
  exact
    { item := fun l hl hv => absurd hv (ha.items l hl)
      paths := fun _ _ _ => hpaths
      group := fun l hl hv => absurd hv (ha.groups l hl).1
      tags := fun l hv ht => absurd hv (ha.tags l ht).1
      definitions := fun l hv hx => Or.inl ⟨ps, by rw [hx]; exact congrArg (Value.map · ps) hv⟩ }

theorem IsItem.suits (ha : r.Apart) (h : r.IsItem v) : r.Suits v where
  item _ _ _ := h
  paths l hv hp := absurd hp (ha.items l (h.label l hv))
  group l hl hv := absurd (h.label l hv) (ha.groups l hl).2.1
  tags l hv ht := absurd (h.label l hv) (ha.tags l ht).2.1
  definitions l hv hx := by
    obtain ⟨m, es, rfl⟩ := h.map
    exact Or.inl ⟨es, by rw [hx]; exact congrArg (Value.map · es) hv⟩

theorem IsGroup.suits (ha : r.Apart) (h : r.IsGroup v) : r.Suits v where
  item l hl hv := absurd hl (ha.groups l (h.label l hv)).2.1
  paths l hv hp := absurd hp (ha.groups l (h.label l hv)).1
  group _ _ _ := h
  tags l hv ht := absurd (h.label l hv) (ha.tags l ht).2.2.1
  definitions l hv hx := absurd hx (ha.groups l (h.label l hv)).2.2

theorem IsTags.suits (ha : r.Apart) (h : r.IsTags v) : r.Suits v := by
  have htags := h
  obtain ⟨ts, rfl, -⟩ := h
  exact
    { item := fun l hl hv => absurd hl (ha.tags l hv).2.1
      paths := fun l hv hp => absurd hp (ha.tags l hv).1
      group := fun l hl hv => absurd hl (ha.tags l hv).2.2.1
      tags := fun _ _ _ => htags
      definitions := fun l hv hx => absurd hx (ha.tags l hv).2.2.2 }

theorem IsPaths.label? (h : r.IsPaths v) : v.label? = r.paths := by
  obtain ⟨ps, rfl, -⟩ := h
  rfl

theorem IsDefinitions.label? (h : r.IsDefinitions v) : v.label? = r.definitions := by
  rcases h with ⟨es, rfl⟩ | ⟨⟨vs, rfl⟩, -⟩
  · rfl
  · rfl

/-- Definitions that are the paths as well must hold path items. -/
theorem IsDefinitions.suits (ha : r.Apart) (h : r.IsDefinitions v)
    (hpaths : ∀ l, v.label? = some l → r.paths = some l → r.IsPaths v) : r.Suits v := by
  have hlabel := h.label?
  refine ⟨fun l hl hv => ?_, hpaths, fun l hl hv => ?_, fun l hv ht => ?_, fun _ _ _ => h⟩
  · rcases h with ⟨es, rfl⟩ | ⟨-, hitems⟩
    · exact ⟨⟨_, es, rfl⟩, fun m hm => by rw [hv] at hm; cases hm; exact hl⟩
    · exact absurd (hlabel ▸ hv) (hitems l hl)
  · exact absurd (hlabel ▸ hv) (ha.groups l hl).2.2
  · exact absurd (hlabel ▸ hv) (ha.tags l ht).2.2.2

end Roles

/-! ## Documents that fit -/

open Roles

/-- The sections are there and have their roles; paths and definitions that are one object are
equal. -/
structure Entries.Fits (r : Roles) (d : Entries) : Prop where
  paths : ∃ v, d.get? "paths" = some v ∧ r.IsPaths v
  tags : ∃ v, d.get? "tags" = some v ∧ r.IsTags v
  definitions : ∃ v, d.get? "definitions" = some v ∧ r.IsDefinitions v
  one : ∀ l, r.paths = some l → r.definitions = some l → d.get? "definitions" = d.get? "paths"

namespace Entries.Fits

variable {r : Roles} {d : Entries} {v : Value}

/-- An object takes a new state that suits its roles. -/
theorem settle (h : d.Fits r) (hs : r.Suits v) : Entries.Fits r (Value.settle v d) := by
  obtain ⟨p, hp, hpaths⟩ := h.paths
  obtain ⟨t, ht, htags⟩ := h.tags
  obtain ⟨x, hx, hdefs⟩ := h.definitions
  refine ⟨⟨after v p, ?_, hpaths.after hs⟩, ⟨after v t, ?_, htags.after hs⟩,
    ⟨after v x, ?_, hdefs.after hs⟩, fun l hl hl' => ?_⟩
  · rw [get?_settle, hp, Option.map_some]
  · rw [get?_settle, ht, Option.map_some]
  · rw [get?_settle, hx, Option.map_some]
  · rw [get?_settle, get?_settle, h.one l hl hl']

theorem set_paths (ha : r.Apart) (h : d.Fits r) (hv : r.IsPaths v) : (d.set "paths" v).Fits r := by
  have hs := hv.suits ha
  obtain ⟨t, ht, htags⟩ := h.tags
  obtain ⟨x, hx, hdefs⟩ := h.definitions
  refine ⟨⟨v, get?_set_self _ _ _, hv⟩, ⟨after v t, ?_, htags.after hs⟩,
    ⟨after v x, ?_, hdefs.after hs⟩, fun l hl hl' => ?_⟩
  · rw [get?_set_of_ne (by decide), ht, Option.map_some]
  · rw [get?_set_of_ne (by decide), hx, Option.map_some]
  · rw [get?_set_self, get?_set_of_ne (by decide), hx, Option.map_some, after_of_same]
    exact ⟨by rw [hv.label?, hl]; rfl, by rw [hv.label?, hl, hdefs.label?, hl']⟩

theorem set_tags (ha : r.Apart) (h : d.Fits r) (hv : r.IsTags v) : (d.set "tags" v).Fits r := by
  have hs := hv.suits ha
  obtain ⟨p, hp, hpaths⟩ := h.paths
  obtain ⟨x, hx, hdefs⟩ := h.definitions
  refine ⟨⟨after v p, ?_, hpaths.after hs⟩, ⟨v, get?_set_self _ _ _, hv⟩,
    ⟨after v x, ?_, hdefs.after hs⟩, fun l hl hl' => ?_⟩
  · rw [get?_set_of_ne (by decide), hp, Option.map_some]
  · rw [get?_set_of_ne (by decide), hx, Option.map_some]
  · rw [get?_set_of_ne (by decide), get?_set_of_ne (by decide), h.one l hl hl']

/-- Definitions that are the paths as well must hold path items. -/
theorem set_definitions (ha : r.Apart) (h : d.Fits r) (hv : r.IsDefinitions v)
    (hone : ∀ l, r.paths = some l → r.definitions = some l → r.IsPaths v) :
    (d.set "definitions" v).Fits r := by
  have hs := hv.suits ha fun l hl hl' => hone l hl' (hv.label? ▸ hl)
  obtain ⟨p, hp, hpaths⟩ := h.paths
  obtain ⟨t, ht, htags⟩ := h.tags
  refine ⟨⟨after v p, ?_, hpaths.after hs⟩, ⟨after v t, ?_, htags.after hs⟩,
    ⟨v, get?_set_self _ _ _, hv⟩, fun l hl hl' => ?_⟩
  · rw [get?_set_of_ne (by decide), hp, Option.map_some]
  · rw [get?_set_of_ne (by decide), ht, Option.map_some]
  · rw [get?_set_self, get?_set_of_ne (by decide), hp, Option.map_some, after_of_same]
    exact ⟨by rw [hv.label?, hl']; rfl, by rw [hv.label?, hl', hpaths.label?, hl]⟩

end Entries.Fits

/-! ## Merging -/

namespace Merge

variable {r : Roles} {d : Entries}

/-- There is a path item under a uri. -/
def HasItem (uri : String) (d : Entries) : Prop := (item? uri d).isSome = true

/-- A mapping put under a uri is there, and the document fits again. -/
theorem fits_setItem (ha : r.Apart) (h : d.Fits r) (uri : String) {item : Value}
    (hitem : r.IsItem item) : (setItem uri item d).Fits r ∧ HasItem uri (setItem uri item d) := by
  obtain ⟨p, hp, hpaths⟩ := h.paths
  obtain ⟨ps, rfl, hps⟩ := hpaths
  have hput : r.IsPaths (.map r.paths (Assoc.set (.str uri) item ps)) := by
    refine ⟨_, rfl, fun e he => ?_⟩
    rcases Assoc.mem_set he with rfl | he
    · exact hitem
    · exact hps e he
  have hs := hitem.suits ha
  have hfits := (h.set_paths ha hput).settle hs
  have hget : Entries.get? "paths" (Value.settle item
      (d.set "paths" (.map r.paths (Assoc.set (.str uri) item ps)))) =
        some (.map r.paths
          ((Assoc.set (.str uri) item ps).map fun e => (e.1, after item e.2))) := by
    rw [Entries.get?_settle, Entries.get?_set_self, Option.map_some, after_map]
    intro hsame
    obtain ⟨l, hl, hl'⟩ := same_label hsame
    exact ha.items l (hitem.label l hl) hl'
  have heq : setItem uri item d = Entries.set "paths"
      (.map r.paths ((Assoc.set (.str uri) item ps).map fun e => (e.1, after item e.2)))
        (Value.settle item (d.set "paths" (.map r.paths (Assoc.set (.str uri) item ps)))) := by
    unfold setItem
    rw [hp]
    dsimp only
    rw [hget]
  obtain ⟨w, hw, hwpaths⟩ := hfits.paths
  obtain rfl := Option.some.inj (hget.symm.trans hw)
  rw [heq]
  refine ⟨hfits.set_paths ha hwpaths, ?_⟩
  rw [HasItem, item?, Entries.get?_set_self]
  dsimp only
  rw [Assoc.get?_mapValues, Assoc.get?_set_self]
  rfl

/-- The path item of a uri is a mapping with its role. -/
theorem isItem_of_item? (h : d.Fits r) {uri : String} {v : Value} (hv : item? uri d = some v) :
    r.IsItem v := by
  obtain ⟨p, hp, ps, rfl, hps⟩ := h.paths
  unfold item? at hv
  rw [hp] at hv
  exact hps _ (Assoc.mem_of_get? hv)

theorem fits_addOperation (ha : r.Apart) (uri : String) (op : String × Value)
    (h : d.Fits r ∧ HasItem uri d) :
    (addOperation uri d op).error = none ∧
      (addOperation uri d op).state.Fits r ∧ HasItem uri (addOperation uri d op).state := by
  obtain ⟨v, hv⟩ := Option.isSome_iff_exists.mp h.2
  have hitem := isItem_of_item? h.1 hv
  obtain ⟨l, es, rfl⟩ := hitem.map
  have hnew : r.IsItem (.map l (Assoc.set (.str op.1) op.2 es)) := ⟨⟨l, _, rfl⟩, hitem.label⟩
  unfold addOperation
  rw [hv]
  exact ⟨rfl, fits_setItem ha h.1 uri hnew⟩

theorem fits_addPath (ha : r.Apart) (path : String × List (String × Value)) (h : d.Fits r) :
    (addPath d path).error = none ∧ (addPath d path).state.Fits r := by
  obtain ⟨p, hp, ps, rfl, hps⟩ := h.paths
  unfold addPath
  rw [hp]
  dsimp only
  have hstart : Entries.Fits r (if (Assoc.get? (.str path.1) ps).isSome then d
      else setItem path.1 (.map none []) d) ∧
      HasItem path.1 (if (Assoc.get? (.str path.1) ps).isSome then d
        else setItem path.1 (.map none []) d) := by
    split
    · next hsome =>
      refine ⟨h, ?_⟩
      rw [HasItem, item?, hp]
      exact hsome
    · exact fits_setItem ha h path.1 ⟨⟨none, [], rfl⟩, fun l hl => by cases hl⟩
  have hstep : ∀ d, ∀ op ∈ path.2, d.Fits r ∧ HasItem path.1 d →
      (addOperation path.1 d op).error = none ∧
        (addOperation path.1 d op).state.Fits r ∧ HasItem path.1 (addOperation path.1 d op).state :=
    fun d op _ h => fits_addOperation ha path.1 op h
  obtain ⟨herror, hfits⟩ :=
    Edit.each_takes (P := fun d => d.Fits r ∧ HasItem path.1 d) hstep hstart
  exact ⟨herror, hfits.1⟩

/-- A group that borrows a description is a group. -/
theorem isGroup_describe {m : Option Label} {es : Entries} (h : r.IsGroup (.map m es))
    (text : String) : r.IsGroup (.map m (Assoc.set (.str "description") (.str text) es)) := by
  obtain ⟨k, hk⟩ := h.sortable
  have hkey := Groups.sortKey_withDescription text (.map m es)
  exact ⟨⟨k, hkey.trans hk⟩, h.label⟩

theorem isGroup_tagValue {tag : List (String × String)} (hd : Groups.Described tag) :
    r.IsGroup (tagValue tag) := by
  refine ⟨⟨_, Groups.sortKey_tagValue hd⟩, fun l hl => ?_⟩
  cases hl

theorem fits_describe (ha : r.Apart) {tag : List (String × String)} (hd : Groups.Described tag)
    (i : Nat) {tags : List Value} (h : d.Fits r) (htags : ∀ t ∈ tags, r.IsGroup t) :
    (describe tag r.tags i tags d).error = none ∧ (describe tag r.tags i tags d).state.Fits r := by
  obtain ⟨text, htext⟩ := Option.isSome_iff_exists.mp hd.2
  unfold describe
  split
  · next m es hi =>
    split
    · exact ⟨rfl, h⟩
    · rw [htext]
      dsimp only
      have hentry := isGroup_describe (htags _ (List.mem_of_getElem? hi)) text
      have hlist : r.IsTags (.list r.tags (tags.set i
          (.map m (Assoc.set (.str "description") (.str text) es)))) := by
        refine ⟨_, rfl, fun t ht => ?_⟩
        rcases List.mem_or_eq_of_mem_set ht with ht | rfl
        · exact htags t ht
        · exact hentry
      have hfits := (h.set_tags ha hlist).settle (hentry.suits ha)
      obtain ⟨v, hv, hvtags⟩ := hfits.tags
      rw [setTags, hv]
      exact ⟨rfl, hfits.set_tags ha hvtags⟩
  · exact ⟨rfl, h⟩

theorem fits_addTag (ha : r.Apart) (dedupe : Bool) {tag : List (String × String)}
    (hd : Groups.Described tag) (h : d.Fits r) :
    (addTag dedupe d tag).error = none ∧ (addTag dedupe d tag).state.Fits r := by
  obtain ⟨t, ht, ts, rfl, hts⟩ := h.tags
  have happended : Entries.Fits r (setTags (.list r.tags (ts ++ [tagValue tag])) d) := by
    refine h.set_tags ha ⟨_, rfl, fun t ht => ?_⟩
    rcases List.mem_append.mp ht with ht | ht
    · exact hts t ht
    · rw [List.mem_singleton.mp ht]
      exact isGroup_tagValue hd
  unfold addTag
  rw [ht]
  dsimp only
  cases dedupe with
  | false => exact ⟨rfl, happended⟩
  | true =>
    obtain ⟨known, hknown⟩ := knownFrom_of_maps hd (fun t ht => Finish.isMap_of_sortKey (hts t ht).sortable) 0
    rw [if_pos rfl, hknown]
    cases known with
    | none => exact ⟨rfl, happended⟩
    | some i => exact fits_describe ha hd i h hts

/-- Definitions of models put among those there are. -/
theorem mem_foldl_set {definitions : List (String × Value)} {es : Entries} {e : Value × Value}
    (he : e ∈ definitions.foldl (fun es e => Assoc.set (.str e.1) e.2 es) es) :
    e ∈ es ∨ ∃ x ∈ definitions, e.2 = x.2 := by
  induction definitions generalizing es with
  | nil => exact Or.inl he
  | cons x xs ih =>
    rcases ih he with he | ⟨y, hy, heq⟩
    · rcases Assoc.mem_set he with rfl | he
      · exact Or.inr ⟨x, List.mem_cons_self, rfl⟩
      · exact Or.inl he
    · exact Or.inr ⟨y, List.mem_cons_of_mem _ hy, heq⟩

theorem fits_addDefinitions (ha : r.Apart) {definitions : List (String × Value)}
    (hdefs : ∀ e ∈ definitions, e.2.IsOwnMap) (h : d.Fits r) :
    (addDefinitions definitions d).error = none ∧
      (addDefinitions definitions d).state.Fits r := by
  obtain ⟨x, hx, hrole⟩ := h.definitions
  unfold addDefinitions
  rw [hx]
  rcases hrole with ⟨es, rfl⟩ | ⟨⟨vs, rfl⟩, hitems⟩
  · refine ⟨rfl, h.set_definitions ha (Or.inl ⟨_, rfl⟩) fun l hl hl' => ?_⟩
    obtain ⟨p, hp, ps, rfl, hps⟩ := h.paths
    have hone := h.one l hl hl'
    rw [hx, hp] at hone
    obtain ⟨-, rfl⟩ := Value.map.inj (Option.some.inj hone)
    refine ⟨_, by rw [hl, hl'], fun e he => ?_⟩
    rcases mem_foldl_set he with he | ⟨y, hy, heq⟩
    · exact hps e he
    · obtain ⟨ys, hys⟩ := hdefs y hy
      rw [heq, hys]
      exact ⟨⟨none, ys, rfl⟩, fun l hl => by cases hl⟩
  · refine ⟨rfl, h.set_definitions ha (Or.inr ⟨⟨_, rfl⟩, hitems⟩) fun l hl hl' => ?_⟩
    obtain ⟨p, hp, ps, rfl, hps⟩ := h.paths
    have hone := h.one l hl hl'
    rw [hx, hp] at hone
    exact Value.noConfusion (Option.some.inj hone)

end Merge

/-- **A document that fits takes every contribution**, without an error, and fits again. -/
theorem Entries.Fits.entries {r : Roles} {d : Entries} (ha : r.Apart) (h : d.Fits r)
    {c : Contribution} (hdesc : ∀ t ∈ c.tags, Groups.Described t)
    (hdefs : ∀ e ∈ c.definitions, e.2.IsOwnMap) (dedupe : Bool) :
    (Merge.entries dedupe c d).error = none ∧ (Merge.entries dedupe c d).state.Fits r := by
  unfold Merge.entries
  refine Edit.andThen_takes (P := Entries.Fits r)
    (Edit.andThen_takes (P := Entries.Fits r) ?_ fun d h => ?_) fun d h => ?_
  · obtain ⟨p, hp, -⟩ := h.paths
    rw [Entries.ensure_of_get? hp]
    exact Edit.each_takes (fun d path _ h => Merge.fits_addPath ha path h) h
  · obtain ⟨t, ht, -⟩ := h.tags
    rw [Entries.ensure_of_get? ht]
    exact Edit.each_takes (fun d tag htag h => Merge.fits_addTag ha dedupe (hdesc tag htag) h) h
  · obtain ⟨x, hx, -⟩ := h.definitions
    rw [Entries.ensure_of_get? hx]
    exact Merge.fits_addDefinitions ha hdefs h

/-! ## The roles of coherent sections -/

def Value.IsSet (v : Value) : Prop := ∃ l vs, v = .set l vs

/-- No label in a value. -/
def Value.Bare (v : Value) : Prop := ∀ w, Stands w v → w.label? = none

theorem Value.bare_map : (Value.map none []).Bare := by
  intro w hw
  cases hw with
  | here => rfl
  | value he _ => cases he

theorem Value.bare_list : (Value.list none []).Bare := by
  intro w hw
  cases hw with
  | here => rfl
  | item hv _ => cases hv

theorem Value.bare_str (s : String) : (Value.str s).Bare := by
  intro w hw
  cases hw
  rfl

/-- Under a key of the skeleton stands what the base definition has there, or something without
labels. -/
theorem Skeleton.get?_entries (key : String) (d : Entries) :
    (entries d).get? key = d.get? key ∨ ∃ v, (entries d).get? key = some v ∧ v.Bare := by
  have hput : ∀ (d' : Entries) (key' : String) (v : Value), v.Bare →
      (d'.get? key = d.get? key ∨ ∃ w, d'.get? key = some w ∧ w.Bare) →
      ((d'.put key' v).get? key = d.get? key ∨
        ∃ w, (d'.put key' v).get? key = some w ∧ w.Bare) := by
    intro d' key' v hv h
    by_cases hk : key' = key
    · subst hk
      exact Or.inr ⟨v, Entries.get?_put_self key' v d', hv⟩
    · rw [Entries.get?_put_of_ne hk]
      exact h
  have hfill : ∀ (d' : Entries) (key' : String) (empty : Value), empty.Bare →
      (d'.get? key = d.get? key ∨ ∃ w, d'.get? key = some w ∧ w.Bare) →
      ((fill empty d' key').get? key = d.get? key ∨
        ∃ w, (fill empty d' key').get? key = some w ∧ w.Bare) := by
    intro d' key' empty hempty h
    unfold fill
    split
    · exact h
    · exact hput d' key' empty hempty h
  refine hfill _ "tags" _ bare_list ?_
  refine List.foldlRecOn (motive := fun d' : Entries =>
    d'.get? key = d.get? key ∨ ∃ v, d'.get? key = some v ∧ v.Bare) sections _ ?_
    fun d' h key' _ => hfill d' key' _ bare_map h
  exact hput d "swagger" _ (bare_str _) (Or.inl rfl)

namespace Sections

/-- A value stands in the sections. -/
def Has (s : Sections) (v : Value) : Prop :=
  Stands v s.paths ∨ Stands v s.tags ∨ Stands v s.definitions

/-- What stands under one label in the sections is everywhere the same. -/
def Coherent (s : Sections) : Prop := ∀ a b, s.Has a → s.Has b → Same a b → a = b

/-- The containers that operations and models are put into. -/
def targets (s : Sections) : List Value :=
  s.paths :: s.definitions :: s.paths.entries.map Prod.snd

/-- Sections that take any contribution. Whether they have anchors does not matter, but that no
group is an object that operations or models are put into as well: with one that is called `name`,
the groups could not be sorted any more. -/
structure Open (s : Sections) : Prop where
  paths : s.paths.IsMap
  items : ∀ e ∈ s.paths.entries, e.2.IsMap
  tags : ∃ l ts, s.tags = .list l ts
  groups : ∀ t ∈ s.tags.items, ∃ k, Finish.sortKey t = .ok k
  definitions : s.definitions.IsMap ∨ s.definitions.IsSet
  apart : ∀ t ∈ s.tags.items, ∀ v ∈ s.targets, ¬ Same t v

/-- The labels of the objects in the sections, by their roles. -/
def roles (s : Sections) : Roles where
  paths := s.paths.label?
  items := s.paths.entries.filterMap fun e => e.2.label?
  tags := s.tags.label?
  groups := s.tags.items.filterMap Value.label?
  definitions := s.definitions.label?

variable {s : Sections}

theorem has_item {e : Value × Value} (he : e ∈ s.paths.entries) : s.Has e.2 := by
  left
  cases hp : s.paths with
  | map l ps =>
    rw [hp] at he
    exact .value he .here
  | _ =>
    rw [hp] at he
    cases he

theorem has_group {t : Value} (ht : t ∈ s.tags.items) : s.Has t := by
  right; left
  cases htags : s.tags with
  | list l ts =>
    rw [htags] at ht
    exact .item ht .here
  | _ =>
    rw [htags] at ht
    cases ht

/-- The list of groups is no other object. -/
theorem Open.ne_of_label (h : s.Open) (hc : s.Coherent) {l : Label} (hl : s.tags.label? = some l)
    {v : Value} (hv : s.Has v) (hkind : v.IsMap ∨ v.IsSet) : v.label? ≠ some l := by
  intro heq
  have hsame : Same s.tags v := ⟨by rw [hl]; rfl, hl.trans heq.symm⟩
  obtain ⟨m, ts, hts⟩ := h.tags
  have hval := hc _ _ (Or.inr (Or.inl .here)) hv hsame
  rw [hts] at hval
  rcases hkind with ⟨_, _, rfl⟩ | ⟨_, _, rfl⟩
  · cases hval
  · cases hval

/-- Sections that take any contribution keep their roles apart. -/
theorem Open.apart_roles (h : s.Open) (hc : s.Coherent) : s.roles.Apart where
  tags l hl := by
    refine ⟨h.ne_of_label hc hl (Or.inl .here) (Or.inl h.paths), fun hmem => ?_, fun hmem => ?_,
      h.ne_of_label hc hl (Or.inr (Or.inr .here)) h.definitions⟩
    · obtain ⟨e, he, hel⟩ := List.mem_filterMap.mp hmem
      exact h.ne_of_label hc hl (has_item he) (Or.inl (h.items e he)) hel
    · obtain ⟨t, ht, htl⟩ := List.mem_filterMap.mp hmem
      exact h.ne_of_label hc hl (has_group ht)
        (Or.inl (Finish.isMap_of_sortKey (h.groups t ht))) htl
  groups l hl := by
    obtain ⟨t, ht, htl⟩ := List.mem_filterMap.mp hl
    have hne : ∀ v ∈ s.targets, v.label? ≠ some l := fun v hv heq =>
      h.apart t ht v hv ⟨by rw [htl]; rfl, htl.trans heq.symm⟩
    refine ⟨hne _ (by simp [targets]), fun hmem => ?_, hne _ (by simp [targets])⟩
    obtain ⟨e, he, hel⟩ := List.mem_filterMap.mp hmem
    refine hne e.2 ?_ hel
    exact List.mem_cons_of_mem _ (List.mem_cons_of_mem _ (List.mem_map_of_mem he))
  items l hl heq := by
    obtain ⟨e, he, hel⟩ := List.mem_filterMap.mp hl
    obtain ⟨m, ps, hps⟩ := h.paths
    have hcp : (Value.map m ps).Coherent := fun a b ha hb =>
      hc a b (Or.inl (hps ▸ ha)) (Or.inl (hps ▸ hb))
    have hsame : Same e.2 s.paths := ⟨by rw [hel]; rfl, hel.trans heq.symm⟩
    rw [hps] at he hsame
    exact not_same_value hcp he hsame

theorem Open.isPaths (h : s.Open) : s.roles.IsPaths s.paths := by
  obtain ⟨m, ps, hps⟩ := h.paths
  refine ⟨ps, by rw [roles, hps]; rfl, fun e he => ?_⟩
  have hmem : e ∈ s.paths.entries := by
    rw [hps]
    exact he
  exact ⟨h.items e hmem, fun l hl => List.mem_filterMap.mpr ⟨e, hmem, hl⟩⟩

theorem Open.isTags (h : s.Open) : s.roles.IsTags s.tags := by
  obtain ⟨m, ts, hts⟩ := h.tags
  refine ⟨ts, by rw [roles, hts]; rfl, fun t ht => ?_⟩
  have hmem : t ∈ s.tags.items := by
    rw [hts]
    exact ht
  exact ⟨h.groups t hmem, fun l hl => List.mem_filterMap.mpr ⟨t, hmem, hl⟩⟩

theorem Open.isDefinitions (h : s.Open) (hc : s.Coherent) :
    s.roles.IsDefinitions s.definitions := by
  rcases h.definitions with ⟨m, es, hes⟩ | ⟨m, vs, hvs⟩
  · exact Or.inl ⟨es, by rw [roles, hes]; rfl⟩
  · refine Or.inr ⟨⟨vs, by rw [roles, hvs]; rfl⟩, fun l hl heq => ?_⟩
    obtain ⟨e, he, hel⟩ := List.mem_filterMap.mp hl
    obtain ⟨m', es, hes⟩ := h.items e he
    have hone := hc _ _ (has_item he) (Or.inr (Or.inr .here))
      ⟨by rw [hel]; rfl, hel.trans heq.symm⟩
    rw [hes, hvs] at hone
    cases hone

/-- A document with such sections fits its roles. -/
theorem Open.fits {d : Entries} (h : (of d).Open) (hc : (of d).Coherent)
    (hd : Skeleton.Skeletal d) : d.Fits (of d).roles := by
  obtain ⟨p, hp, -⟩ := hd.sections "paths" (by decide)
  obtain ⟨t, ht, -⟩ := hd.tags
  obtain ⟨x, hx, -⟩ := hd.sections "definitions" (by decide)
  have hpaths := paths_of hp
  have hdefs := definitions_of hx
  refine ⟨⟨p, hp, hpaths ▸ h.isPaths⟩, ⟨t, ht, tags_of ht ▸ h.isTags⟩,
    ⟨x, hx, hdefs ▸ h.isDefinitions hc⟩, fun l hl hl' => ?_⟩
  have hone := hc _ _ (Or.inr (Or.inr .here)) (Or.inl .here)
    ⟨by rw [show (of d).definitions.label? = some l from hl']; rfl, hl'.trans hl.symm⟩
  rw [hx, hp, ← hdefs, ← hpaths, hone]

/-- Sections that are those of a coherent value, or have no labels, are coherent. -/
theorem coherent_of_get? {l : Option Label} {d d' : Entries} (h : (Value.map l d).Coherent)
    (hd : ∀ key, d'.get? key = d.get? key ∨ ∃ v, d'.get? key = some v ∧ v.Bare) :
    (of d').Coherent := by
  have hsection : ∀ key default, Value.Bare default → ∀ w, Stands w (d'.getD key default) →
      w.label?.isSome = true → Stands w (.map l d) := by
    intro key default hbare w hw hsome
    have hno : ∀ v : Value, v.Bare → ¬ Stands w v := by
      intro v hv hw
      rw [hv w hw] at hsome
      cases hsome
    unfold Entries.getD at hw
    rcases hd key with hget | ⟨v, hget, hv⟩
    · rw [hget] at hw
      cases hkey : d.get? key with
      | none =>
        rw [hkey] at hw
        exact absurd hw (hno _ hbare)
      | some v =>
        rw [hkey] at hw
        exact .value (Assoc.mem_of_get? hkey) hw
    · rw [hget] at hw
      exact absurd hw (hno v hv)
  have hhas : ∀ w, (of d').Has w → w.label?.isSome = true → Stands w (.map l d) := by
    rintro w (hw | hw | hw) hsome
    · exact hsection "paths" _ bare_map w hw hsome
    · exact hsection "tags" _ bare_list w hw hsome
    · exact hsection "definitions" _ bare_map w hw hsome
  intro a b ha hb hsame
  exact h a b (hhas a ha hsame.1) (hhas b hb (hsame.2 ▸ hsame.1)) hsame

end Sections

end AnnotatedApi
