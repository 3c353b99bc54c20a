/-
  Mappings compared without the order of their keys. Two lists of entries are `Assoc.Alike` if
  they have the same keys and what stands under each key is related; for entries that stand in a
  value this is `Value.Reordered`. Where no key stands twice it is enough that look-ups give the
  same (`Alike.of_nodup`). Keys that are written stand in the order of their first appearance
  (`addKey`), so to write the same keys in another order only reorders them
  (`foldl_addKey_perm`), and runs with the same last values come to the same (`Alike.run`).
-/
import AnnotatedApi.Proofs.Store
import AnnotatedApi.Value
import Mathlib.Data.List.Perm.Basic

namespace AnnotatedApi

namespace Assoc

variable {κ κ' α : Type} [DecidableEq κ] [DecidableEq κ'] {R : α → α → Prop}

/-- One mapping, in whatever order its keys stand, with related values under each key. -/
structure Alike (R : α → α → Prop) (l l' : List (κ × α)) : Prop where
  keys : (keys l).Perm (keys l')
  get? : ∀ k, Option.Rel R (get? k l) (get? k l')

theorem rel_eq {a b : Option α} (h : a = b) : Option.Rel Eq a b := by
  subst h
  cases a with
  | none => exact .none
  | some a => exact .some rfl

theorem eq_of_rel {a b : Option α} (h : Option.Rel Eq a b) : a = b := by
  cases h with
  | none => rfl
  | some h => rw [h]

theorem Alike.single {a b : α} (h : R a b) (k : κ) : Alike R [(k, a)] [(k, b)] := by
  refine ⟨List.Perm.refl _, fun k' => ?_⟩
  rw [get?_cons, get?_cons]
  split
  · exact .some h
  · exact .none

theorem Alike.of_nodup {l l' : List (κ × α)} (hl : (Assoc.keys l).Nodup)
    (hl' : (Assoc.keys l').Nodup) (h : ∀ k, Assoc.get? k l = Assoc.get? k l') :
    Alike Eq l l' := by
  refine ⟨(List.perm_ext_iff_of_nodup hl hl').mpr fun k => ?_, fun k => rel_eq (h k)⟩
  rw [← isSome_get?_iff, ← isSome_get?_iff, h k]

/-- What stands in front of both counts for both. -/
theorem Alike.append_left {l l' : List (κ × α)} (h : Alike Eq l l') (m : List (κ × α)) :
    Alike Eq (m ++ l) (m ++ l') := by
  constructor
  · have hkeys := h.keys.append_left (Assoc.keys m)
    unfold Assoc.keys at hkeys ⊢
    rw [List.map_append, List.map_append]
    exact hkeys
  · intro k
    refine rel_eq ?_
    rw [get?_append, get?_append, eq_of_rel (h.get? k)]

/-- Keys seen through an injection. -/
theorem Alike.mapKeys {f : κ → κ'} (hf : Function.Injective f) {l l' : List (κ × α)}
    (h : Alike Eq l l') :
    Alike Eq (l.map fun e => (f e.1, e.2)) (l'.map fun e => (f e.1, e.2)) := by
  have hmap : ∀ m : List (κ × α),
      Assoc.keys (m.map fun e => (f e.1, e.2)) = (Assoc.keys m).map f := by
    intro m
    simp [Assoc.keys, Function.comp_def]
  constructor
  · rw [hmap, hmap]
    exact h.keys.map f
  · intro k
    refine rel_eq ?_
    by_cases hk : ∃ k', f k' = k
    · obtain ⟨k', rfl⟩ := hk
      have hget := fun m : List (κ × α) => get?_map hf id k' m
      simp only [id] at hget
      rw [hget, hget, eq_of_rel (h.get? k')]
    · have hnone : ∀ m : List (κ × α), Assoc.get? k (m.map fun e => (f e.1, e.2)) = none := by
        intro m
        rw [get?_eq_none_iff, hmap, List.mem_map]
        rintro ⟨k', -, he⟩
        exact hk ⟨k', he⟩
      rw [hnone, hnone]

/-! ## Keys in the order of their first appearance -/

/-- A key behind the others, unless it is one of them. -/
def addKey (ks : List κ) (k : κ) : List κ := if k ∈ ks then ks else ks ++ [k]

theorem addKey_perm {ks ks' : List κ} (h : ks.Perm ks') (k : κ) :
    (addKey ks k).Perm (addKey ks' k) := by
  unfold addKey
  by_cases hk : k ∈ ks
  · rw [if_pos hk, if_pos (h.subset hk)]
    exact h
  · rw [if_neg hk, if_neg fun hk' => hk (h.symm.subset hk')]
    exact h.append_right [k]

theorem addKey_addKey_perm (ks : List κ) (k k' : κ) :
    (addKey (addKey ks k) k').Perm (addKey (addKey ks k') k) := by
  by_cases heq : k = k'
  · rw [heq]
  by_cases hk : k ∈ ks <;> by_cases hk' : k' ∈ ks
  · simp [addKey, hk, hk']
  · simp [addKey, hk, hk']
  · simp [addKey, hk, hk']
  · -- Both are new, and stand in the order in which they came.
    have hswap : ([k] ++ [k']).Perm ([k'] ++ [k]) := List.perm_append_comm
    simpa [addKey, hk, hk', heq, Ne.symm heq] using hswap.append_left ks

theorem foldl_addKey_start (ms : List κ) {ks ks' : List κ} (h : ks.Perm ks') :
    (ms.foldl addKey ks).Perm (ms.foldl addKey ks') := by
  induction ms generalizing ks ks' with
  | nil => exact h
  | cons m ms ih => exact ih (addKey_perm h m)

theorem foldl_addKey_perm {ms ms' : List κ} (h : ms.Perm ms') {ks ks' : List κ}
    (hks : ks.Perm ks') : (ms.foldl addKey ks).Perm (ms'.foldl addKey ks') := by
  induction h generalizing ks ks' with
  | nil => exact hks
  | cons k _ ih => exact ih (addKey_perm hks k)
  | swap k k' ms =>
    exact foldl_addKey_start ms
      ((addKey_addKey_perm ks k' k).trans (addKey_perm (addKey_perm hks k) k'))
  | trans _ _ ih ih' => exact (ih hks).trans (ih' (List.Perm.refl ks'))

theorem keys_run (ws l : List (κ × α)) :
    Assoc.keys (Store.entries.run ws l) = (Assoc.keys ws).foldl addKey (Assoc.keys l) := by
  induction ws generalizing l with
  | nil => rfl
  | cons w ws ih =>
    rw [Store.run_cons, ih]
    exact congrArg (fun ks => (Assoc.keys ws).foldl addKey ks) (keys_set w.1 w.2 l)

/-- Runs that write the same keys, with the same value last, come to the same. -/
theorem Alike.run {ws ws' : List (κ × α)} (hkeys : (Assoc.keys ws).Perm (Assoc.keys ws'))
    (hlast : ∀ k, Store.last k ws = Store.last k ws') (l : List (κ × α)) :
    Alike Eq (Store.entries.run ws l) (Store.entries.run ws' l) := by
  constructor
  · rw [keys_run, keys_run]
    exact foldl_addKey_perm hkeys (List.Perm.refl _)
  · intro k
    refine rel_eq ?_
    have hget := Store.entries.get?_run k ws l
    have hget' := Store.entries.get?_run k ws' l
    rw [hlast k] at hget
    exact hget.trans hget'.symm

end Assoc

/-- A value, or the same container with its entries or members in another order and related values
under each key. -/
inductive Value.Reordered (R : Value → Value → Prop) : Value → Value → Prop
  | refl (v : Value) : Reordered R v v
  | map (l : Option Label) {es es' : List (Value × Value)} (h : Assoc.Alike R es es') :
      Reordered R (.map l es) (.map l es')
  | set (l : Option Label) {vs vs' : List Value} (h : vs.Perm vs') :
      Reordered R (.set l vs) (.set l vs')

end AnnotatedApi
