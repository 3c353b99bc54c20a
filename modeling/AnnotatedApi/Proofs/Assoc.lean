/-
  More about ordered mappings. Writing an entry that is already there changes nothing
  (`set_eq_self`), of two entries written under one key the last counts (`set_set`), and keys
  stay different from one another (`nodup_keys_set`), also in a mapping of mappings
  (`NestedNodup`).
-/
import AnnotatedApi.Assoc
import Mathlib.Data.List.Nodup

namespace AnnotatedApi.Assoc

variable {κ κ' α β : Type} [DecidableEq κ] [DecidableEq κ']

theorem get?_eq_none_iff (k : κ) (l : List (κ × α)) : get? k l = none ↔ k ∉ keys l := by
  induction l with
  | nil => simp [keys]
  | cons e l ih =>
    obtain ⟨k', a⟩ := e
    simp only [keys] at ih
    by_cases h : k' = k
    · simp [get?_cons, keys, h]
    · simp [get?_cons, keys, h, ih, Ne.symm h]

theorem isSome_get?_iff (k : κ) (l : List (κ × α)) : (get? k l).isSome ↔ k ∈ keys l := by
  rw [Option.isSome_iff_ne_none, ne_eq, get?_eq_none_iff, not_not]

theorem mem_of_get? {k : κ} {a : α} {l : List (κ × α)} (h : get? k l = some a) : (k, a) ∈ l := by
  induction l with
  | nil => simp at h
  | cons e l ih =>
    obtain ⟨k', b⟩ := e
    rw [get?_cons] at h
    split at h
    · next e => simp_all
    · exact List.mem_cons_of_mem _ (ih h)

/-- Where no key stands twice every entry is found. -/
theorem get?_eq_some_iff {k : κ} {a : α} {l : List (κ × α)} (h : (keys l).Nodup) :
    get? k l = some a ↔ (k, a) ∈ l := by
  refine ⟨mem_of_get?, fun hmem => ?_⟩
  induction l with
  | nil => cases hmem
  | cons e l ih =>
    obtain ⟨k', b⟩ := e
    simp only [keys, List.map_cons, List.nodup_cons] at h
    rw [get?_cons]
    rcases List.mem_cons.mp hmem with heq | hmem
    · cases heq
      exact if_pos rfl
    · have hne : k' ≠ k := by
        rintro rfl
        exact h.1 (List.mem_map_of_mem hmem)
      rw [if_neg hne]
      exact ih h.2 hmem

/-- Writing what is there already changes nothing. -/
theorem set_eq_self {k : κ} {a : α} {l : List (κ × α)} (h : get? k l = some a) : set k a l = l := by
  induction l with
  | nil => simp at h
  | cons e l ih =>
    obtain ⟨k', b⟩ := e
    rw [get?_cons] at h
    by_cases hk : k' = k
    · simp_all [set]
    · rw [if_neg hk] at h
      simp [set, hk, ih h]

/-- The last of two entries written under one key counts. -/
theorem set_set (k : κ) (a b : α) (l : List (κ × α)) : set k a (set k b l) = set k a l := by
  induction l with
  | nil => simp [set]
  | cons e l ih =>
    obtain ⟨k', c⟩ := e
    by_cases h : k' = k
    · simp [set, h]
    · simp [set, h, ih]

/-- Entries written under two keys, one of which is there, can be written in either order. -/
theorem set_comm {k k' : κ} (hne : k ≠ k') (a b : α) {l : List (κ × α)} (h : k ∈ keys l) :
    set k' b (set k a l) = set k a (set k' b l) := by
  induction l with
  | nil => simp [keys] at h
  | cons e l ih =>
    obtain ⟨k₁, c⟩ := e
    by_cases h₁ : k₁ = k
    · subst h₁
      simp [set, hne]
    · have hl : k ∈ keys l := by
        simp only [keys, List.map_cons, List.mem_cons] at h
        exact h.resolve_left (Ne.symm h₁)
      by_cases h₂ : k₁ = k'
      · subst h₂
        simp [set, h₁]
      · simp [set, h₁, h₂, ih hl]

theorem get?_append (k : κ) (l m : List (κ × α)) : get? k (l ++ m) = (get? k l).or (get? k m) := by
  induction l with
  | nil => rfl
  | cons e l ih =>
    obtain ⟨k', a⟩ := e
    rw [List.cons_append, get?_cons, get?_cons, ih]
    split <;> rfl

/-- A new key goes to the end. -/
theorem set_of_notMem {k : κ} {a : α} {l : List (κ × α)} (h : k ∉ keys l) :
    set k a l = l ++ [(k, a)] := by
  induction l with
  | nil => rfl
  | cons e l ih =>
    simp only [keys, List.map_cons, List.mem_cons, not_or] at h
    simp [set, Ne.symm h.1, ih h.2]

theorem ofEntries_of_nodup {m : List (κ × α)} (h : (keys m).Nodup) : ofEntries m = m := by
  suffices hall : ∀ l, (keys (l ++ m)).Nodup → update l m = l ++ m from hall [] h
  intro l
  induction m generalizing l with
  | nil => intro _; simp [update]
  | cons e m ih =>
    intro hnodup
    have hnew : e.1 ∉ keys l := by
      simp only [keys, List.map_append, List.map_cons, List.nodup_append] at hnodup
      exact fun hmem => hnodup.2.2 e.1 hmem e.1 (by simp) rfl
    show update (set e.1 e.2 l) m = _
    rw [set_of_notMem hnew, ih (List.Nodup.of_cons h) (l ++ [e]) (by simpa using hnodup)]
    simp

theorem mem_keys_set {k k' : κ} {a : α} {l : List (κ × α)} :
    k' ∈ keys (set k a l) ↔ k' ∈ keys l ∨ k' = k := by
  rw [keys_set]
  split
  · next h =>
    refine ⟨Or.inl, ?_⟩
    rintro (hk | rfl)
    · exact hk
    · exact h
  · rw [List.mem_append, List.mem_singleton]

theorem nodup_keys_set (k : κ) (a : α) {l : List (κ × α)} (h : (keys l).Nodup) :
    (keys (set k a l)).Nodup := by
  rw [keys_set]
  split
  · exact h
  · next hk =>
    rw [List.nodup_append]
    refine ⟨h, by simp, ?_⟩
    intro x hx y hy
    simp only [List.mem_singleton] at hy
    rintro rfl
    exact hk (hy ▸ hx)

theorem nodup_keys_ofEntries (m : List (κ × α)) : (keys (ofEntries m)).Nodup :=
  List.foldlRecOn (motive := fun l => (keys l).Nodup) m _ List.nodup_nil
    fun _ hl e _ => nodup_keys_set e.1 e.2 hl

/-- Every entry after a `set` is the new one or was there before. -/
theorem mem_set {k : κ} {a : α} {l : List (κ × α)} {e : κ × α} (h : e ∈ set k a l) :
    e = (k, a) ∨ e ∈ l := by
  induction l with
  | nil => exact Or.inl (by simpa [set] using h)
  | cons e' l ih =>
    obtain ⟨k', b⟩ := e'
    by_cases hk : k' = k
    · subst hk
      simp only [set, if_true, List.mem_cons] at h
      rcases h with h | h
      · exact Or.inl h
      · exact Or.inr (List.mem_cons_of_mem _ h)
    · simp only [set, hk, if_false, List.mem_cons] at h
      rcases h with h | h
      · exact Or.inr (h ▸ List.mem_cons_self)
      · exact (ih h).imp_right (List.mem_cons_of_mem _)

/-- Every entry of an update was in one of the two mappings. -/
theorem mem_update {l m : List (κ × α)} {e : κ × α} (h : e ∈ update l m) : e ∈ l ∨ e ∈ m := by
  induction m generalizing l with
  | nil => exact Or.inl h
  | cons e' m ih =>
    rcases ih (l := set e'.1 e'.2 l) h with h | h
    · rcases mem_set h with rfl | h
      · exact Or.inr List.mem_cons_self
      · exact Or.inl h
    · exact Or.inr (List.mem_cons_of_mem _ h)

theorem mem_ofEntries {m : List (κ × α)} {e : κ × α} (h : e ∈ ofEntries m) : e ∈ m :=
  (mem_update h).resolve_left (by simp)

theorem erase_cons (k : κ) (e : κ × α) (l : List (κ × α)) :
    erase k (e :: l) = if e.1 = k then erase k l else e :: erase k l := by
  by_cases h : e.1 = k <;> simp [erase, h]

theorem erase_set (k : κ) (a : α) (l : List (κ × α)) : erase k (set k a l) = erase k l := by
  induction l with
  | nil => simp [set, erase]
  | cons e l ih =>
    obtain ⟨k', b⟩ := e
    rw [set, erase_cons]
    by_cases h : k' = k
    · rw [if_pos h, erase_cons, if_pos h, if_pos h]
    · rw [if_neg h, erase_cons, if_neg h, if_neg h, ih]

theorem erase_set_of_ne {k k' : κ} (hne : k' ≠ k) (a : α) (l : List (κ × α)) :
    erase k (set k' a l) = set k' a (erase k l) := by
  induction l with
  | nil => simp [set, erase, hne]
  | cons e l ih =>
    obtain ⟨k₁, b⟩ := e
    rw [set, erase_cons]
    by_cases h : k₁ = k
    · rw [if_neg (h ▸ hne.symm), erase_cons, if_pos h, if_pos h, ih]
    · rw [if_neg h, set]
      by_cases hk : k₁ = k'
      · rw [if_pos hk, if_pos hk, erase_cons, if_neg h]
      · rw [if_neg hk, if_neg hk, erase_cons, if_neg h, ih]

/-- What is written under a key does not count for the other keys. -/
theorem erase_update (k : κ) (l m : List (κ × α)) :
    erase k (update l m) = update (erase k l) (erase k m) := by
  unfold update
  induction m generalizing l with
  | nil => rfl
  | cons e m ih =>
    rw [List.foldl_cons, ih, erase_cons]
    by_cases h : e.1 = k
    · rw [if_pos h, ← h, erase_set]
    · rw [if_neg h, erase_set_of_ne h]
      rfl

/-- A mapping seen through an injection of its keys and a function of its values. -/
theorem get?_map {f : κ → κ'} (hf : Function.Injective f) (g : α → β) (k : κ) (l : List (κ × α)) :
    get? (f k) (l.map fun e => (f e.1, g e.2)) = (get? k l).map g := by
  induction l with
  | nil => rfl
  | cons e l ih =>
    obtain ⟨k', a⟩ := e
    simp only [List.map_cons, get?_cons, ih]
    by_cases h : k' = k
    · simp [h]
    · have : f k' ≠ f k := fun e => h (hf e)
      simp [h, this]

/-- The values of a mapping replaced. -/
theorem get?_mapValues (g : α → β) (k : κ) (l : List (κ × α)) :
    get? k (l.map fun e => (e.1, g e.2)) = (get? k l).map g :=
  get?_map (f := id) Function.injective_id g k l

omit [DecidableEq κ] in
theorem keys_mapValues (g : α → β) (l : List (κ × α)) :
    keys (l.map fun e => (e.1, g e.2)) = keys l := by
  simp [keys]

/-- A mapping of mappings in which no key stands twice beside itself. -/
def NestedNodup (l : List (κ × List (κ' × α))) : Prop :=
  (keys l).Nodup ∧ ∀ e ∈ l, (keys e.2).Nodup

omit [DecidableEq κ'] in
theorem NestedNodup.of_get? {l : List (κ × List (κ' × α))} (h : NestedNodup l) {k : κ}
    {m : List (κ' × α)} (hm : get? k l = some m) : (keys m).Nodup :=
  h.2 _ (mem_of_get? hm)

omit [DecidableEq κ'] in
theorem NestedNodup.set {l : List (κ × List (κ' × α))} (h : NestedNodup l) (k : κ)
    {m : List (κ' × α)} (hm : (keys m).Nodup) : NestedNodup (set k m l) := by
  refine ⟨nodup_keys_set k m h.1, ?_⟩
  intro e he
  rcases mem_set he with rfl | he
  · exact hm
  · exact h.2 e he

/-- An entry written into the mapping under a key, which is empty if it is new. -/
theorem get?_set_inner (k k' : κ) (j j' : κ') (a : α) (l : List (κ × List (κ' × α))) :
    (get? k' (Assoc.set k (Assoc.set j a ((get? k l).getD [])) l)).bind (get? j') =
      if k = k' ∧ j = j' then some a else (get? k' l).bind (get? j') := by
  rw [get?_set]
  by_cases hk : k = k'
  · subst hk
    rw [if_pos rfl, Option.bind_some, get?_set]
    by_cases hj : j = j'
    · rw [if_pos hj, if_pos ⟨rfl, hj⟩]
    · rw [if_neg hj, if_neg fun h => hj h.2]
      cases get? k l <;> rfl
  · rw [if_neg hk, if_neg fun h => hk h.1]

theorem NestedNodup.set_inner {l : List (κ × List (κ' × α))} (h : NestedNodup l) (k : κ) (j : κ')
    (a : α) : NestedNodup (Assoc.set k (Assoc.set j a ((get? k l).getD [])) l) := by
  refine h.set k (nodup_keys_set j a ?_)
  cases hk : get? k l with
  | none => exact List.nodup_nil
  | some m => exact h.of_get? hk

end AnnotatedApi.Assoc
