/-
  Values written under keys, one after another. A `Store` is anything that can be read and
  written key by key; the entries of a mapping are one (`Store.entries`). After a run of writes
  there stands under each key the last value written, or else what stood there before
  (`get?_run`). If under each key of a run its last value stands already, the run changes
  nothing at all, even if it writes other values on the way (`run_eq_self`); so a run that is
repeated changes nothing (`run_run`).
-/
import AnnotatedApi.Proofs.Assoc

namespace AnnotatedApi

structure Store (κ ν σ : Type) [DecidableEq κ] where
  get? : κ → σ → Option ν
  put : κ → ν → σ → σ
  get?_put : ∀ k k' a s, get? k' (put k a s) = if k = k' then some a else get? k' s
  put_put : ∀ k a b s, put k a (put k b s) = put k a s
  put_comm : ∀ k k' a b s, k ≠ k' → (get? k s).isSome → put k' b (put k a s) = put k a (put k' b s)
  put_get? : ∀ k a s, get? k s = some a → put k a s = s

namespace Store

variable {κ ν σ : Type} [DecidableEq κ]

/-- The entries of a mapping. -/
def entries : Store κ ν (List (κ × ν)) where
  get? := Assoc.get?
  put := Assoc.set
  get?_put := Assoc.get?_set
  put_put := Assoc.set_set
  put_comm _ _ a b _ hne h := Assoc.set_comm hne a b ((Assoc.isSome_get?_iff _ _).mp h)
  put_get? _ _ _ h := Assoc.set_eq_self h

/-- The last value that a run of writes has for a key. -/
def last (k : κ) (ws : List (κ × ν)) : Option ν := Assoc.get? k ws.reverse

@[simp] theorem last_nil (k : κ) : last k ([] : List (κ × ν)) = none := rfl

theorem last_append (k : κ) (vs ws : List (κ × ν)) :
    last k (vs ++ ws) = (last k ws).or (last k vs) := by
  rw [last, List.reverse_append, Assoc.get?_append]
  rfl

theorem last_cons (k : κ) (w : κ × ν) (ws : List (κ × ν)) :
    last k (w :: ws) = (last k ws).or (if w.1 = k then some w.2 else none) :=
  last_append k [w] ws

/-- The last value of several runs is that of the last of them that has one. -/
theorem last_flatMap {γ : Type} {k : κ} {f : γ → List (κ × ν)} {g : γ → Option ν} {xs : List γ}
    (h : ∀ x ∈ xs, last k (f x) = g x) : last k (xs.flatMap f) = xs.reverse.findSome? g := by
  induction xs with
  | nil => rfl
  | cons x xs ih =>
    rw [List.flatMap_cons, last_append, ih fun y hy => h y (List.mem_cons_of_mem _ hy),
      h x List.mem_cons_self, List.reverse_cons, List.findSome?_append]
    simp

theorem isSome_last_iff (k : κ) (ws : List (κ × ν)) : (last k ws).isSome ↔ k ∈ Assoc.keys ws := by
  rw [last, Assoc.isSome_get?_iff]
  simp [Assoc.keys]

/-- In a mapping the last value under a key is the only one. -/
theorem last_of_nodup (k : κ) {ws : List (κ × ν)} (h : (Assoc.keys ws).Nodup) :
    last k ws = Assoc.get? k ws := by
  induction ws with
  | nil => rfl
  | cons w ws ih =>
    obtain ⟨k', a⟩ := w
    simp only [Assoc.keys, List.map_cons, List.nodup_cons] at h
    rw [last_cons, Assoc.get?_cons, ih h.2]
    by_cases hk : k' = k
    · subst hk
      rw [(Assoc.get?_eq_none_iff k' ws).mpr h.1]
      simp
    · simp [hk]

variable (S : Store κ ν σ)

/-- Values written one after another. -/
def run (ws : List (κ × ν)) (s : σ) : σ := ws.foldl (fun s w => S.put w.1 w.2 s) s

@[simp] theorem run_nil (s : σ) : S.run [] s = s := rfl

theorem run_cons (w : κ × ν) (ws : List (κ × ν)) (s : σ) :
    S.run (w :: ws) s = S.run ws (S.put w.1 w.2 s) := rfl

theorem get?_run (k : κ) (ws : List (κ × ν)) (s : σ) :
    S.get? k (S.run ws s) = (last k ws).or (S.get? k s) := by
  induction ws generalizing s with
  | nil => simp
  | cons w ws ih =>
    rw [run_cons, ih, S.get?_put, last_cons, Option.or_assoc]
    by_cases h : w.1 = k <;> simp [h]

/-- A value that is written over later need not be written, if its key is there. -/
theorem run_put (k : κ) (a : ν) {ws : List (κ × ν)} {s : σ} (hk : k ∈ Assoc.keys ws)
    (hs : (S.get? k s).isSome) : S.run ws (S.put k a s) = S.run ws s := by
  induction ws generalizing s with
  | nil => simp [Assoc.keys] at hk
  | cons w ws ih =>
    obtain ⟨k', b⟩ := w
    rw [run_cons, run_cons]
    by_cases h : k = k'
    · subst h
      rw [S.put_put]
    · simp only [Assoc.keys, List.map_cons, List.mem_cons] at hk
      rw [S.put_comm k k' a b s h hs]
      refine ih (hk.resolve_left h) ?_
      rw [S.get?_put]
      split
      · rfl
      · exact hs

theorem run_eq_self {ws : List (κ × ν)} {s : σ}
    (h : ∀ k ∈ Assoc.keys ws, S.get? k s = last k ws) : S.run ws s = s := by
  induction ws with
  | nil => rfl
  | cons w ws ih =>
    obtain ⟨k, a⟩ := w
    -- Writes of a key that comes again later do not count, so the rest has the same last values.
    have hrest : ∀ k' ∈ Assoc.keys ws, S.get? k' s = last k' ws := by
      intro k' hk'
      rw [h k' (List.mem_cons_of_mem _ hk'), last_cons]
      obtain ⟨b, hb⟩ := Option.isSome_iff_exists.mp ((isSome_last_iff k' ws).mpr hk')
      simp [hb]
    have hk := h k List.mem_cons_self
    rw [run_cons]
    by_cases hmem : k ∈ Assoc.keys ws
    · have hs : (S.get? k s).isSome := by
        rw [hrest k hmem]
        exact (isSome_last_iff k ws).mpr hmem
      rw [S.run_put k a hmem hs, ih hrest]
    · have hnone : last k ws = none := by
        rw [← Option.not_isSome_iff_eq_none, isSome_last_iff]
        exact hmem
      rw [last_cons, hnone] at hk
      rw [S.put_get? k a s (by simpa using hk), ih hrest]

/-- After a run its last values stand. -/
theorem get?_run_of_mem {k : κ} {ws : List (κ × ν)} (h : k ∈ Assoc.keys ws) (s : σ) :
    S.get? k (S.run ws s) = last k ws := by
  rw [S.get?_run, Option.or_of_isSome ((isSome_last_iff k ws).mpr h)]

theorem run_run (ws : List (κ × ν)) (s : σ) : S.run ws (S.run ws s) = S.run ws s :=
  S.run_eq_self fun _ hk => S.get?_run_of_mem hk s

end Store

end AnnotatedApi
