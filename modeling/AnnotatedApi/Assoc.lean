/-
  Mappings that keep the order in which their keys came: lists of entries with one entry per
  key. `set` replaces the value under a key in place and appends a new key, so the order of the
  keys is the order of their first appearance.
-/

namespace AnnotatedApi.Assoc

variable {κ α : Type} [DecidableEq κ]

def get? (k : κ) : List (κ × α) → Option α
  | [] => none
  | (k', a) :: l => if k' = k then some a else get? k l

def set (k : κ) (a : α) : List (κ × α) → List (κ × α)
  | [] => [(k, a)]
  | (k', b) :: l => if k' = k then (k', a) :: l else (k', b) :: set k a l

def erase (k : κ) (l : List (κ × α)) : List (κ × α) := l.filter fun e => e.1 ≠ k

def contains (k : κ) (l : List (κ × α)) : Bool := l.any fun e => e.1 = k

def keys (l : List (κ × α)) : List κ := l.map Prod.fst

/-- The entries of `m` written over those of `l`, in order. -/
def update (l m : List (κ × α)) : List (κ × α) := m.foldl (fun l e => set e.1 e.2 l) l

/-- The entries put together one after the other. -/
def ofEntries (m : List (κ × α)) : List (κ × α) := update [] m

@[simp] theorem get?_nil (k : κ) : get? k ([] : List (κ × α)) = none := rfl

theorem get?_cons (k k' : κ) (a : α) (l : List (κ × α)) :
    get? k ((k', a) :: l) = if k' = k then some a else get? k l := rfl

theorem get?_set (k k' : κ) (a : α) (l : List (κ × α)) :
    get? k' (set k a l) = if k = k' then some a else get? k' l := by
  induction l with
  | nil => simp [set, get?]
  | cons e l ih =>
    obtain ⟨k₁, b⟩ := e
    by_cases h : k₁ = k
    · subst h; simp only [set, if_true, get?]; split <;> rfl
    · simp only [set, h, if_false, get?, ih]; grind

@[simp] theorem get?_set_self (k : κ) (a : α) (l : List (κ × α)) : get? k (set k a l) = some a := by
  simp [get?_set]

theorem keys_set (k : κ) (a : α) (l : List (κ × α)) :
    keys (set k a l) = if k ∈ keys l then keys l else keys l ++ [k] := by
  induction l with
  | nil => simp [set, keys]
  | cons e l ih =>
    obtain ⟨k₁, b⟩ := e
    simp only [keys] at ih
    by_cases h : k₁ = k
    · subst h; simp [set, keys]
    · simp only [set, h, if_false, keys, List.map_cons, ih]; grind

theorem get?_erase (k k' : κ) (l : List (κ × α)) :
    get? k' (erase k l) = if k = k' then none else get? k' l := by
  induction l with
  | nil => simp [erase]
  | cons e l ih =>
    obtain ⟨k₁, b⟩ := e
    simp only [erase] at ih
    by_cases h : k₁ = k <;> simp only [erase, List.filter_cons, h, ne_eq, decide_not] <;>
      grind [get?]

end AnnotatedApi.Assoc
