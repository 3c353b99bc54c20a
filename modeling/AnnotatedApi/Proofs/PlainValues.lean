/-
  Plain values: null, truth values, integers that can be written, texts, lists, and mappings whose
  keys are texts and pairwise different. These are the values that both notations of a document can
  say. A notation says nothing about which objects are one and the same, so what is read back is
  the value without its labels (`unlabelled`); a value without shared containers has none to lose
  (`unlabelled_of_isTree`).
-/
import AnnotatedApi.Proofs.Skeleton
import AnnotatedApi.Value.Spelled

namespace AnnotatedApi.Value

def isText : Value → Bool
  | .str _ => true
  | _ => false

theorem eq_str_of_isText {v : Value} (h : v.isText = true) : ∃ s, v = .str s := by
  cases v <;> simp_all [isText]

mutual

def isPlain : Value → Bool
  | .null | .bool _ | .str _ => true
  | .int n => writable n
  | .list _ vs => isPlainList vs
  | .map _ es => decide (es.map Prod.fst).Nodup && isPlainEntries es
  | _ => false

def isPlainList : List Value → Bool
  | [] => true
  | v :: vs => v.isPlain && isPlainList vs

def isPlainEntries : List (Value × Value) → Bool
  | [] => true
  | (k, v) :: es => k.isText && v.isPlain && isPlainEntries es

end

mutual

/-- A value without the labels of its objects. -/
def unlabelled : Value → Value
  | .date _ d => .date none d
  | .moment _ t => .moment none t
  | .pair a b => .pair a.unlabelled b.unlabelled
  | .list _ vs => .list none (unlabelledList vs)
  | .set _ vs => .set none (unlabelledList vs)
  | .map _ es => .map none (unlabelledEntries es)
  | v => v

def unlabelledList : List Value → List Value
  | [] => []
  | v :: vs => v.unlabelled :: unlabelledList vs

def unlabelledEntries : List (Value × Value) → List (Value × Value)
  | [] => []
  | (k, v) :: es => (k.unlabelled, v.unlabelled) :: unlabelledEntries es

end

mutual

theorem unlabelled_of_isTree : (v : Value) → (v.isPlain = true → v.isTree = true → v.unlabelled = v)
  | .null | .bool _ | .int _ | .str _ => fun _ _ => by rw [unlabelled] <;> simp
  | .float _ | .illFormed _ | .bytes _ | .date .. | .moment .. | .pair .. | .set .. => fun hp => by
    simp [isPlain] at hp
  | .list l vs => fun hp ht => by
    simp only [isTree, Bool.and_eq_true, Option.isNone_iff_eq_none] at ht
    rw [isPlain] at hp
    rw [unlabelled, ht.1, unlabelledList_of_isTree vs hp ht.2]
  | .map l es => fun hp ht => by
    simp only [isTree, Bool.and_eq_true, Option.isNone_iff_eq_none] at ht
    simp only [isPlain, Bool.and_eq_true] at hp
    rw [unlabelled, ht.1, unlabelledEntries_of_isTree es hp.2 ht.2]

theorem unlabelledList_of_isTree : (vs : List Value) →
    (isPlainList vs = true → isTreeList vs = true → unlabelledList vs = vs)
  | [] => fun _ _ => by rw [unlabelledList]
  | v :: vs => fun hp ht => by
    simp only [isPlainList, Bool.and_eq_true] at hp
    simp only [isTreeList, Bool.and_eq_true] at ht
    rw [unlabelledList, unlabelled_of_isTree v hp.1 ht.1, unlabelledList_of_isTree vs hp.2 ht.2]

theorem unlabelledEntries_of_isTree : (es : List (Value × Value)) →
    (isPlainEntries es = true → isTreeEntries es = true → unlabelledEntries es = es)
  | [] => fun _ _ => by rw [unlabelledEntries]
  | (k, v) :: es => fun hp ht => by
    simp only [isPlainEntries, Bool.and_eq_true] at hp
    simp only [isTreeEntries, Bool.and_eq_true] at ht
    obtain ⟨s, rfl⟩ := eq_str_of_isText hp.1.1
    rw [unlabelledEntries, unlabelled_of_isTree v hp.1.2 ht.1.2,
      unlabelledEntries_of_isTree es hp.2 ht.2]
    rfl

end

/-- The keys of plain entries are texts, so they have no labels. -/
theorem keys_unlabelledEntries {es : List (Value × Value)} (h : isPlainEntries es = true) :
    (unlabelledEntries es).map Prod.fst = es.map Prod.fst := by
  induction es with
  | nil => rw [unlabelledEntries]
  | cons e es ih =>
    obtain ⟨k, v⟩ := e
    simp only [isPlainEntries, Bool.and_eq_true] at h
    obtain ⟨s, rfl⟩ := eq_str_of_isText h.1.1
    rw [unlabelledEntries, List.map_cons, List.map_cons, ih h.2]
    rfl

end AnnotatedApi.Value
