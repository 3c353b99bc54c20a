/-
  Values that a format can write. An integer has to be short enough in both; in JSON the keys of a
  mapping are texts, numbers, truth values or null, and no text holds half a character
  (`Value.writableIn`). Such a value is written (`exists_render_yaml`, `exists_render_json`), and
  what makes a document keeps it so: the labels of objects, an object that takes a new state in all
  its places, an entry that is set.
-/
import AnnotatedApi.Document.File
import AnnotatedApi.Proofs.Assoc
import AnnotatedApi.Value.Share
import AnnotatedApi.Value.WellFormed

namespace AnnotatedApi

namespace Value

/-- Whether JSON can write a key. -/
def isJsonKey : Value → Bool
  | .str _ | .null | .bool _ | .float _ => true
  | .int n => writable n
  | _ => false

/-- Whether a key can be written in a format. -/
def keyWritableIn : Format → Value → Bool
  | .yaml, k => k.spellable
  | .json, k => k.isJsonKey

mutual

/-- Whether a value can be written in a format. The members of a set are spelled out. -/
def writableIn (f : Format) : Value → Bool
  | .int n => writable n
  | .illFormed _ => f = .yaml
  | .pair a b => a.writableIn f && b.writableIn f
  | .list _ vs => writableInList f vs
  | .set _ vs => spellableList vs
  | .map _ es => writableInEntries f es
  | _ => true

def writableInList (f : Format) : List Value → Bool
  | [] => true
  | v :: vs => v.writableIn f && writableInList f vs

def writableInEntries (f : Format) : List (Value × Value) → Bool
  | [] => true
  | (k, v) :: es => keyWritableIn f k && v.writableIn f && writableInEntries f es

end

variable {f : Format}

theorem writableInList_iff (f : Format) (vs : List Value) :
    writableInList f vs = true ↔ ∀ v ∈ vs, v.writableIn f = true := by
  induction vs with
  | nil => simp [writableInList]
  | cons v vs ih => simp [writableInList, ih]

theorem writableInEntries_iff (f : Format) (es : List (Value × Value)) :
    writableInEntries f es = true ↔
      ∀ e ∈ es, keyWritableIn f e.1 = true ∧ e.2.writableIn f = true := by
  induction es with
  | nil => simp [writableInEntries]
  | cons e es ih =>
    obtain ⟨k, v⟩ := e
    simp [writableInEntries, ih]

theorem spellableList_append {vs ws : List Value} (hv : spellableList vs = true)
    (hw : spellableList ws = true) : spellableList (vs ++ ws) = true := by
  induction vs with
  | nil => exact hw
  | cons v vs ih =>
    simp only [spellableList, Bool.and_eq_true] at hv
    simp only [List.cons_append, spellableList, Bool.and_eq_true]
    exact ⟨hv.1, ih hv.2⟩

theorem spellable_of_isJsonKey {k : Value} (h : k.isJsonKey = true) : k.spellable = true := by
  cases k with
  | int n => exact h
  | _ => first | rfl | cases h

theorem spellable_of_keyWritableIn {k : Value} (h : keyWritableIn f k = true) :
    k.spellable = true := by
  cases f with
  | yaml => exact h
  | json => exact spellable_of_isJsonKey h

@[simp] theorem keyWritableIn_str (f : Format) (s : String) : keyWritableIn f (.str s) = true := by
  cases f <;> rfl

@[simp] theorem writableIn_str (f : Format) (s : String) : (Value.str s).writableIn f = true := by
  rw [writableIn] <;> simp

theorem writableIn_object {fields : List (String × Value)}
    (h : ∀ e ∈ fields, e.2.writableIn f = true) : (Value.object fields).writableIn f = true := by
  rw [object, writableIn, writableInEntries_iff]
  intro e he
  obtain ⟨field, hfield, rfl⟩ := List.mem_map.mp he
  exact ⟨keyWritableIn_str f field.1, h field hfield⟩

theorem writableIn_array {items : List Value} (h : ∀ v ∈ items, v.writableIn f = true) :
    (Value.array items).writableIn f = true := by
  rw [array, writableIn, writableInList_iff]
  exact h

/-! ## Writing -/

mutual

theorem spellable_of_writableIn : (v : Value) → (v.writableIn f = true → v.spellable = true)
  | .int _ => id
  | .pair a b => fun h => by
    simp only [writableIn, Bool.and_eq_true] at h
    simp only [spellable, Bool.and_eq_true]
    exact ⟨spellable_of_writableIn a h.1, spellable_of_writableIn b h.2⟩
  | .list _ vs => fun h => by
    rw [writableIn] at h
    rw [spellable]
    exact spellableList_of_writableInList vs h
  | .set _ vs => fun h => by
    rw [writableIn] at h
    rw [spellable]
    exact h
  | .map _ es => fun h => by
    rw [writableIn] at h
    rw [spellable]
    exact spellableEntries_of_writableInEntries es h
  | .null | .bool _ | .float _ | .str _ | .illFormed _ | .bytes _ | .date .. | .moment .. =>
    fun _ => by rw [spellable] <;> simp

theorem spellableList_of_writableInList : (vs : List Value) →
    (writableInList f vs = true → spellableList vs = true)
  | [] => fun _ => rfl
  | v :: vs => fun h => by
    simp only [writableInList, Bool.and_eq_true] at h
    simp only [spellableList, Bool.and_eq_true]
    exact ⟨spellable_of_writableIn v h.1, spellableList_of_writableInList vs h.2⟩

theorem spellableEntries_of_writableInEntries : (es : List (Value × Value)) →
    (writableInEntries f es = true → spellableEntries es = true)
  | [] => fun _ => rfl
  | (k, v) :: es => fun h => by
    simp only [writableInEntries, Bool.and_eq_true] at h
    simp only [spellableEntries, Bool.and_eq_true]
    exact ⟨⟨spellable_of_keyWritableIn h.1.1, spellable_of_writableIn v h.1.2⟩,
      spellableEntries_of_writableInEntries es h.2⟩

end

mutual

theorem wellFormed_of_writableIn : (v : Value) → (v.writableIn .json = true → v.wellFormed = true)
  | .illFormed _ => fun h => by
    rw [writableIn] at h
    cases h
  | .pair a b => fun h => by
    simp only [writableIn, Bool.and_eq_true] at h
    simp only [wellFormed, Bool.and_eq_true]
    exact ⟨wellFormed_of_writableIn a h.1, wellFormed_of_writableIn b h.2⟩
  | .list _ vs => fun h => by
    rw [writableIn] at h
    rw [wellFormed]
    exact wellFormedList_of_writableInList vs h
  | .map _ es => fun h => by
    rw [writableIn] at h
    rw [wellFormed]
    exact wellFormedEntries_of_writableInEntries es h
  | .null | .bool _ | .int _ | .float _ | .str _ | .bytes _ | .date .. | .moment .. | .set .. =>
    fun _ => by rw [wellFormed] <;> simp

theorem wellFormedList_of_writableInList : (vs : List Value) →
    (writableInList .json vs = true → wellFormedList vs = true)
  | [] => fun _ => rfl
  | v :: vs => fun h => by
    simp only [writableInList, Bool.and_eq_true] at h
    simp only [wellFormedList, Bool.and_eq_true]
    exact ⟨wellFormed_of_writableIn v h.1, wellFormedList_of_writableInList vs h.2⟩

theorem wellFormedEntries_of_writableInEntries : (es : List (Value × Value)) →
    (writableInEntries .json es = true → wellFormedEntries es = true)
  | [] => fun _ => rfl
  | (k, v) :: es => fun h => by
    simp only [writableInEntries, Bool.and_eq_true] at h
    simp only [wellFormedEntries, Bool.and_eq_true]
    refine ⟨⟨?_, wellFormed_of_writableIn v h.1.2⟩, wellFormedEntries_of_writableInEntries es h.2⟩
    cases k with
    | illFormed ps => cases h.1.1
    | pair a b => cases h.1.1
    | list l vs => cases h.1.1
    | map l es => cases h.1.1
    | _ => rw [wellFormed] <;> simp

end

end Value

namespace Json

theorem exists_keyText {k : Value} (h : k.isJsonKey = true) : ∃ s, keyText k = .ok s := by
  cases k with
  | int n =>
    rw [Value.isJsonKey] at h
    rw [keyText, integerText, if_pos h]
    exact ⟨_, rfl⟩
  | null => exact ⟨_, rfl⟩
  | bool b => exact ⟨_, rfl⟩
  | float x => exact ⟨_, rfl⟩
  | str s => exact ⟨_, rfl⟩
  | _ => cases h

mutual

/-- A value that JSON can write is written. -/
theorem exists_valueText : (v : Value) → (v.writableIn .json = true →
    ∀ level, ∃ s, valueText level v = .ok s)
  | .null | .bool _ | .float _ | .str _ | .illFormed _ | .date .. | .moment .. => fun _ level => by
    rw [valueText]
    exact ⟨_, rfl⟩
  | .int n => fun h level => by
    rw [Value.writableIn] at h
    rw [valueText, integerText, if_pos h]
    exact ⟨_, rfl⟩
  | .bytes _ => fun _ level => by
    rw [valueText]
    exact ⟨_, rfl⟩
  | .set _ vs => fun h level => by
    rw [Value.writableIn] at h
    rw [valueText]
    exact ⟨_, if_pos (by rw [Value.spellable]; exact h)⟩
  | .pair a b => fun h level => by
    simp only [Value.writableIn, Bool.and_eq_true] at h
    obtain ⟨s, hs⟩ := exists_valueText a h.1 (level + 1)
    obtain ⟨s', hs'⟩ := exists_valueText b h.2 (level + 1)
    rw [valueText, hs, hs']
    exact ⟨_, rfl⟩
  | .list _ [] => fun _ level => by
    rw [valueText]
    exact ⟨_, rfl⟩
  | .list _ (v :: vs) => fun h level => by
    simp only [Value.writableIn, Value.writableInList, Bool.and_eq_true] at h
    obtain ⟨s, hs⟩ := exists_valueText v h.1 (level + 1)
    obtain ⟨s', hs'⟩ := exists_itemTexts vs h.2 (level + 1)
    rw [valueText]
    simp only [hs, hs']
    exact ⟨_, rfl⟩
  | .map _ [] => fun _ level => by
    rw [valueText]
    exact ⟨_, rfl⟩
  | .map _ ((k, v) :: es) => fun h level => by
    simp only [Value.writableIn, Value.writableInEntries, Bool.and_eq_true] at h
    obtain ⟨name, hname⟩ := exists_keyText h.1.1
    obtain ⟨s, hs⟩ := exists_valueText v h.1.2 (level + 1)
    obtain ⟨s', hs'⟩ := exists_entryTexts es h.2 (level + 1)
    rw [valueText]
    simp only [hname, hs, hs']
    exact ⟨_, rfl⟩

theorem exists_itemTexts : (vs : List Value) → (Value.writableInList .json vs = true →
    ∀ level, ∃ s, itemTexts level vs = .ok s)
  | [] => fun _ level => by
    rw [itemTexts]
    exact ⟨_, rfl⟩
  | v :: vs => fun h level => by
    simp only [Value.writableInList, Bool.and_eq_true] at h
    obtain ⟨s, hs⟩ := exists_valueText v h.1 level
    obtain ⟨s', hs'⟩ := exists_itemTexts vs h.2 level
    rw [itemTexts, hs, hs']
    exact ⟨_, rfl⟩

theorem exists_entryTexts : (es : List (Value × Value)) →
    (Value.writableInEntries .json es = true → ∀ level, ∃ s, entryTexts level es = .ok s)
  | [] => fun _ level => by
    rw [entryTexts]
    exact ⟨_, rfl⟩
  | (k, v) :: es => fun h level => by
    simp only [Value.writableInEntries, Bool.and_eq_true] at h
    obtain ⟨name, hname⟩ := exists_keyText h.1.1
    obtain ⟨s, hs⟩ := exists_valueText v h.1.2 level
    obtain ⟨s', hs'⟩ := exists_entryTexts es h.2 level
    rw [entryTexts, hname, hs, hs']
    exact ⟨_, rfl⟩

end

end Json

namespace Yaml.Anchors

theorem writable_again (a : Anchors) (l : Label) : (a.again l).writable = a.writable := by
  unfold again
  split <;> rfl

theorem writable_leaf (a : Anchors) (l : Option Label) : (a.leaf l).writable = a.writable := by
  unfold leaf
  split
  · rfl
  · split
    · exact writable_again a _
    · rfl

mutual

/-- An object that is met again is not gone through; all integers of the others can be written. -/
theorem writable_visit_of_spellable : (v : Value) → (v.spellable = true →
    ∀ a : Anchors, (a.visit v).writable = a.writable)
  | .null | .bool _ | .float _ | .str _ | .illFormed _ | .bytes _ => fun _ a => by
    rw [visit] <;> simp
  | .int n => fun h a => by
    rw [Value.spellable] at h
    simp only [visit, h, Bool.and_true]
  | .date l _ => fun _ a => by
    rw [visit]
    exact writable_leaf a l
  | .moment l _ => fun _ a => by
    rw [visit]
    exact writable_leaf a l
  | .pair v w => fun h a => by
    simp only [Value.spellable, Bool.and_eq_true] at h
    rw [visit, writable_visit_of_spellable w h.2, writable_visit_of_spellable v h.1]
  | .list l vs => fun h a => by
    rw [Value.spellable] at h
    unfold visit
    split
    · exact writable_visitList_of_spellable vs h a
    · split
      · exact writable_again a _
      · exact writable_visitList_of_spellable vs h _
  | .set l vs => fun h a => by
    rw [Value.spellable] at h
    unfold visit
    split
    · exact writable_visitList_of_spellable vs h a
    · split
      · exact writable_again a _
      · exact writable_visitList_of_spellable vs h _
  | .map l es => fun h a => by
    rw [Value.spellable] at h
    unfold visit
    split
    · exact writable_visitEntries_of_spellable es h a
    · split
      · exact writable_again a _
      · exact writable_visitEntries_of_spellable es h _

theorem writable_visitList_of_spellable : (vs : List Value) → (Value.spellableList vs = true →
    ∀ a : Anchors, (a.visitList vs).writable = a.writable)
  | [] => fun _ a => by rw [visitList]
  | v :: vs => fun h a => by
    simp only [Value.spellableList, Bool.and_eq_true] at h
    rw [visitList, writable_visitList_of_spellable vs h.2, writable_visit_of_spellable v h.1]

theorem writable_visitEntries_of_spellable : (es : List (Value × Value)) →
    (Value.spellableEntries es = true → ∀ a : Anchors, (a.visitEntries es).writable = a.writable)
  | [] => fun _ a => by rw [visitEntries]
  | (k, v) :: es => fun h a => by
    simp only [Value.spellableEntries, Bool.and_eq_true] at h
    rw [visitEntries, writable_visitEntries_of_spellable es h.2,
      writable_visit_of_spellable v h.1.2, writable_visit_of_spellable k h.1.1]

end

end Yaml.Anchors

/-- YAML can write any value whose integers are short enough. -/
theorem exists_render_yaml {d : Value} (h : d.spellable = true) :
    ∃ text, render .yaml d = .ok text := by
  have hwritable : (Yaml.Anchors.visit {} d).writable = true :=
    Yaml.Anchors.writable_visit_of_spellable d h {}
  unfold render Yaml.write
  simp only [hwritable, if_true]
  exact ⟨_, rfl⟩

theorem exists_render_json {d : Value} (h : d.writableIn .json = true) :
    ∃ text, render .json d = .ok text := by
  obtain ⟨s, hs⟩ := Json.exists_valueText d h 0
  unfold render Json.write
  simp only [hs]
  exact ⟨_, rfl⟩

/-! ## Objects in several places -/

namespace Value

mutual

theorem spellable_restored : (v : Value) → v.restored.spellable = v.spellable
  | .str s => by
    unfold restored
    split <;> simp [spellable]
  | .pair a b => by
    rw [restored, spellable, spellable, spellable_restored a, spellable_restored b]
  | .list _ vs => by
    rw [restored, spellable, spellable, spellableList_restored vs]
  | .set _ vs => by
    rw [restored, spellable, spellable, spellableList_restored vs]
  | .map _ es => by
    rw [restored, spellable, spellable, spellableEntries_restored es]
  | .null | .bool _ | .int _ | .float _ | .illFormed _ | .bytes _ | .date .. | .moment .. => by
    rw [restored] <;> simp

theorem spellableList_restored : (vs : List Value) →
    spellableList (restoredList vs) = spellableList vs
  | [] => rfl
  | v :: vs => by
    rw [restoredList, spellableList, spellableList, spellable_restored v,
      spellableList_restored vs]

theorem spellableEntries_restored : (es : List (Value × Value)) →
    spellableEntries (restoredEntries es) = spellableEntries es
  | [] => rfl
  | (k, v) :: es => by
    rw [restoredEntries, spellableEntries, spellableEntries, spellable_restored k,
      spellable_restored v, spellableEntries_restored es]

end

mutual

theorem spellable_relabel (pre : Label) : (v : Value) → (v.relabel pre).spellable = v.spellable
  | .pair a b => by
    rw [relabel, spellable, spellable, spellable_relabel pre a, spellable_relabel pre b]
  | .list _ vs => by
    rw [relabel, spellable, spellable, spellableList_relabel pre vs]
  | .set _ vs => by
    rw [relabel, spellable, spellable, spellableList_relabel pre vs]
  | .map _ es => by
    rw [relabel, spellable, spellable, spellableEntries_relabel pre es]
  | .date .. | .moment .. => by
    rw [relabel, spellable, spellable] <;> simp
  | .null | .bool _ | .int _ | .float _ | .str _ | .illFormed _ | .bytes _ => by
    rw [relabel] <;> simp

theorem spellableList_relabel (pre : Label) : (vs : List Value) →
    spellableList (relabelList pre vs) = spellableList vs
  | [] => rfl
  | v :: vs => by
    rw [relabelList, spellableList, spellableList, spellable_relabel pre v,
      spellableList_relabel pre vs]

theorem spellableEntries_relabel (pre : Label) : (es : List (Value × Value)) →
    spellableEntries (relabelEntries pre es) = spellableEntries es
  | [] => rfl
  | (k, v) :: es => by
    rw [relabelEntries, spellableEntries, spellableEntries, spellable_relabel pre k,
      spellable_relabel pre v, spellableEntries_relabel pre es]

end

theorem keyWritableIn_relabel (pre : Label) (k : Value) :
    keyWritableIn f (k.relabel pre) = keyWritableIn f k := by
  cases f with
  | yaml => exact spellable_relabel pre k
  | json => cases k <;> rfl

mutual

/-- Labels do not bear on what can be written. -/
theorem writableIn_relabel (pre : Label) : (v : Value) →
    (v.relabel pre).writableIn f = v.writableIn f
  | .pair a b => by
    rw [relabel, writableIn, writableIn, writableIn_relabel pre a, writableIn_relabel pre b]
  | .list _ vs => by
    rw [relabel, writableIn, writableIn, writableInList_relabel pre vs]
  | .set _ vs => by
    rw [relabel, writableIn, writableIn, spellableList_relabel pre vs]
  | .map _ es => by
    rw [relabel, writableIn, writableIn, writableInEntries_relabel pre es]
  | .date .. | .moment .. => by
    rw [relabel, writableIn, writableIn] <;> simp
  | .null | .bool _ | .int _ | .float _ | .str _ | .illFormed _ | .bytes _ => by
    rw [relabel] <;> simp

theorem writableInList_relabel (pre : Label) : (vs : List Value) →
    writableInList f (relabelList pre vs) = writableInList f vs
  | [] => rfl
  | v :: vs => by
    rw [relabelList, writableInList, writableInList, writableIn_relabel pre v,
      writableInList_relabel pre vs]

theorem writableInEntries_relabel (pre : Label) : (es : List (Value × Value)) →
    writableInEntries f (relabelEntries pre es) = writableInEntries f es
  | [] => rfl
  | (k, v) :: es => by
    rw [relabelEntries, writableInEntries, writableInEntries, keyWritableIn_relabel pre k,
      writableIn_relabel pre v, writableInEntries_relabel pre es]

end

theorem writableIn_named (l : Label) (v : Value) : (v.named l).writableIn f = v.writableIn f := by
  cases v with
  | list m vs => rw [named, writableIn, writableIn]
  | set m vs => rw [named, writableIn, writableIn]
  | map m es => rw [named, writableIn, writableIn]
  | _ => rfl

mutual

/-- A value in which an object takes a new state. -/
theorem writableIn_rebind {l : Label} {new : Value} (hnew : new.writableIn f = true) :
    (v : Value) → (v.writableIn f = true → (rebind l new v).writableIn f = true)
  | .pair a b => fun h => by
    simp only [writableIn, Bool.and_eq_true] at h
    simp only [rebind, writableIn, Bool.and_eq_true]
    exact ⟨writableIn_rebind hnew a h.1, writableIn_rebind hnew b h.2⟩
  | .list m vs => fun h => by
    unfold rebind
    split
    · exact hnew
    · rw [writableIn] at h ⊢
      exact writableInList_rebind hnew vs h
  | .map m es => fun h => by
    unfold rebind
    split
    · exact hnew
    · rw [writableIn] at h ⊢
      exact writableInEntries_rebind hnew es h
  | .null | .bool _ | .int _ | .float _ | .str _ | .illFormed _ | .bytes _ | .date .. | .moment ..
  | .set .. => fun h => by
    unfold rebind
    split
    · exact hnew
    · exact h

theorem writableInList_rebind {l : Label} {new : Value} (hnew : new.writableIn f = true) :
    (vs : List Value) → (writableInList f vs = true → writableInList f (rebindList l new vs) = true)
  | [] => fun _ => rfl
  | v :: vs => fun h => by
    simp only [writableInList, Bool.and_eq_true] at h
    simp only [rebindList, writableInList, Bool.and_eq_true]
    exact ⟨writableIn_rebind hnew v h.1, writableInList_rebind hnew vs h.2⟩

theorem writableInEntries_rebind {l : Label} {new : Value} (hnew : new.writableIn f = true) :
    (es : List (Value × Value)) →
      (writableInEntries f es = true → writableInEntries f (rebindEntries l new es) = true)
  | [] => fun _ => rfl
  | (k, v) :: es => fun h => by
    simp only [writableInEntries, Bool.and_eq_true] at h
    simp only [rebindEntries, writableInEntries, Bool.and_eq_true]
    exact ⟨⟨h.1.1, writableIn_rebind hnew v h.1.2⟩, writableInEntries_rebind hnew es h.2⟩

end

theorem writableInEntries_set {k v : Value} {es : List (Value × Value)}
    (h : writableInEntries f es = true) (hk : keyWritableIn f k = true)
    (hv : v.writableIn f = true) : writableInEntries f (Assoc.set k v es) = true := by
  rw [writableInEntries_iff] at h ⊢
  intro e he
  rcases Assoc.mem_set he with rfl | he
  · exact ⟨hk, hv⟩
  · exact h e he

theorem writableInEntries_settle {v : Value} {es : List (Value × Value)}
    (h : writableInEntries f es = true) (hv : v.writableIn f = true) :
    writableInEntries f (settle v es) = true := by
  unfold settle
  split
  · exact h
  · exact writableInEntries_rebind hv es h

/-- What stands in a mapping that can be written. -/
theorem writableIn_of_get? {k v : Value} {es : List (Value × Value)}
    (h : writableInEntries f es = true) (hv : Assoc.get? k es = some v) :
    v.writableIn f = true :=
  ((writableInEntries_iff f es).mp h _ (Assoc.mem_of_get? hv)).2

end Value

end AnnotatedApi
