/-
  Sections that can be counted. Contributions are put into mappings, lists and sets, which have a
  size, and where an object in several places takes a new state, that state is such a container
  again. So a section with a size keeps one through every step that makes a document, whether or not
  the step fails, and a section of the document without a size had none in the base definition
  (`Generator.isSizedAt_generateStamped`).
-/
import AnnotatedApi.Document.Stamp
import AnnotatedApi.Proofs.LastWriter
import AnnotatedApi.Proofs.Regeneration
import AnnotatedApi.Value.WellFormed

namespace AnnotatedApi

namespace Value

/-- Whether a value has a size. -/
def isSized (v : Value) : Bool := v.size?.isSome

theorem isSized_rebind {l : Label} {new v : Value} (hnew : new.isSized = true)
    (hv : v.isSized = true) : (rebind l new v).isSized = true := by
  cases v with
  | list m vs =>
    unfold rebind
    split
    · exact hnew
    · rfl
  | map m es =>
    unfold rebind
    split
    · exact hnew
    · rfl
  | set m vs =>
    unfold rebind
    split
    · exact hnew
    · rfl
  | pair a b => rfl
  | str s => exact hv
  | illFormed ps => exact hv
  | bytes bs => exact hv
  | _ => cases hv

theorem get?_rebindEntries (l : Label) (new k : Value) (es : List (Value × Value)) :
    Assoc.get? k (rebindEntries l new es) = (Assoc.get? k es).map (rebind l new) := by
  induction es with
  | nil => rfl
  | cons e es ih =>
    obtain ⟨k', v⟩ := e
    rw [rebindEntries, Assoc.get?_cons, Assoc.get?_cons, ih]
    split <;> rfl

theorem isSized_restored {v : Value} (hv : v.isSized = true) : v.restored.isSized = true := by
  cases v with
  | str s =>
    unfold restored
    split <;> rfl
  | pair a b => rfl
  | list l vs => rfl
  | set l vs => rfl
  | map l es => rfl
  | illFormed ps => exact hv
  | bytes bs => exact hv
  | _ => cases hv

/-- A text without half a character is restored from itself only. -/
theorem restored_eq_str_iff {key : String} (hkey : key.any Text.isHalf = false) {k : Value} :
    k.restored = .str key ↔ k = .str key := by
  cases k with
  | str s =>
    unfold restored
    by_cases hs : s.any Text.isHalf = true
    · rw [if_pos hs]
      refine iff_of_false (fun h => by cases h) ?_
      rintro h
      cases h
      rw [hkey] at hs
      cases hs
    · rw [if_neg hs]
  | _ => simp [restored]

/-- Such a text is found where it was. -/
theorem get?_restoredEntries {key : String} (hkey : key.any Text.isHalf = false)
    (es : List (Value × Value)) :
    Assoc.get? (.str key) (restoredEntries es) = (Assoc.get? (.str key) es).map restored := by
  induction es with
  | nil => rfl
  | cons e es ih =>
    obtain ⟨k, v⟩ := e
    rw [restoredEntries, Assoc.get?_cons, Assoc.get?_cons, ih]
    by_cases hk : k = .str key
    · rw [if_pos hk, if_pos ((restored_eq_str_iff hkey).mpr hk)]
      rfl
    · rw [if_neg hk, if_neg fun h => hk ((restored_eq_str_iff hkey).mp h)]

end Value

namespace Entries

/-- There is something with a size under a key. -/
def SizedAt (key : String) (d : Entries) : Prop := ∃ v, d.get? key = some v ∧ v.isSized = true

variable {key key' : String} {v : Value} {d : Entries}

theorem SizedAt.settle (h : d.SizedAt key) (hv : v.isSized = true) :
    SizedAt key (Value.settle v d) := by
  obtain ⟨w, hw, hsize⟩ := h
  unfold Value.settle
  cases v.label? with
  | none => exact ⟨w, hw, hsize⟩
  | some l =>
    have hget := Value.get?_rebindEntries l v (.str key) d
    rw [show Assoc.get? (Value.str key) d = some w from hw] at hget
    exact ⟨_, hget, Value.isSized_rebind hv hsize⟩

theorem SizedAt.put (h : d.SizedAt key ∨ key' = key) (hv : v.isSized = true) :
    (d.put key' v).SizedAt key := by
  by_cases hk : key' = key
  · subst hk
    exact ⟨v, get?_put_self key' v d, hv⟩
  · obtain ⟨w, hw, hsize⟩ := h.resolve_right hk
    exact ⟨w, (get?_put_of_ne hk v d).trans hw, hsize⟩

/-- A container that is written to a key, also where the same object stands elsewhere. -/
theorem SizedAt.set (h : d.SizedAt key ∨ key' = key) (hv : v.isSized = true) :
    (d.set key' v).SizedAt key :=
  (SizedAt.put h hv).settle hv

theorem SizedAt.ensure (h : d.SizedAt key) (hv : v.isSized = true) :
    (d.ensure key' v).SizedAt key := by
  unfold Entries.ensure
  split
  · exact h
  · exact SizedAt.set (Or.inl h) hv

/-- A container is written to a key, an object in it takes its new state everywhere, and what then
stands under the key is written back. -/
theorem SizedAt.writtenBack (h : d.SizedAt key) (key' : String) {v item : Value}
    (hv : v.isSized = true) (hitem : item.isSized = true) :
    ∃ w, get? key' (Value.settle item (d.set key' v)) = some w ∧
      SizedAt key (Entries.set key' w (Value.settle item (d.set key' v))) := by
  have hset : ∀ k, d.SizedAt k ∨ key' = k → SizedAt k (Value.settle item (d.set key' v)) :=
    fun k hk => (SizedAt.set hk hv).settle hitem
  obtain ⟨w, hw, hsize⟩ := hset key' (Or.inr rfl)
  exact ⟨w, hw, SizedAt.set (Or.inl (hset key (Or.inl h))) hsize⟩

end Entries

namespace Merge

variable {key : String} {d : Entries}

theorem sizedAt_setItem (h : d.SizedAt key) (uri : String) {item : Value}
    (hitem : item.isSized = true) : (setItem uri item d).SizedAt key := by
  unfold setItem
  split
  · next l paths _ =>
    obtain ⟨v, hv, hback⟩ := h.writtenBack "paths"
      (v := .map l (Assoc.set (.str uri) item paths)) rfl hitem
    dsimp only
    rw [hv]
    exact hback
  · exact h

theorem sizedAt_addOperation (uri : String) (d : Entries) (op : String × Value)
    (h : d.SizedAt key) : (addOperation uri d op).state.SizedAt key := by
  unfold addOperation
  split
  · exact h
  · split
    · exact h
    · dsimp only
      split
      · exact sizedAt_setItem h uri rfl
      · exact h

theorem sizedAt_addPath (d : Entries) (path : String × List (String × Value))
    (h : d.SizedAt key) : (addPath d path).state.SizedAt key := by
  unfold addPath
  split
  · dsimp only
    refine Edit.each_keeps (fun d op _ => sizedAt_addOperation path.1 d op) ?_
    split
    · exact h
    · exact sizedAt_setItem h path.1 rfl
  · exact h

theorem sizedAt_describe (tag : List (String × String)) (l : Option Label) (i : Nat)
    (tags : List Value) (h : d.SizedAt key) : (describe tag l i tags d).state.SizedAt key := by
  unfold describe
  split
  · next m es _ =>
    split
    · exact h
    · split
      · exact h
      · next text _ =>
        have hitem : (Value.map m (Assoc.set (.str "description") (.str text) es)).isSized = true :=
          rfl
        obtain ⟨v, hv, hback⟩ := h.writtenBack "tags"
          (v := .list l (tags.set i (.map m (Assoc.set (.str "description") (.str text) es))))
          rfl hitem
        dsimp only [setTags]
        rw [hv]
        exact hback
  · exact h

theorem sizedAt_addTag (dedupe : Bool) (d : Entries) (tag : List (String × String))
    (h : d.SizedAt key) : (addTag dedupe d tag).state.SizedAt key := by
  unfold addTag
  split
  · dsimp only
    split
    · split
      · exact h
      · exact sizedAt_describe tag _ _ _ h
      · exact Entries.SizedAt.set (Or.inl h) rfl
    · exact Entries.SizedAt.set (Or.inl h) rfl
  · exact h
  · exact h

theorem sizedAt_addDefinitions (definitions : List (String × Value)) (h : d.SizedAt key) :
    (addDefinitions definitions d).state.SizedAt key := by
  unfold addDefinitions
  split
  · exact Entries.SizedAt.set (Or.inl h) rfl
  · exact Entries.SizedAt.set (Or.inl h) rfl
  · exact h

theorem sizedAt_entries (dedupe : Bool) (c : Contribution) (h : d.SizedAt key) :
    (entries dedupe c d).state.SizedAt key := by
  unfold entries
  refine Edit.andThen_keeps (P := Entries.SizedAt key) (Edit.andThen_keeps ?_ fun d h => ?_)
    fun d h => ?_
  · exact Edit.each_keeps (fun d path _ => sizedAt_addPath d path) (h.ensure rfl)
  · exact Edit.each_keeps (fun d tag _ => sizedAt_addTag dedupe d tag) (h.ensure rfl)
  · exact sizedAt_addDefinitions c.definitions (h.ensure rfl)

end Merge

/-- The skeleton has a section as it was, or the empty one. -/
theorem Skeleton.get?_entries_of_section {key : String} (hkey : key ∈ sections) (d : Entries) :
    (entries d).get? key = d.get? key ∨ (entries d).get? key = some (.map none []) := by
  have hne : "swagger" ≠ key ∧ "tags" ≠ key := by
    constructor <;> rintro rfl <;> exact absurd hkey (by decide)
  have hfill : ∀ (d' : Entries) (key' : String),
      (d'.get? key = d.get? key ∨ d'.get? key = some (.map none [])) →
      ((fill (.map none []) d' key').get? key = d.get? key ∨
        (fill (.map none []) d' key').get? key = some (.map none [])) := by
    intro d' key' h
    by_cases hk : key' = key
    · subst hk
      unfold fill
      split
      · exact h
      · exact Or.inr (Entries.get?_put_self key' _ d')
    · rw [get?_fill_of_ne hk]
      exact h
  unfold entries
  rw [get?_fill_of_ne hne.2]
  refine List.foldlRecOn (motive := fun d' : Entries =>
    d'.get? key = d.get? key ∨ d'.get? key = some (.map none [])) sections _ ?_
    fun d' h key' _ => hfill d' key' h
  exact Or.inl (Entries.get?_put_of_ne hne.1 _ d)

namespace Generator

/-- What the skeleton has, each step keeps and sorting keeps, the document has. -/
theorem produce_keeps {β : Type} {step : Value → β → Edit GenerateError Value} {definition : Value}
    {items : List β} {P : Value → Prop} (hbase : ∀ v, skeleton definition = .ok v → P v)
    (hstep : ∀ v b, P v → P (step v b).state)
    (hlast : ∀ v doc, P v → finalize v = .ok doc → P doc) {doc : Value}
    (h : (produce step definition items).result = .ok doc) : P doc := by
  unfold produce at h
  simp only [Report.result_bind_eq_ok, result_ofMerge_eq_ok, result_toReport_eq_ok] at h
  obtain ⟨v, hv, w, ⟨-, rfl⟩, hdoc⟩ := h
  exact hlast _ doc (Edit.each_keeps (fun v b _ => hstep v b) (hbase v hv)) hdoc

/-- A document whose section under `key` has a size. -/
def IsSizedAt (key : String) (v : Value) : Prop :=
  ∃ l d, v = .map l d ∧ Entries.SizedAt key d

/-- A counted section has a size also when the texts of the document are restored. -/
theorem IsSizedAt.restored {key : String} {v : Value} (hkey : key ∈ ["paths", "definitions"])
    (h : IsSizedAt key v) : IsSizedAt key v.restored := by
  have hhalf : key.any Text.isHalf = false := by
    rw [show key.any Text.isHalf = key.toList.any Text.isHalf from String.contains_bool_eq]
    rcases List.mem_pair.mp hkey with rfl | rfl
    · decide
    · decide
  obtain ⟨l, es, rfl, v, hv, hsize⟩ := h
  refine ⟨l, Value.restoredEntries es, rfl, v.restored, ?_, Value.isSized_restored hsize⟩
  show Assoc.get? (.str key) (Value.restoredEntries es) = _
  rw [Value.get?_restoredEntries hhalf, show Assoc.get? (.str key) es = some v from hv]
  rfl

theorem isSizedAt_addPrepared {key : String} (prepare : Contribution → Contribution)
    (opts : GenerateOptions) {v : Value} (block : CommentBlock) (h : IsSizedAt key v) :
    IsSizedAt key (addPrepared prepare opts v block).state := by
  unfold addPrepared
  dsimp only
  split
  · exact h
  · exact h
  · obtain ⟨l, d, rfl, hd⟩ := h
    exact ⟨l, _, rfl, Merge.sizedAt_entries opts.dedupe _ hd⟩

/-- A section that has a size in the skeleton has one in the document. -/
theorem isSizedAt_of_skeleton {opts : GenerateOptions} {definition doc : Value}
    {blocks : List CommentBlock} {key : String}
    (hbase : ∀ v, skeleton definition = .ok v → IsSizedAt key v)
    (h : (generateStamped opts definition blocks).result = .ok doc) : IsSizedAt key doc := by
  refine produce_keeps (P := IsSizedAt key) hbase ?_ ?_ h
  · rintro v ⟨block, n⟩ hv
    exact isSizedAt_addPrepared _ opts block hv
  · rintro v doc ⟨l, d, rfl, hd⟩ hdoc
    obtain ⟨e, he, rfl⟩ := finalize_eq_ok.mp hdoc
    obtain ⟨ts, us, -, -, rfl⟩ := Finish.entries_eq_ok.mp he
    exact ⟨l, _, rfl, Entries.SizedAt.put (Or.inl hd) rfl⟩

/-- A section that has a size, or is empty, or is missing in the base definition, has a size in the
document. -/
theorem isSizedAt_generateStamped {opts : GenerateOptions} {definition doc : Value}
    {blocks : List CommentBlock} {key : String} (hkey : key ∈ sections)
    (hbase : ∀ v, Entries.get? key definition.entries = some v → v.truthy = true →
      v.isSized = true)
    (h : (generateStamped opts definition blocks).result = .ok doc) : IsSizedAt key doc := by
  refine isSizedAt_of_skeleton (fun v hv => ?_) h
  cases definition with
  | map l d =>
    cases hv
    obtain ⟨v, hv, hfilled⟩ := (Skeleton.skeletal_entries d).sections key hkey
    refine ⟨l, _, rfl, v, hv, ?_⟩
    rcases hfilled with htruthy | rfl
    · rcases Skeleton.get?_entries_of_section hkey d with hget | hget
      · exact hbase v (hget.symm.trans hv) htruthy
      · obtain rfl := Option.some.inj (hget.symm.trans hv)
        cases htruthy
    · rfl
  | _ => cases hv

end Generator

end AnnotatedApi
