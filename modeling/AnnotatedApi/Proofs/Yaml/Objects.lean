/-
  One object for each label. A container or a date may stand in several places of a value under one
  label; such a value is `Coherent` if the same stands in all of them. No object stands in itself,
  so a mapping is no object that stands in it (`Value.not_same_value`).

  Every value that is read is coherent (`coherent_of_read`): the label of an object is the place of
  its node, scalars have no parts (`Filling.Leaves`), and each step that unfolds the table refers to
  the values that are known already (`Rooted`).
-/
import AnnotatedApi.Proofs.Yaml.Filling
import AnnotatedApi.Value.Share

namespace AnnotatedApi

namespace Value

/-- A value is `w` or has `w` in it; keys and the members of sets do not count. -/
inductive Stands (w : Value) : Value → Prop
  | here : Stands w w
  | first {a b : Value} (h : Stands w a) : Stands w (.pair a b)
  | second {a b : Value} (h : Stands w b) : Stands w (.pair a b)
  | item {l : Option Label} {vs : List Value} {v : Value} (hv : v ∈ vs) (h : Stands w v) :
      Stands w (.list l vs)
  | value {l : Option Label} {es : List (Value × Value)} {e : Value × Value} (he : e ∈ es)
      (h : Stands w e.2) : Stands w (.map l es)

/-- Two values are one object. -/
def Same (v w : Value) : Prop := v.label?.isSome = true ∧ v.label? = w.label?

/-- What stands under one label is everywhere the same. -/
def Coherent (v : Value) : Prop := ∀ a b, Stands a v → Stands b v → Same a b → a = b

variable {v w u : Value}

theorem Stands.trans (hwv : Stands w v) (hvu : Stands v u) : Stands w u := by
  induction hvu with
  | here => exact hwv
  | first _ ih => exact .first ih
  | second _ ih => exact .second ih
  | item hv _ ih => exact .item hv ih
  | value he _ ih => exact .value he ih

theorem same_label (h : Same v w) : ∃ l, v.label? = some l ∧ w.label? = some l := by
  obtain ⟨l, hl⟩ := Option.isSome_iff_exists.mp h.1
  exact ⟨l, hl, h.2 ▸ hl⟩

theorem Coherent.of_stands (hv : v.Coherent) (h : Stands w v) : w.Coherent :=
  fun a b ha hb => hv a b (ha.trans h) (hb.trans h)

/-- A value without a label whose parts are coherent among each other. -/
theorem coherent_map {es : List (Value × Value)}
    (h : ∀ e ∈ es, ∀ e' ∈ es, ∀ a b, Stands a e.2 → Stands b e'.2 → Same a b → a = b) :
    (Value.map none es).Coherent := by
  intro a b ha hb hsame
  cases ha with
  | here => cases hsame.1
  | value he ha =>
    cases hb with
    | here =>
      have hlabelled := hsame.1
      rw [hsame.2] at hlabelled
      cases hlabelled
    | value he' hb => exact h _ he _ he' a b ha hb hsame

/-- A mapping is coherent as an object of its own if it is so as one that stands elsewhere too. -/
theorem Coherent.unlabelled {l : Option Label} {es : List (Value × Value)}
    (h : (Value.map l es).Coherent) : (Value.map none es).Coherent :=
  coherent_map fun _ he _ he' a b ha hb => h a b (.value he ha) (.value he' hb)

/-- No mapping is an object that stands in it. -/
theorem not_same_value {l : Option Label} {es : List (Value × Value)}
    (h : (Value.map l es).Coherent) {e : Value × Value} (he : e ∈ es) :
    ¬ Same e.2 (.map l es) := by
  intro hsame
  have heq := h _ _ (.value he .here) .here hsame
  have hlt := List.sizeOf_lt_of_mem he
  have hpair : sizeOf e = 1 + sizeOf e.1 + sizeOf e.2 := rfl
  have hmap := Value.map.sizeOf_spec l es
  rw [← heq] at hmap
  omega

/-- No parts, and no label but one. -/
structure Leaf (l : Label) (v : Value) : Prop where
  alone : ∀ w, Stands w v → w = v
  label : ∀ m, v.label? = some m → m = l

theorem leaf_scalar {l : Label} (hpair : ∀ a b, v ≠ .pair a b) (hlist : ∀ m vs, v ≠ .list m vs)
    (hmap : ∀ m es, v ≠ .map m es) (hlabel : ∀ m, v.label? = some m → m = l) : v.Leaf l := by
  refine ⟨fun w hw => ?_, hlabel⟩
  cases hw with
  | here => rfl
  | first _ => exact absurd rfl (hpair _ _)
  | second _ => exact absurd rfl (hpair _ _)
  | item _ _ => exact absurd rfl (hlist _ _)
  | value _ _ => exact absurd rfl (hmap _ _)

end Value

namespace Yaml

open Value

/-! ## Scalars -/

theorem leaf_of_timestampValue {l : Label} {label : Option Label} (hl : ∀ m, label = some m → m = l)
    {s : List Char} {v : Value} (h : timestampValue label s = .ok v) : v.Leaf l := by
  have hmoment : ∀ t : Moment,
      (if t.isValid then .ok (.moment label t) else .error .invalidNumber : Except Fault Value) =
        .ok v → v.Leaf l := by
    intro t ht
    split at ht
    · cases ht
      exact leaf_scalar nofun nofun nofun hl
    · cases ht
  unfold timestampValue at h
  split at h
  · cases h
  · dsimp only at h
    split at h
    · split at h
      · cases h
        exact leaf_scalar nofun nofun nofun hl
      · cases h
    · split at h
      · exact hmoment _ h
      · exact hmoment _ h
      · obtain ⟨offset, -, h⟩ := exists_of_bind_ok h
        exact hmoment _ h

/-- The value of a scalar has no parts. -/
theorem leaf_of_scalarValue {l : Label} {label : Option Label} (hl : ∀ m, label = some m → m = l)
    {tag : Tag} {c : Content} {v : Value} (h : scalarValue label tag c = .ok v) : v.Leaf l := by
  unfold scalarValue at h
  split at h
  · cases h
    exact leaf_scalar nofun nofun nofun nofun
  · obtain ⟨b, -, rfl⟩ := exists_of_map_ok h
    exact leaf_scalar nofun nofun nofun nofun
  · obtain ⟨n, -, rfl⟩ := exists_of_map_ok h
    exact leaf_scalar nofun nofun nofun nofun
  · obtain ⟨x, -, rfl⟩ := exists_of_map_ok h
    exact leaf_scalar nofun nofun nofun nofun
  · cases h
    cases c with
    | text s => exact leaf_scalar nofun nofun nofun nofun
    | points ps => exact leaf_scalar nofun nofun nofun nofun
  · obtain ⟨bs, -, rfl⟩ := exists_of_map_ok h
    exact leaf_scalar nofun nofun nofun nofun
  · exact leaf_of_timestampValue hl h
  · cases h

/-- A scalar that is made of a node has no parts, and no label but the place of the node. -/
theorem leaf_of_madeScalar {nodes : Array Node} {i : Nat} {origin : Option Nat} {v : Value}
    (h : madeScalar nodes i = .ok (.scalar origin v)) : v.Leaf [i] := by
  unfold madeScalar at h
  obtain ⟨c, -, h⟩ := exists_of_bind_ok h
  dsimp only at h
  split at h
  · cases h
  · obtain ⟨w, hw, h⟩ := exists_of_bind_ok h
    cases h
    refine leaf_of_scalarValue (fun m hm => ?_) hw
    split at hm
    · exact (Option.some.inj hm).symm
    · cases hm

/-- What was made of a node is a collection or a scalar without parts. -/
def Filling.Leaves (f : Filling) : Prop :=
  ∀ i origin v, f.madeAt i = some (.scalar origin v) → v.Leaf [i]

namespace Fill

/-- A step that keeps what holds of the filling. -/
def Keeps {α : Type} (P : Filling → Prop) (r : Fill α) : Prop :=
  ∀ f a g, P f → r f = .ok (a, g) → P g

variable {α β : Type} {P : Filling → Prop} {r : Fill α}

theorem keeps_pure (a : α) : Keeps P (pure a) := by
  intro f b g hf h
  cases h
  exact hf

theorem keeps_fail (e : Fault) : Keeps P (fail e : Fill α) := by
  intro f b g hf h
  cases h

theorem keeps_get : Keeps P get := by
  intro f b g hf h
  cases h
  exact hf

theorem keeps_modify {change : Filling → Filling} (h : ∀ f, P f → P (change f)) :
    Keeps P (modify change) := by
  intro f b g hf heq
  cases heq
  exact h f hf

theorem Keeps.bind {k : α → Fill β} (hr : Keeps P r) (hk : ∀ a, Keeps P (k a)) :
    Keeps P (r >>= k) := by
  intro f b g hf h
  obtain ⟨⟨a, f'⟩, hact, hrest⟩ := exists_of_bind_ok (x := r f) (f := fun p => k p.1 p.2) h
  exact hk a f' b g (hr f a f' hf hact) hrest

theorem Keeps.forM {xs : List α} {act : α → Fill PUnit} (h : ∀ x ∈ xs, Keeps P (act x)) :
    Keeps P (xs.forM act) := by
  induction xs with
  | nil => exact keeps_pure _
  | cons x xs ih =>
    exact (h x List.mem_cons_self).bind fun _ => ih fun y hy => h y (List.mem_cons_of_mem _ hy)

theorem Keeps.mapM {xs : List α} {act : α → Fill β} (h : ∀ x ∈ xs, Keeps P (act x)) :
    Keeps P (xs.mapM act) := by
  induction xs with
  | nil => exact keeps_pure _
  | cons x xs ih =>
    rw [List.mapM_cons]
    refine (h x List.mem_cons_self).bind fun _ => ?_
    exact (ih fun y hy => h y (List.mem_cons_of_mem _ hy)).bind fun _ => keeps_pure _

/-! ### The steps of a filling -/

theorem leaves_noted {f : Filling} (hf : f.Leaves) {i : Nat} {m : Made}
    (hm : ∀ origin v, m = .scalar origin v → v.Leaf [i]) : (noted i m f).Leaves := by
  intro j origin v hj
  rw [noted, Filling.madeAt, getD_setIfInBounds] at hj
  split at hj
  · next heq => exact heq.1 ▸ hm origin v (Option.some.inj hj)
  · exact hf j origin v hj

theorem keeps_make (i : Nat) : Keeps Filling.Leaves (make i) := by
  intro f m g hf h
  cases hmade : f.madeAt i with
  | some m' =>
    rw [make_of_some hmade] at h
    cases h
    exact hf
  | none =>
    rw [make_of_none hmade] at h
    split at h
    · split at h
      · cases h
      · next m' hm =>
        cases h
        exact leaves_noted hf fun origin v heq => leaf_of_madeScalar (heq ▸ hm)
    · split at h
      · cases h
        exact leaves_noted hf nofun
      · cases h

theorem keeps_node (i : Nat) : Keeps Filling.Leaves (node i) :=
  keeps_get.bind fun _ => keeps_pure _

theorem keeps_change (i : Nat) (f : Node → Node) : Keeps Filling.Leaves (change i f) :=
  keeps_modify fun _ hf => hf

theorem keeps_entries (i : Nat) : Keeps Filling.Leaves (entries i) := by
  refine (keeps_node i).bind fun n => ?_
  split
  · exact keeps_pure _
  · exact keeps_fail _

theorem keeps_settled (fuel : Nat) (merged : List (Nat × Nat)) (i : Nat) :
    Keeps Filling.Leaves (settled fuel merged i) := by
  induction fuel generalizing merged i with
  | zero => exact keeps_fail _
  | succ fuel ih =>
    refine (keeps_entries i).bind fun own => keeps_get.bind fun s => ?_
    split
    · refine (Keeps.forM fun e _ => keeps_change e.1 _).bind fun _ => ?_
      exact (keeps_change i _).bind fun _ => keeps_pure _
    · refine (keeps_change i _).bind fun _ => (keeps_node _).bind fun n => ?_
      dsimp only
      split
      · exact (ih _ _).bind fun _ => ih _ _
      · refine (Keeps.mapM fun x _ => ih _ x).bind fun _ => ?_
        exact (keeps_pure _).bind fun _ => ih _ _
      · exact (keeps_fail _).bind fun _ => ih _ _

theorem keeps_pair (i : Nat) : Keeps Filling.Leaves (pair i) := by
  refine (keeps_node i).bind fun n => ?_
  split
  · exact (keeps_make _).bind fun _ => (keeps_make _).bind fun _ => keeps_pure _
  · exact keeps_fail _

theorem keeps_entry (e : Nat × Nat) : Keeps Filling.Leaves (entry e) := by
  refine (keeps_make _).bind fun m => ?_
  split
  · exact keeps_fail _
  · exact (keeps_make _).bind fun _ => keeps_pure _

theorem keeps_fill (i : Nat) : Keeps Filling.Leaves (fill i) := by
  have hmapping : Keeps Filling.Leaves
      (do (← settled ((← get).merges + 1) [] i).forM entry : Fill Unit) :=
    keeps_get.bind fun s => (keeps_settled _ _ _).bind fun es => Keeps.forM fun e _ => keeps_entry e
  refine (keeps_node i).bind fun n => ?_
  split
  · exact Keeps.forM fun x _ => (keeps_make x).bind fun _ => keeps_pure _
  · exact Keeps.forM fun x _ => keeps_pair x
  · exact Keeps.forM fun x _ => keeps_pair x
  · exact hmapping
  · exact hmapping
  · exact keeps_fail _

theorem keeps_rounds (fuel : Nat) : Keeps Filling.Leaves (rounds fuel) := by
  have hmet : Keeps Filling.Leaves (modify fun s => { s with met := [] }) :=
    keeps_modify fun _ hf => hf
  induction fuel with
  | zero => exact keeps_pure _
  | succ fuel ih =>
    refine keeps_get.bind fun s => ?_
    dsimp only
    split
    · exact keeps_pure _
    · exact hmet.bind fun _ => (Keeps.forM fun i _ => keeps_fill i).bind fun _ => ih

end Fill

/-- The scalars of a filled document have no parts. -/
theorem leaves_of_filling {d : Document} {f : Filling} (h : d.filling = .ok f) : f.Leaves := by
  unfold Document.filling at h
  obtain ⟨⟨u, g⟩, hrun, hg⟩ := exists_of_bind_ok h
  obtain rfl : g = f := Except.ok.inj hg
  refine (Fill.keeps_make d.root).bind (fun _ => Fill.keeps_rounds d.nodes.size) _ _ _ ?_ hrun
  intro i origin v hi
  simp only [Filling.madeAt, Array.getD_eq_getD_getElem?, Array.getElem?_replicate] at hi
  split at hi <;> cases hi

/-! ## Unfolding -/

/-- An object in a value that is known is the value of the node that its label names. -/
def Rooted (known : Array (Option Value)) : Prop :=
  ∀ i v, known.getD i none = some v → ∀ w, Stands w v → ∀ l, w.label? = some l →
    ∃ j, l = [j] ∧ known.getD j none = some w

/-- A result among those of a list is that of one of its elements. -/
theorem exists_of_mem_mapM {α β : Type} {f : α → Option β} {xs : List α} {ys : List β}
    (h : xs.mapM f = some ys) {y : β} (hy : y ∈ ys) : ∃ x, f x = some y := by
  induction xs generalizing ys with
  | nil =>
    cases h
    cases hy
  | cons x xs ih =>
    rw [List.mapM_cons] at h
    obtain ⟨z, hz, h⟩ := Option.bind_eq_some_iff.mp h
    obtain ⟨zs, hzs, h⟩ := Option.bind_eq_some_iff.mp h
    cases h
    rcases List.mem_cons.mp hy with rfl | hy
    · exact ⟨x, hz⟩
    · exact ih hzs hy

namespace Filling

variable {f : Filling} {known : Array (Option Value)} {i : Nat} {v : Value}

/-- What stands in a pair stands in its parts, which are known. -/
theorem stands_pair (hpair : f.pair (fun j => known.getD j none) i = some v) {w : Value}
    (hw : Stands w v) {l : Label} (hl : w.label? = some l) :
    ∃ j u, known.getD j none = some u ∧ Stands w u := by
  unfold pair at hpair
  split at hpair
  · next k x _ =>
    obtain ⟨a, ha, hpair⟩ := Option.bind_eq_some_iff.mp hpair
    obtain ⟨b, hb, hpair⟩ := Option.bind_eq_some_iff.mp hpair
    cases hpair
    cases hw with
    | here => cases hl
    | first hw => exact ⟨k, a, ha, hw⟩
    | second hw => exact ⟨x, b, hb, hw⟩
  · cases hpair

/-- What stands in the value of a node is that value, or stands in one that is known. -/
theorem stands_unfold (hf : f.Leaves) (h : f.unfold known i = some v) {w : Value}
    (hw : Stands w v) {l : Label} (hl : w.label? = some l) :
    (w = v ∧ l = [i]) ∨ ∃ j u, known.getD j none = some u ∧ Stands w u := by
  have hlabel : ∀ m, (if (nodeAt f.nodes i).shared then some [i] else none : Option Label) =
      some m → m = [i] := by
    intro m hm
    split at hm
    · exact (Option.some.inj hm).symm
    · cases hm
  unfold unfold at h
  dsimp only at h
  split at h
  · next origin v' hmade =>
    cases h
    have hleaf := hf i origin v hmade
    obtain rfl := hleaf.alone w hw
    exact Or.inl ⟨rfl, hleaf.label l hl⟩
  · next items _ _ =>
    obtain ⟨vs, hvs, h⟩ := Option.bind_eq_some_iff.mp h
    cases h
    cases hw with
    | here => exact Or.inl ⟨rfl, hlabel l hl⟩
    | item hmem hw =>
      obtain ⟨x, hx⟩ := exists_of_mem_mapM hvs hmem
      right
      split at hx
      · exact ⟨x, _, hx, hw⟩
      · exact stands_pair hx hw hl
  · next es _ _ =>
    split at h
    · cases h
      cases hw with
      | here => exact Or.inl ⟨rfl, hlabel l hl⟩
    · obtain ⟨ps, hps, h⟩ := Option.bind_eq_some_iff.mp h
      cases h
      cases hw with
      | here => exact Or.inl ⟨rfl, hlabel l hl⟩
      | value hmem hw =>
        obtain ⟨x, hx⟩ := exists_of_mem_mapM hps hmem
        obtain ⟨u, hu, hx⟩ := Option.bind_eq_some_iff.mp hx
        cases hx
        exact Or.inr ⟨_, u, hu, hw⟩
  · cases h

/-- A value that becomes known has only objects in it that are known. -/
theorem rooted_learn (hf : f.Leaves) (hknown : Rooted known) (i : Nat) :
    Rooted (f.learn known i) := by
  unfold learn
  split
  · exact hknown
  · next hnone =>
    have hkept : ∀ j u, known.getD j none = some u →
        (known.setIfInBounds i (f.unfold known i)).getD j none = some u := by
      intro j u hu
      rw [getD_setIfInBounds, if_neg]
      · exact hu
      · rintro ⟨rfl, -⟩
        rw [hnone] at hu
        cases hu
    have hold : ∀ j u, known.getD j none = some u → ∀ w, Stands w u → ∀ l, w.label? = some l →
        ∃ j, l = [j] ∧ (known.setIfInBounds i (f.unfold known i)).getD j none = some w := by
      intro j u hu w hw l hl
      obtain ⟨k, hk, hw⟩ := hknown j u hu w hw l hl
      exact ⟨k, hk, hkept k w hw⟩
    intro j v hv w hw l hl
    have hnew := hv
    rw [getD_setIfInBounds] at hv
    split at hv
    · next heq =>
      obtain ⟨rfl, -⟩ := heq
      rcases stands_unfold hf hv hw hl with ⟨rfl, rfl⟩ | ⟨k, u, hu, hw⟩
      · exact ⟨i, rfl, hnew⟩
      · exact hold k u hu w hw l hl
    · exact hold j v hv w hw l hl

theorem rooted_pass (hf : f.Leaves) (hknown : Rooted known) : Rooted (f.pass known) :=
  List.foldlRecOn (motive := Rooted) _ f.learn hknown fun _ hknown i _ => rooted_learn hf hknown i

theorem coherent_of_rooted (hknown : Rooted known) (hv : known.getD i none = some v) :
    v.Coherent := by
  intro a b ha hb hsame
  obtain ⟨l, hla, hlb⟩ := same_label hsame
  obtain ⟨j, rfl, hj⟩ := hknown i v hv a ha l hla
  obtain ⟨k, hk, hb⟩ := hknown i v hv b hb _ hlb
  obtain rfl := List.singleton_inj.mp hk
  exact Option.some.inj (hj.symm.trans hb)

theorem coherent_of_value (hf : f.Leaves) (hknown : Rooted known) {passes : Nat}
    (h : f.value i passes known = some v) : v.Coherent := by
  induction passes generalizing known with
  | zero => cases h
  | succ passes ih =>
    have hpass := rooted_pass hf hknown
    unfold value at h
    dsimp only at h
    split at h
    · next w hw =>
      cases h
      exact coherent_of_rooted hpass hw
    · exact ih hpass h

end Filling

/-- **What is read is coherent**: what stands under one label is everywhere the same. -/
theorem coherent_of_read {s : String} {v : Value} (h : read s = .ok v) : v.Coherent := by
  unfold read at h
  obtain ⟨d, -, h⟩ := exists_of_bind_ok h
  cases d with
  | none =>
    cases h
    intro a b ha hb hsame
    cases ha
    cases hsame.1
  | some d =>
    obtain ⟨f, hf, h⟩ := exists_of_bind_ok h
    split at h
    · next w hw =>
      cases h
      refine Filling.coherent_of_value (leaves_of_filling hf) ?_ hw
      intro i u hu
      simp only [Array.getD_eq_getD_getElem?, Array.getElem?_replicate] at hu
      split at hu <;> cases hu
    · cases h

end Yaml

end AnnotatedApi
