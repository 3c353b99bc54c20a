/-
  What a table of nodes says. `Holds` is the meaning of a table in rules: a scalar is worth what
  its type makes of its content, a sequence the list of its items, a mapping with text keys its
  entries, of two with one key the last in the place of the first. It is said of tables without
  anchors, merge keys and `=` keys.

  Filling such a table changes no node. Each round makes the parts of the collections met in the
  round before, which stand earlier in the table, so there are rounds enough; what is made is
  right and stays (`Sound`, `Grew`). When no collection is left to fill, every collection that was
  made has its parts made (`rounds_of_sound`), and the unfolding of the table gives each node its
  meaning (`values_of_holds`).

  Main statement: a document is worth what its table says about the root (`value_of_holds`).
-/
import AnnotatedApi.Proofs.Assoc
import AnnotatedApi.Proofs.Run
import AnnotatedApi.Yaml.Reader

namespace AnnotatedApi.Yaml

/-- Something that a table says: the value of a node, of several, or the entries of a mapping. -/
inductive Saying where
  | node (i : Nat) (v : Value)
  | items (is : List Nat) (vs : List Value)
  | entries (ps : List (Nat × Nat)) (es : List (Value × Value))

inductive Holds (nodes : Array Node) : Saying → Prop
  | scalar {i : Nat} {tag : Tag} {c : Content} {v : Value}
      (hi : nodes[i]? = some ⟨tag, .scalar c, false⟩) (htag : tag.isScalar = true)
      (hv : scalarValue none tag c = .ok v) : Holds nodes (.node i v)
  | seq {i : Nat} {is : List Nat} {vs : List Value}
      (hi : nodes[i]? = some ⟨.seq, .seq is, false⟩) (hlt : ∀ j ∈ is, j < i)
      (his : Holds nodes (.items is vs)) : Holds nodes (.node i (.list none vs))
  | map {i : Nat} {ps : List (Nat × Nat)} {es : List (Value × Value)}
      (hi : nodes[i]? = some ⟨.map, .map ps, false⟩) (hlt : ∀ p ∈ ps, p.1 < i ∧ p.2 < i)
      (hps : Holds nodes (.entries ps es)) : Holds nodes (.node i (.map none (Assoc.ofEntries es)))
  | noItems : Holds nodes (.items [] [])
  | item {j : Nat} {v : Value} {is : List Nat} {vs : List Value} (hj : Holds nodes (.node j v))
      (his : Holds nodes (.items is vs)) : Holds nodes (.items (j :: is) (v :: vs))
  | noEntries : Holds nodes (.entries [] [])
  | entry {k j : Nat} {name : List Char} {v : Value} {ps : List (Nat × Nat)}
      {es : List (Value × Value)} (hk : nodes[k]? = some ⟨.str, .scalar (.text name), false⟩)
      (hj : Holds nodes (.node j v)) (hps : Holds nodes (.entries ps es)) :
      Holds nodes (.entries ((k, j) :: ps) ((.str (String.ofList name), v) :: es))

namespace Holds

variable {nodes nodes' : Array Node} {p : Saying}

/-- What a table says stays true when nodes are added to it. -/
theorem mono (h : Holds nodes p)
    (hle : ∀ (i : Nat) (n : Node), nodes[i]? = some n → nodes'[i]? = some n) : Holds nodes' p := by
  induction h with
  | scalar hi htag hv => exact .scalar (hle _ _ hi) htag hv
  | seq hi hlt _ ih => exact .seq (hle _ _ hi) hlt ih
  | map hi hlt _ ih => exact .map (hle _ _ hi) hlt ih
  | noItems => exact .noItems
  | item _ _ ihj ihs => exact .item ihj ihs
  | noEntries => exact .noEntries
  | entry hk _ _ ihj ihs => exact .entry (hle _ _ hk) ihj ihs

/-- The node of a key says the text of the key. -/
theorem key {k : Nat} {name : List Char}
    (hk : nodes[k]? = some ⟨.str, .scalar (.text name), false⟩) :
    Holds nodes (.node k (.str (String.ofList name))) :=
  .scalar hk rfl rfl

end Holds

/-- The table says something about the node `i`. -/
def Good (nodes : Array Node) (i : Nat) : Prop := ∃ v, Holds nodes (.node i v)

theorem nodeAt_of_getElem? {nodes : Array Node} {i : Nat} {n : Node} (h : nodes[i]? = some n) :
    nodeAt nodes i = n := by
  simp [nodeAt, Array.getD_eq_getD_getElem?, h]

/-- The parts of a node. -/
def parts (n : Node) : List Nat :=
  match n.shape with
  | .seq is => is
  | .map ps => ps.flatMap fun p => [p.1, p.2]
  | _ => []

theorem good_of_items {nodes : Array Node} {is : List Nat} {vs : List Value}
    (h : Holds nodes (.items is vs)) : ∀ j ∈ is, Good nodes j := by
  generalize hp : Saying.items is vs = p at h
  induction h generalizing is vs with
  | noItems => cases hp; simp
  | item hj _ _ ihs =>
    cases hp
    intro j hmem
    rcases List.mem_cons.mp hmem with rfl | hmem
    · exact ⟨_, hj⟩
    · exact ihs rfl j hmem
  | _ => cases hp

theorem good_of_entries {nodes : Array Node} {ps : List (Nat × Nat)} {es : List (Value × Value)}
    (h : Holds nodes (.entries ps es)) :
    ∀ p ∈ ps, (∃ name, nodes[p.1]? = some ⟨.str, .scalar (.text name), false⟩) ∧
      Good nodes p.2 := by
  generalize hp : Saying.entries ps es = q at h
  induction h generalizing ps es with
  | noEntries => cases hp; simp
  | entry hk hj _ _ ihs =>
    cases hp
    intro p hmem
    rcases List.mem_cons.mp hmem with rfl | hmem
    · exact ⟨⟨_, hk⟩, _, hj⟩
    · exact ihs rfl p hmem
  | _ => cases hp

/-- A good node is a scalar of its type, a sequence or a mapping with text keys, with good parts
that stand before it. -/
inductive GoodNode (nodes : Array Node) (i : Nat) : Prop
  | scalar {tag : Tag} {c : Content} {v : Value} (hi : nodes[i]? = some ⟨tag, .scalar c, false⟩)
      (htag : tag.isScalar = true) (hv : scalarValue none tag c = .ok v) : GoodNode nodes i
  | seq {is : List Nat} (hi : nodes[i]? = some ⟨.seq, .seq is, false⟩)
      (hparts : ∀ j ∈ is, j < i ∧ Good nodes j) : GoodNode nodes i
  | map {ps : List (Nat × Nat)} (hi : nodes[i]? = some ⟨.map, .map ps, false⟩)
      (hkeys : ∀ p ∈ ps, ∃ name, nodes[p.1]? = some ⟨.str, .scalar (.text name), false⟩)
      (hparts : ∀ p ∈ ps, p.1 < i ∧ p.2 < i ∧ Good nodes p.2) : GoodNode nodes i

theorem Good.goodNode {nodes : Array Node} {i : Nat} (h : Good nodes i) : GoodNode nodes i := by
  obtain ⟨v, h⟩ := h
  cases h with
  | scalar hi htag hv => exact .scalar hi htag hv
  | seq hi hlt his => exact .seq hi fun j hj => ⟨hlt j hj, good_of_items his j hj⟩
  | map hi hlt hps =>
    exact .map hi (fun p hp => (good_of_entries hps p hp).1)
      fun p hp => ⟨(hlt p hp).1, (hlt p hp).2, (good_of_entries hps p hp).2⟩

theorem Good.lt_size {nodes : Array Node} {i : Nat} (h : Good nodes i) : i < nodes.size := by
  cases h.goodNode with
  | scalar h _ _ => exact (Array.getElem?_eq_some_iff.mp h).1
  | seq h _ => exact (Array.getElem?_eq_some_iff.mp h).1
  | map h _ _ => exact (Array.getElem?_eq_some_iff.mp h).1

/-! ## What is made -/

theorem getD_setIfInBounds {α : Type} (a : Array α) (i j : Nat) (x d : α) :
    (a.setIfInBounds i x).getD j d = if i = j ∧ i < a.size then x else a.getD j d := by
  simp only [Array.getD_eq_getD_getElem?, Array.getElem?_setIfInBounds]
  by_cases hij : i = j
  · subst hij
    by_cases hi : i < a.size
    · simp [hi]
    · simp [hi]
  · simp [hij]

namespace Filling

/-- What the node `i` has been made into, if it has. -/
def madeAt (f : Filling) (i : Nat) : Option Made := f.made.getD i none

/-- A node made into what it is: a scalar into its value, with the node as the origin of a text, a
collection into one that is filled later. -/
def Right (nodes : Array Node) (i : Nat) : Made → Prop
  | .scalar origin v => ∃ tag c, nodes[i]? = some ⟨tag, .scalar c, false⟩ ∧
      scalarValue none tag c = .ok v ∧ (tag = .str → origin = some i)
  | .collection => ∀ tag c, nodes[i]? ≠ some ⟨tag, .scalar c, false⟩

/-- A node that is no scalar is made into a collection. -/
theorem Right.eq_collection {nodes : Array Node} {i : Nat} {m : Made} {n : Node}
    (h : Right nodes i m) (hi : nodes[i]? = some n) (hn : ∀ c, n.shape ≠ .scalar c) :
    m = .collection := by
  cases m with
  | collection => rfl
  | scalar origin v =>
    obtain ⟨tag, c, hnode, -⟩ := h
    rw [hi] at hnode
    cases hnode
    exact absurd rfl (hn c)

/-- The filling of a table whose nodes stay as they are. -/
structure Sound (nodes : Array Node) (f : Filling) : Prop where
  nodes_eq : f.nodes = nodes
  size_eq : f.made.size = nodes.size
  right : ∀ i m, f.madeAt i = some m → Good nodes i ∧ Right nodes i m
  met : ∀ i ∈ f.met, f.madeAt i = some .collection

/-- What is added from `f` to `g`: nothing is lost, and a collection that is new is met, at a
place that `P` allows. -/
structure Grew (P : Nat → Prop) (f g : Filling) : Prop where
  made : ∀ i m, f.madeAt i = some m → g.madeAt i = some m
  met : ∀ i ∈ f.met, i ∈ g.met
  new : ∀ i ∈ g.met, i ∈ f.met ∨ P i
  fresh : ∀ i, g.madeAt i = some .collection → f.madeAt i = some .collection ∨ i ∈ g.met

theorem Grew.refl {P : Nat → Prop} (f : Filling) : Grew P f f :=
  ⟨fun _ _ h => h, fun _ h => h, fun _ h => Or.inl h, fun _ h => Or.inl h⟩

theorem Grew.trans {P : Nat → Prop} {f g h : Filling} (hfg : Grew P f g) (hgh : Grew P g h) :
    Grew P f h where
  made i m hm := hgh.made i m (hfg.made i m hm)
  met i hi := hgh.met i (hfg.met i hi)
  new i hi := (hgh.new i hi).elim (hfg.new i) Or.inr
  fresh i hi := (hgh.fresh i hi).elim
    (fun hg => (hfg.fresh i hg).imp_right (hgh.met i)) Or.inr

theorem Grew.mono {P Q : Nat → Prop} {f g : Filling} (h : Grew P f g) (hPQ : ∀ i, P i → Q i) :
    Grew Q f g :=
  ⟨h.made, h.met, fun i hi => (h.new i hi).imp_right (hPQ i), h.fresh⟩

theorem Grew.isSome {P : Nat → Prop} {f g : Filling} (h : Grew P f g) {i : Nat}
    (hi : (f.madeAt i).isSome = true) : (g.madeAt i).isSome = true := by
  obtain ⟨m, hm⟩ := Option.isSome_iff_exists.mp hi
  rw [h.made i m hm]
  rfl

end Filling

namespace Fill

variable {nodes : Array Node} {f : Filling} {i : Nat}

/-- The node `i` noted as made. -/
def noted (i : Nat) (m : Made) (f : Filling) : Filling :=
  { f with made := f.made.setIfInBounds i (some m) }

theorem madeAt_noted (hi : i < f.made.size) (m : Made) (j : Nat) :
    (noted i m f).madeAt j = if j = i then some m else f.madeAt j := by
  rw [noted, Filling.madeAt, getD_setIfInBounds, Filling.madeAt]
  simp only [hi, and_true, eq_comm]

theorem make_of_some {m : Made} (h : f.madeAt i = some m) : make i f = .ok (m, f) := by
  have hget : (get : Fill Filling) f = .ok (f, f) := rfl
  rw [make, bind_of_ok hget, show f.made.getD i none = some m from h]
  rfl

theorem make_of_none (h : f.madeAt i = none) :
    make i f =
      (if (nodeAt f.nodes i).tag.isScalar then
        match madeScalar f.nodes i with
        | .error e => .error e
        | .ok m => .ok (m, noted i m f)
      else if (nodeAt f.nodes i).tag.isCollection then
        .ok (.collection, noted i .collection { f with met := i :: f.met })
      else .error .malformed) := by
  have hget : (get : Fill Filling) f = .ok (f, f) := rfl
  rw [make, bind_of_ok hget, show f.made.getD i none = none from h]
  dsimp only
  split
  · cases madeScalar f.nodes i <;> rfl
  · split <;> rfl

theorem madeScalar_of_scalar {tag : Tag} {c : Content} {v : Value}
    (hi : nodes[i]? = some ⟨tag, .scalar c, false⟩) (hv : scalarValue none tag c = .ok v) :
    ∃ origin, madeScalar nodes i = .ok (.scalar origin v) ∧ (tag = .str → origin = some i) := by
  have hsize : nodes.size = (nodes.size - 1) + 1 := by
    have := (Array.getElem?_eq_some_iff.mp hi).1
    omega
  have hcontent : scalarContent nodes nodes.size i = .ok c := by
    rw [hsize, scalarContent, nodeAt_of_getElem? hi]
  refine ⟨if (tag = .float && isNotANumber c.chars) = true then none else some i, ?_, ?_⟩
  · rw [madeScalar, hcontent, ok_bind, nodeAt_of_getElem? hi]
    dsimp only
    split
    · next h => cases h
    · simp only [Bool.false_eq_true, if_false, hv]
      rfl
  · rintro rfl
    rfl

/-- A good node noted as made into what it is, and as met if it is a collection. -/
theorem sound_noted (hf : f.Sound nodes) (hi : Good nodes i) (hm : f.madeAt i = none) {m : Made}
    (hright : Filling.Right nodes i m) {met : List Nat} (hsub : ∀ j ∈ met, j ∈ f.met ∨ j = i)
    (hsup : ∀ j ∈ f.met, j ∈ met) (hmem : i ∈ met ↔ m = .collection) :
    (noted i m { f with met := met }).Sound nodes ∧
      (noted i m { f with met := met }).madeAt i = some m ∧
      Filling.Grew (· = i) f (noted i m { f with met := met }) := by
  have hlt : i < f.made.size := hf.size_eq ▸ hi.lt_size
  have hat : ∀ j, (noted i m { f with met := met }).madeAt j =
      if j = i then some m else f.madeAt j := @madeAt_noted { f with met := met } i hlt m
  refine ⟨⟨hf.nodes_eq, ?_, ?_, ?_⟩, ?_, ⟨?_, hsup, hsub, ?_⟩⟩
  · simp [noted, hf.size_eq]
  · intro j k hj
    rw [hat] at hj
    split at hj
    · next h => cases hj; subst h; exact ⟨hi, hright⟩
    · exact hf.right j k hj
  · intro j hj
    rw [hat]
    split
    · next h => rw [hmem.mp (h ▸ hj)]
    · next h => exact hf.met j ((hsub j hj).resolve_right h)
  · rw [hat, if_pos rfl]
  · intro j k hj
    rw [hat]
    split
    · next h => rw [h, hm] at hj; cases hj
    · exact hj
  · intro j hj
    rw [hat] at hj
    split at hj
    · next h => cases hj; exact Or.inr (h ▸ hmem.mpr rfl)
    · exact Or.inl hj

/-- Making a good node: it is made into what it is, and nothing else changes. -/
theorem make_of_good (hf : f.Sound nodes) (hi : Good nodes i) :
    ∃ m g, make i f = .ok (m, g) ∧ g.Sound nodes ∧ g.madeAt i = some m ∧
      Filling.Grew (· = i) f g := by
  cases hm : f.madeAt i with
  | some m => exact ⟨m, f, make_of_some hm, hf, hm, .refl f⟩
  | none =>
    have hnotMet : i ∉ f.met := fun h => by rw [hf.met i h] at hm; cases hm
    have hcollection := fun hnot => @sound_noted nodes f i hf hi hm .collection hnot (i :: f.met)
      (fun j hj => (List.mem_cons.mp hj).symm) (fun _ h => List.mem_cons_of_mem _ h)
      ⟨fun _ => rfl, fun _ => List.mem_cons_self⟩
    have hnodes := hf.nodes_eq
    rw [make_of_none hm]
    cases hi.goodNode with
    | scalar h htag hv =>
      rw [← hnodes] at h
      obtain ⟨origin, hmade, horigin⟩ := madeScalar_of_scalar h hv
      rw [nodeAt_of_getElem? h, if_pos htag, hmade]
      rw [hnodes] at h
      exact ⟨_, _, rfl, @sound_noted nodes f i hf hi hm (.scalar origin _)
        ⟨_, _, h, hv, horigin⟩ f.met (fun _ h => Or.inl h)
        (fun _ h => h) ⟨fun h => absurd h hnotMet, fun h => by cases h⟩⟩
    | seq h _ =>
      rw [← hnodes] at h
      rw [nodeAt_of_getElem? h]
      refine ⟨_, _, rfl, hcollection fun tag c hc => ?_⟩
      rw [← hnodes, h] at hc
      cases hc
    | map h _ _ =>
      rw [← hnodes] at h
      rw [nodeAt_of_getElem? h]
      refine ⟨_, _, rfl, hcollection fun tag c hc => ?_⟩
      rw [← hnodes, h] at hc
      cases hc

/-- A step that makes the nodes `js` and meets no collections but those that `P` allows. -/
def Makes (nodes : Array Node) (P : Nat → Prop) (js : List Nat) (act : Fill Unit) : Prop :=
  ∀ f : Filling, f.Sound nodes → ∃ g, act f = .ok ((), g) ∧ g.Sound nodes ∧ Filling.Grew P f g ∧
    ∀ j ∈ js, (g.madeAt j).isSome = true

variable {P Q : Nat → Prop} {js : List Nat} {act : Fill Unit}

theorem Makes.mono (h : Makes nodes P js act) (hPQ : ∀ i, P i → Q i) : Makes nodes Q js act := by
  intro f hf
  obtain ⟨g, hact, hg, hgrew, hmade⟩ := h f hf
  exact ⟨g, hact, hg, hgrew.mono hPQ, hmade⟩

/-- Steps one after the other make what each of them makes. -/
theorem Makes.forM {α : Type} {step : α → Fill Unit} {need : α → List Nat} {xs : List α}
    (h : ∀ x ∈ xs, Makes nodes P (need x) (step x)) :
    Makes nodes P (xs.flatMap need) (xs.forM step) := by
  induction xs with
  | nil => exact fun f hf => ⟨f, rfl, hf, .refl f, by simp⟩
  | cons x xs ih =>
    intro f hf
    obtain ⟨g, hx, hg, hfg, hmade⟩ := h x List.mem_cons_self f hf
    obtain ⟨k, hxs, hk, hgk, hmore⟩ := ih (fun y hy => h y (List.mem_cons_of_mem _ hy)) g hg
    refine ⟨k, ?_, hk, hfg.trans hgk, ?_⟩
    · show (step x >>= fun _ => xs.forM step) f = _
      rw [bind_of_ok hx]
      exact hxs
    · intro j hj
      rw [List.flatMap_cons, List.mem_append] at hj
      rcases hj with hj | hj
      · exact hgk.isSome (hmade j hj)
      · exact hmore j hj

theorem makes_make (hi : Good nodes i) : Makes nodes (· = i) [i] (discard (make i)) := by
  intro f hf
  obtain ⟨m, g, hmake, hg, hm, hgrew⟩ := make_of_good hf hi
  refine ⟨g, ?_, hg, hgrew, by simp [hm]⟩
  show (make i f >>= fun r => _) = _
  rw [hmake]
  rfl

/-- An entry whose key is a text: the key and its value are made. -/
theorem makes_entry {k j : Nat} {name : List Char}
    (hk : nodes[k]? = some ⟨.str, .scalar (.text name), false⟩) (hj : Good nodes j) :
    Makes nodes (fun i => i = k ∨ i = j) [k, j] (entry (k, j)) := by
  intro f hf
  obtain ⟨m, g, hmake, hg, hm, hfg⟩ := make_of_good hf ⟨_, Holds.key hk⟩
  obtain ⟨m', g', hmake', hg', hm', hgg⟩ := make_of_good hg hj
  obtain ⟨origin, v, rfl⟩ : ∃ origin v, m = .scalar origin v := by
    cases m with
    | scalar origin v => exact ⟨origin, v, rfl⟩
    | collection => exact absurd hk ((hg.right k _ hm).2 _ _)
  refine ⟨g', ?_, hg', (hfg.mono fun _ => Or.inl).trans (hgg.mono fun _ => Or.inr), ?_⟩
  · rw [entry, bind_of_ok hmake]
    exact bind_of_ok hmake'
  · have hkey := hgg.made k _ hm
    simp [hkey, hm']

/-! ## Rounds -/

/-- A change that leaves the node as it is leaves all as it is. -/
theorem change_self {n : Node} {step : Node → Node} (hi : f.nodes[i]? = some n) (hn : step n = n) :
    change i step f = .ok ((), f) := by
  have hnodes : f.nodes.modify i step = f.nodes := by
    apply Array.ext_getElem?
    intro j
    rw [Array.getElem?_modify]
    split
    · next hij =>
      subst hij
      rw [hi, Option.map_some, hn]
    · rfl
  show Except.ok ((), { f with nodes := f.nodes.modify i step }) = _
  rw [hnodes]

/-- Steps that leave all as it is, one after the other. -/
theorem forM_still {σ ε α : Type} {step : α → StateT σ (Except ε) Unit} {s : σ} {xs : List α}
    (h : ∀ x ∈ xs, step x s = .ok ((), s)) : xs.forM step s = .ok ((), s) := by
  induction xs with
  | nil => rfl
  | cons x xs ih =>
    show (step x >>= fun _ => xs.forM step) s = _
    rw [bind_of_ok (h x List.mem_cons_self)]
    exact ih fun y hy => h y (List.mem_cons_of_mem _ hy)

/-- A mapping with text keys is settled as it stands. -/
theorem settled_of_texts {ps : List (Nat × Nat)} {fuel : Nat} (hf : f.nodes = nodes)
    (hi : nodes[i]? = some ⟨.map, .map ps, false⟩)
    (hkeys : ∀ p ∈ ps, ∃ name, nodes[p.1]? = some ⟨.str, .scalar (.text name), false⟩) :
    settled (fuel + 1) [] i f = .ok (ps, f) := by
  subst hf
  have hnode : node i f = .ok (nodeAt f.nodes i, f) := rfl
  have hentries : entries i f = .ok (ps, f) := by
    rw [entries, bind_of_ok hnode, nodeAt_of_getElem? hi]
    rfl
  have hmerge : mergeKey? f.nodes ps = none := by
    rw [mergeKey?, List.findIdx?_eq_none_iff]
    intro p hp
    obtain ⟨name, hname⟩ := hkeys p hp
    rw [nodeAt_of_getElem? hname]
    rfl
  have hrename : (ps.forM fun e => settleKey e.1) f = .ok ((), f) := forM_still fun p hp => by
    obtain ⟨name, hname⟩ := hkeys p hp
    exact change_self hname rfl
  have hset : setEntries i ps f = .ok ((), f) := change_self hi rfl
  have hget : (get : Fill Filling) f = .ok (f, f) := rfl
  rw [settled, bind_of_ok hentries, bind_of_ok hget, hmerge]
  dsimp only
  rw [bind_of_ok hrename, List.nil_append, bind_of_ok hset]
  rfl

/-- Filling a good collection makes its parts, which stand before it. -/
theorem makes_fill (hi : Good nodes i)
    (hcollection : ∀ tag c, nodes[i]? ≠ some ⟨tag, .scalar c, false⟩) :
    Makes nodes (· < i) (parts (nodeAt nodes i)) (fill i) := by
  intro f hf
  have hnode : node i f = .ok (nodeAt nodes i, f) := by
    show Except.ok (nodeAt f.nodes i, f) = _
    rw [hf.nodes_eq]
  rw [fill, bind_of_ok hnode]
  cases hi.goodNode with
  | scalar h _ _ => exact absurd h (hcollection _ _)
  | seq h hparts =>
    rename_i is
    rw [nodeAt_of_getElem? h]
    have hmakes : Makes nodes (· < i) (is.flatMap fun j => [j])
        (is.forM fun j => discard (make j)) :=
      .forM fun j hj => (makes_make (hparts j hj).2).mono fun k hk => hk ▸ (hparts j hj).1
    rw [List.flatMap_singleton'] at hmakes
    exact hmakes f hf
  | map h hkeys hparts =>
    rename_i ps
    have hsettled : settled (f.merges + 1) [] i f = .ok (ps, f) :=
      settled_of_texts hf.nodes_eq h hkeys
    have hmakes : Makes nodes (· < i) (ps.flatMap fun p => [p.1, p.2]) (ps.forM entry) := by
      refine .forM fun p hp => ?_
      obtain ⟨name, hname⟩ := hkeys p hp
      obtain ⟨hlt₁, hlt₂, hgood⟩ := hparts p hp
      exact (makes_entry hname hgood).mono fun k hk => hk.elim (· ▸ hlt₁) (· ▸ hlt₂)
    rw [nodeAt_of_getElem? h]
    show ∃ g, (settled (f.merges + 1) [] i >>= fun es => es.forM entry) f = _ ∧ _
    rw [bind_of_ok hsettled]
    exact hmakes f hf

/-- Every collection that was made has its parts made, but for those still to be filled. -/
def Closed (nodes : Array Node) (pending : List Nat) (f : Filling) : Prop :=
  ∀ i, f.madeAt i = some .collection →
    i ∈ pending ∨ ∀ j ∈ parts (nodeAt nodes i), (f.madeAt j).isSome = true

/-- The rounds end with all collections filled: the places met get lower from round to round. -/
theorem rounds_of_sound (fuel : Nat) (hf : f.Sound nodes) (hmet : ∀ i ∈ f.met, i < fuel)
    (hclosed : Closed nodes f.met f) :
    ∃ g, rounds fuel f = .ok ((), g) ∧ g.Sound nodes ∧ Closed nodes [] g ∧
      ∀ i m, f.madeAt i = some m → g.madeAt i = some m := by
  induction fuel generalizing f with
  | zero =>
    have hnone : f.met = [] := List.eq_nil_iff_forall_not_mem.mpr fun i hi => by
      have := hmet i hi
      omega
    exact ⟨f, rfl, hf, hnone ▸ hclosed, fun _ _ h => h⟩
  | succ fuel ih =>
    by_cases hempty : f.met = []
    · refine ⟨f, ?_, hf, hempty ▸ hclosed, fun _ _ h => h⟩
      show (if f.met.reverse.isEmpty = true then _ else _ : Fill Unit) f = _
      rw [hempty]
      rfl
    · have hround : Makes nodes (· < fuel) (f.met.reverse.flatMap fun i => parts (nodeAt nodes i))
          (f.met.reverse.forM fill) := by
        refine .forM fun i hi => ?_
        rw [List.mem_reverse] at hi
        obtain ⟨hgood, hright⟩ := hf.right i _ (hf.met i hi)
        refine (makes_fill hgood hright).mono fun j hj => ?_
        have := hmet i hi
        omega
      obtain ⟨g, hact, hg, hgrew, hmade⟩ :=
        hround { f with met := [] } ⟨hf.nodes_eq, hf.size_eq, hf.right, by simp⟩
      have hgclosed : Closed nodes g.met g := by
        intro i hi
        rcases hgrew.fresh i hi with hold | hnew
        · right
          rcases hclosed i hold with hmem | hparts
          · exact fun j hj => hmade j
              (List.mem_flatMap.mpr ⟨i, List.mem_reverse.mpr hmem, hj⟩)
          · exact fun j hj => hgrew.isSome (hparts j hj)
        · exact Or.inl hnew
      obtain ⟨k, hrounds, hk, hkclosed, hkmade⟩ := ih hg
        (fun i hi => (hgrew.new i hi).elim (fun h => by cases h) id) hgclosed
      refine ⟨k, ?_, hk, hkclosed, fun i m hm => hkmade i m (hgrew.made i m hm)⟩
      show (if f.met.reverse.isEmpty = true then _ else _ : Fill Unit) f = _
      rw [if_neg (by simpa using hempty)]
      show (f.met.reverse.forM fill >>= fun _ => rounds fuel) { f with met := [] } = _
      rw [bind_of_ok hact]
      exact hrounds

end Fill

/-- A document whose root is good is filled: all that was made is right, the root was, and every
collection that was made has its parts made. -/
theorem filling_of_good {nodes : Array Node} {root : Nat} (hroot : Good nodes root) :
    ∃ f, Document.filling ⟨nodes, root⟩ = .ok f ∧ f.Sound nodes ∧ Fill.Closed nodes [] f ∧
      (f.madeAt root).isSome = true := by
  have hstart : Filling.Sound nodes
      { nodes := nodes, merges := mergeCount nodes, made := Array.replicate nodes.size none } := by
    refine ⟨rfl, by simp, ?_, by simp⟩
    intro i m hm
    simp [Filling.madeAt, Array.getD_eq_getD_getElem?, Array.getElem?_replicate] at hm
    split at hm <;> cases hm
  obtain ⟨m, g, hmake, hg, hm, hgrew⟩ := Fill.make_of_good hstart hroot
  have hmet : ∀ i ∈ g.met, i < nodes.size := fun i hi =>
    (hgrew.new i hi).elim (fun h => by cases h) (· ▸ hroot.lt_size)
  have hclosed : Fill.Closed nodes g.met g := fun i hi => by
    rcases hgrew.fresh i hi with hold | hnew
    · simp [Filling.madeAt, Array.getD_eq_getD_getElem?, Array.getElem?_replicate] at hold
      split at hold <;> cases hold
    · exact Or.inl hnew
  obtain ⟨k, hrounds, hk, hkclosed, hkmade⟩ := Fill.rounds_of_sound nodes.size hg hmet hclosed
  refine ⟨k, ?_, hk, hkclosed, by rw [hkmade root m hm]; rfl⟩
  show ((Fill.make root >>= fun _ => Fill.rounds nodes.size) _ >>= fun r => _) = _
  rw [bind_of_ok hmake, hrounds]
  rfl

/-! ## Unfolding -/

namespace Filling

variable {nodes : Array Node} {f : Filling}

/-- The key made of a text: it has its node as its origin. -/
theorem key_of_text {k : Nat} {name : List Char} (hf : f.Sound nodes)
    (hk : nodes[k]? = some ⟨.str, .scalar (.text name), false⟩)
    (hmade : (f.madeAt k).isSome = true) :
    f.key k = ⟨some k, .str (String.ofList name)⟩ := by
  obtain ⟨m, hm⟩ := Option.isSome_iff_exists.mp hmade
  have hright := (hf.right k m hm).2
  cases m with
  | collection => exact absurd hk (hright _ _)
  | scalar origin v =>
    obtain ⟨tag, c, hnode, hv, horigin⟩ := hright
    rw [hk] at hnode
    cases hnode
    cases hv
    rw [key, show f.made.getD k none = _ from hm, horigin rfl]
    rfl

/-- Keys that come from the texts of a table. -/
def TextKey (nodes : Array Node) (key : Key) : Prop :=
  ∃ k name, nodes[k]? = some ⟨.str, .scalar (.text name), false⟩ ∧
    key = ⟨some k, .str (String.ofList name)⟩

/-- Two texts are one key exactly if they are equal. -/
theorem same_iff {a b : Key} (ha : TextKey nodes a) (hb : TextKey nodes b) :
    Key.same a b = true ↔ a.value = b.value := by
  obtain ⟨k, s, hk, rfl⟩ := ha
  obtain ⟨k', s', hk', rfl⟩ := hb
  have hsame : Value.sameKey (.str (String.ofList s)) (.str (String.ofList s')) =
      decide (Value.str (String.ofList s) = .str (String.ofList s')) := rfl
  rw [Key.same, hsame]
  simp only [Bool.or_eq_true, decide_eq_true_eq, Option.some.injEq, or_iff_right_iff_imp]
  rintro rfl
  rw [hk] at hk'
  cases hk'
  rfl

/-- The values of nodes that were made are what the table says, as far as they are known, and they
are known before `i`. -/
structure Valued (nodes : Array Node) (f : Filling) (i : Nat) (known : Array (Option Value)) :
    Prop where
  size_eq : known.size = nodes.size
  value : ∀ j v, Holds nodes (.node j v) → (f.madeAt j).isSome = true →
    known.getD j none = some v ∨ i ≤ j ∧ known.getD j none = none

variable {i : Nat} {known : Array (Option Value)}

theorem Valued.of_lt (h : Valued nodes f i known) {j : Nat} {v : Value}
    (hj : Holds nodes (.node j v)) (hmade : (f.madeAt j).isSome = true) (hlt : j < i) :
    known.getD j none = some v :=
  (h.value j v hj hmade).resolve_right fun h => absurd h.1 (by omega)

theorem mapM_items {is : List Nat} {vs : List Value} (h : Holds nodes (.items is vs))
    (hknown : Valued nodes f i known) (hlt : ∀ j ∈ is, j < i)
    (hmade : ∀ j ∈ is, (f.madeAt j).isSome = true) :
    is.mapM (fun j => known.getD j none) = some vs := by
  generalize hp : Saying.items is vs = p at h
  induction h generalizing is vs with
  | noItems => cases hp; rfl
  | item hj _ _ ihs =>
    cases hp
    obtain ⟨hltHead, hltTail⟩ := List.forall_mem_cons.mp hlt
    obtain ⟨hmadeHead, hmadeTail⟩ := List.forall_mem_cons.mp hmade
    rw [List.mapM_cons, hknown.of_lt hj hmadeHead hltHead, ihs hltTail hmadeTail rfl]
    rfl
  | _ => cases hp

/-- An entry of a mapping as it stands in the table, and as it is worth. -/
def EntryWorth (nodes : Array Node) (known : Array (Option Value)) (e : Key × Nat)
    (p : Value × Value) : Prop :=
  TextKey nodes e.1 ∧ e.1.value = p.1 ∧ known.getD e.2 none = some p.2

/-- Writing under a text key is the same before and after the values are looked up. -/
theorem forall₂_put {key : Key} {j : Nat} {v : Value} {m : List (Key × Nat)}
    {es : List (Value × Value)} (hkey : TextKey nodes key) (hj : known.getD j none = some v)
    (h : List.Forall₂ (EntryWorth nodes known) m es) :
    List.Forall₂ (EntryWorth nodes known) (Key.put key j m) (Assoc.set key.value v es) := by
  induction h with
  | nil => exact .cons ⟨hkey, rfl, hj⟩ .nil
  | @cons e p m es hhead htail ih =>
    obtain ⟨k', w⟩ := p
    obtain ⟨hk', rfl, hw⟩ := hhead
    rw [Key.put, Assoc.set]
    by_cases heq : e.1.value = key.value
    · rw [if_pos ((same_iff hk' hkey).mpr heq), if_pos heq]
      exact .cons ⟨hk', rfl, hj⟩ htail
    · rw [if_neg (mt (same_iff hk' hkey).mp heq), if_neg heq]
      exact .cons ⟨hk', rfl, hw⟩ ih

theorem forall₂_foldl_put {ps : List (Nat × Nat)} {es : List (Value × Value)}
    (h : Holds nodes (.entries ps es)) (hf : f.Sound nodes) (hknown : Valued nodes f i known)
    (hlt : ∀ p ∈ ps, p.1 < i ∧ p.2 < i)
    (hmade : ∀ p ∈ ps, (f.madeAt p.1).isSome = true ∧ (f.madeAt p.2).isSome = true)
    {m : List (Key × Nat)} {acc : List (Value × Value)}
    (hm : List.Forall₂ (EntryWorth nodes known) m acc) :
    List.Forall₂ (EntryWorth nodes known)
      (ps.foldl (fun m e => Key.put (f.key e.1) e.2 m) m) (Assoc.update acc es) := by
  generalize hp : Saying.entries ps es = q at h
  induction h generalizing ps es m acc with
  | noEntries => cases hp; exact hm
  | entry hk hj _ _ ihs =>
    cases hp
    obtain ⟨hltHead, hltTail⟩ := List.forall_mem_cons.mp hlt
    obtain ⟨hmadeHead, hmadeTail⟩ := List.forall_mem_cons.mp hmade
    have hkey := key_of_text hf hk hmadeHead.1
    have hput := forall₂_put ⟨_, _, hk, hkey⟩ (hknown.of_lt hj hmadeHead.2 hltHead.2) hm
    rw [hkey] at hput
    rw [List.foldl_cons, hkey, Assoc.update, List.foldl_cons]
    exact ihs hltTail hmadeTail hput rfl
  | _ => cases hp

theorem mapM_of_forall₂ {m : List (Key × Nat)} {es : List (Value × Value)}
    (h : List.Forall₂ (EntryWorth nodes known) m es) :
    m.mapM (fun e => do return (e.1.value, ← known.getD e.2 none) : _ → Option (Value × Value)) =
      some es := by
  induction h with
  | nil => rfl
  | cons hhead _ ih =>
    obtain ⟨-, hkey, hvalue⟩ := hhead
    rw [List.mapM_cons, hkey, hvalue, ih]
    rfl

/-- A node that was made, with its parts, is unfolded into what the table says. -/
theorem unfold_of_holds (hf : f.Sound nodes) (hclosed : Fill.Closed nodes [] f)
    (hknown : Valued nodes f i known) {v : Value} (h : Holds nodes (.node i v))
    (hmade : (f.madeAt i).isSome = true) : f.unfold known i = some v := by
  obtain ⟨m, hm⟩ := Option.isSome_iff_exists.mp hmade
  have hright := (hf.right i m hm).2
  have hparts : m = .collection → ∀ j ∈ parts (nodeAt nodes i), (f.madeAt j).isSome = true := by
    rintro rfl
    exact (hclosed i hm).resolve_left (by simp)
  rw [unfold, show f.made.getD i none = some m from hm, hf.nodes_eq]
  cases h with
  | scalar hi htag hv =>
    cases m with
    | collection => exact absurd hi (hright _ _)
    | scalar origin w =>
      obtain ⟨tag, c, hnode, hw, -⟩ := hright
      rw [hi] at hnode
      cases hnode
      rw [hv] at hw
      cases hw
      rfl
  | seq hi hlt his =>
    obtain rfl := hright.eq_collection hi (by simp)
    have hmade := hparts rfl
    rw [nodeAt_of_getElem? hi] at hmade ⊢
    have hitems := mapM_items his hknown hlt hmade
    simp only [if_true, hitems]
    rfl
  | map hi hlt hps =>
    rename_i ps es
    obtain rfl := hright.eq_collection hi (by simp)
    have hmade := hparts rfl
    rw [nodeAt_of_getElem? hi] at hmade ⊢
    have hall : ∀ p ∈ ps, (f.madeAt p.1).isSome = true ∧ (f.madeAt p.2).isSome = true :=
      fun p hp => ⟨hmade _ (List.mem_flatMap.mpr ⟨p, hp, by simp⟩),
        hmade _ (List.mem_flatMap.mpr ⟨p, hp, by simp⟩)⟩
    have hentries := mapM_of_forall₂ (forall₂_foldl_put hps hf hknown hlt hall .nil)
    show (do return Value.map none (← (f.keyed ps).mapM _) : Option Value) = _
    rw [keyed, hentries]
    rfl

/-- One node more is known. -/
theorem valued_learn (hf : f.Sound nodes) (hclosed : Fill.Closed nodes [] f)
    (hknown : Valued nodes f i known) : Valued nodes f (i + 1) (f.learn known i) := by
  unfold learn
  split
  · next v hv =>
    refine ⟨hknown.size_eq, fun j w hj hmade => ?_⟩
    refine (hknown.value j w hj hmade).imp_right fun ⟨hle, hnone⟩ => ⟨?_, hnone⟩
    rcases Nat.eq_or_lt_of_le hle with rfl | hlt
    · rw [hv] at hnone
      cases hnone
    · exact hlt
  · next hnone =>
    refine ⟨by simp [hknown.size_eq], fun j w hj hmade => ?_⟩
    have hsize : j < known.size := hknown.size_eq ▸ Good.lt_size ⟨w, hj⟩
    rw [getD_setIfInBounds]
    by_cases heq : i = j
    · subst heq
      rw [if_pos ⟨rfl, hsize⟩]
      exact Or.inl (unfold_of_holds hf hclosed hknown hj hmade)
    · rw [if_neg fun h => heq h.1]
      exact (hknown.value j w hj hmade).imp_right fun ⟨hle, hunknown⟩ => ⟨by omega, hunknown⟩

/-- After one pass all nodes are known. -/
theorem valued_pass (hf : f.Sound nodes) (hclosed : Fill.Closed nodes [] f)
    (hknown : Valued nodes f 0 known) : Valued nodes f nodes.size (f.pass known) := by
  rw [pass, hf.nodes_eq]
  generalize nodes.size = n
  induction n with
  | zero => exact hknown
  | succ n ih =>
    rw [List.range_succ, List.foldl_append]
    exact valued_learn hf hclosed ih

end Filling

/-- A document is worth what its table says about the root. -/
theorem value_of_holds {nodes : Array Node} {root : Nat} {v : Value}
    (h : Holds nodes (.node root v)) : Document.value ⟨nodes, root⟩ = .ok v := by
  obtain ⟨f, hf, hsound, hclosed, hmade⟩ := filling_of_good ⟨v, h⟩
  have hlt := Good.lt_size ⟨v, h⟩
  have hstart : Filling.Valued nodes f 0 (Array.replicate nodes.size none) :=
    ⟨by simp, fun j w _ _ => Or.inr ⟨Nat.zero_le _, by
      simp only [Array.getD_eq_getD_getElem?, Array.getElem?_replicate]
      split <;> rfl⟩⟩
  have hroot := (Filling.valued_pass hsound hclosed hstart).of_lt h hmade hlt
  have hvalue : f.value root nodes.size (Array.replicate nodes.size none) = some v := by
    rw [show nodes.size = (nodes.size - 1) + 1 by omega, Filling.value,
      ← show nodes.size = (nodes.size - 1) + 1 by omega, hroot]
  rw [Document.value, hf, ok_bind, hsound.nodes_eq]
  dsimp only
  rw [hvalue]
  rfl

end AnnotatedApi.Yaml
