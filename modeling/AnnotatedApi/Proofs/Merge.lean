/-
  Merging a contribution into a document, section by section. In an unshared document a merge
  that does not fail replaces the three sections and leaves all else as it is
  (`Merge.state_entries`); what it puts in their place is said by `Sections.take`, for each
  section by itself. `Contribution.Fits` is enough for a merge not to fail
  (`Merge.error_entries`), and holds before one that does not. Contributions merged one after
  another come to the same as all of them joined together (`Sections.foldl_take`,
  `Merge.state_all`, `Merge.error_all`), and have to fit the sections as they were at first
  (`Merge.fits_of_all`).
-/
import AnnotatedApi.Proofs.Groups
import AnnotatedApi.Proofs.Paths
import AnnotatedApi.Proofs.Run

namespace AnnotatedApi

namespace Merge

variable {d : Entries} {ps : Entries}

/-! ## Paths -/

theorem setItem_eq (hp : d.get? "paths" = some (.map none ps)) (uri : String) (es : Entries) :
    setItem uri (.map none es) d =
      d.put "paths" (.map none (Assoc.set (.str uri) (.map none es) ps)) := by
  unfold setItem
  rw [hp]
  simp only
  rw [Entries.set_eq_put "paths" rfl, Value.settle_unlabelled rfl, Entries.get?_put_self]
  simp only
  rw [Entries.set_eq_put "paths" rfl, Entries.put_put]

theorem item?_eq (hp : d.get? "paths" = some (.map none ps)) (uri : String) :
    item? uri d = Assoc.get? (.str uri) ps := by
  unfold item?
  rw [hp]

theorem addOperation_of_map (hp : d.get? "paths" = some (.map none ps)) {uri : String}
    {es : Entries} (hi : Assoc.get? (.str uri) ps = some (.map none es)) (op : String × Value) :
    (addOperation uri d op).error = none ∧ (addOperation uri d op).state =
      d.put "paths" (.map none (Paths.put (.str uri, .str op.1) op.2 ps)) := by
  unfold addOperation
  rw [item?_eq hp, hi]
  simp only [found?]
  refine ⟨trivial, ?_⟩
  rw [setItem_eq hp, Paths.put, Paths.item_eq_of_get? hi]

/-- An operation that could be added has found a mapping to add it to. -/
theorem map_of_addOperation (hp : d.get? "paths" = some (.map none ps))
    (ha : Paths.Every (fun v => v.isShared = false) ps) {uri : String} {op : String × Value}
    (h : (addOperation uri d op).error = none) :
    ∃ es, Assoc.get? (.str uri) ps = some (.map none es) := by
  unfold addOperation at h
  rw [item?_eq hp] at h
  cases hi : Assoc.get? (.str uri) ps with
  | none => simp [hi] at h
  | some v =>
    have hv : v.isShared = false := ha.get? hi
    rw [hi] at h
    cases v with
    | map l es =>
      obtain rfl := Value.label_map hv
      exact ⟨es, rfl⟩
    | _ => simp [found?] at h

theorem each_addOperation_of_map (hp : d.get? "paths" = some (.map none ps)) {uri : String}
    {es : Entries} (hi : Assoc.get? (.str uri) ps = some (.map none es))
    (ops : List (String × Value)) :
    (Edit.each (addOperation uri) d ops).error = none ∧
      (Edit.each (addOperation uri) d ops).state =
        d.put "paths" (.map none (Paths.operations.run (Paths.writes (uri, ops)) ps)) := by
  induction ops generalizing d ps es with
  | nil => exact ⟨rfl, (Entries.put_eq_self hp).symm⟩
  | cons op ops ih =>
    obtain ⟨herr, hstate⟩ := addOperation_of_map hp hi op
    have hp' : (d.put "paths" (.map none (Paths.put (.str uri, .str op.1) op.2 ps))).get? "paths" =
        some (.map none (Paths.put (.str uri, .str op.1) op.2 ps)) := Entries.get?_put_self _ _ _
    obtain ⟨es', hi', -⟩ := (Paths.grows_put (.str uri, .str op.1) op.2 ps).kept _ _ hi
    obtain ⟨herr', hstate'⟩ := ih hp' hi'
    rw [Edit.each_cons, Edit.error_andThen herr, Edit.state_andThen herr, hstate]
    exact ⟨herr', by rw [hstate', Entries.put_put]; rfl⟩

theorem addPath_eq (hp : d.get? "paths" = some (.map none ps))
    (path : String × List (String × Value)) :
    addPath d path = Edit.each (addOperation path.1)
      (d.put "paths" (.map none (Paths.ensureItem path.1 ps))) path.2 := by
  unfold addPath Paths.ensureItem
  rw [hp]
  simp only
  split
  · rw [Entries.put_eq_self hp]
  · rw [setItem_eq hp]

theorem error_addPath (hp : d.get? "paths" = some (.map none ps))
    {path : String × List (String × Value)}
    (h : path.2 = [] ∨ Paths.Writable path.1 ps) : (addPath d path).error = none := by
  rw [addPath_eq hp]
  rcases h with h | h
  · rw [h]
    rfl
  · exact (each_addOperation_of_map (Entries.get?_put_self _ _ _)
      (Paths.get?_ensureItem_of_writable h) path.2).1

/-- Operations that could be added have found a mapping to add them to. -/
theorem writable_of_addPath (hp : d.get? "paths" = some (.map none ps))
    (ha : Paths.Every (fun v => v.isShared = false) ps) {path : String × List (String × Value)}
    (h : (addPath d path).error = none) : path.2 = [] ∨ Paths.Writable path.1 ps := by
  rw [addPath_eq hp] at h
  cases hops : path.2 with
  | nil => exact Or.inl rfl
  | cons op ops =>
    right
    rw [hops, Edit.each_cons, Edit.error_andThen_eq_none] at h
    obtain ⟨es, hi⟩ := map_of_addOperation (Entries.get?_put_self _ _ _)
      (ha.ensureItem (fun _ => rfl) path.1) h.1
    intro v hv
    rw [Paths.ensureItem_of_mem ((Assoc.isSome_get?_iff _ _).mp (by simp [hv])), hv] at hi
    exact ⟨es, Option.some.inj hi⟩

theorem state_addPath (hp : d.get? "paths" = some (.map none ps))
    (ha : Paths.Every (fun v => v.isShared = false) ps) {path : String × List (String × Value)}
    (h : (addPath d path).error = none) :
    (addPath d path).state = d.put "paths" (.map none (Paths.putPath ps path)) := by
  rw [addPath_eq hp] at h ⊢
  have hp' : (d.put "paths" (.map none (Paths.ensureItem path.1 ps))).get? "paths" =
      some (.map none (Paths.ensureItem path.1 ps)) := Entries.get?_put_self _ _ _
  obtain ⟨uri, ops⟩ := path
  cases ops with
  | nil => rfl
  | cons op ops =>
    rw [Edit.each_cons, Edit.error_andThen_eq_none] at h
    obtain ⟨es, hi⟩ := map_of_addOperation hp' (ha.ensureItem (fun _ => rfl) uri) h.1
    rw [(each_addOperation_of_map hp' hi (op :: ops)).2, Entries.put_put]
    rfl

theorem error_each_addPath (hp : d.get? "paths" = some (.map none ps))
    (ha : Paths.Every (fun v => v.isShared = false) ps)
    {paths : List (String × List (String × Value))}
    (h : ∀ path ∈ paths, path.2 = [] ∨ Paths.Writable path.1 ps) :
    (Edit.each addPath d paths).error = none := by
  induction paths generalizing d ps with
  | nil => rfl
  | cons path paths ih =>
    have herr := error_addPath hp (h path List.mem_cons_self)
    rw [Edit.each_cons, Edit.error_andThen herr, state_addPath hp ha herr]
    refine ih (Entries.get?_put_self _ _ _) (ha.putPath (fun _ => rfl) path) ?_
    intro path' hp'
    exact (h path' (List.mem_cons_of_mem _ hp')).imp_right (Paths.grows_putPath ps path).writable

theorem state_each_addPath (hp : d.get? "paths" = some (.map none ps))
    (ha : Paths.Every (fun v => v.isShared = false) ps)
    {paths : List (String × List (String × Value))}
    (h : (Edit.each addPath d paths).error = none) :
    (Edit.each addPath d paths).state = d.put "paths" (.map none (Paths.putAll paths ps)) := by
  induction paths generalizing d ps with
  | nil => exact (Entries.put_eq_self hp).symm
  | cons path paths ih =>
    rw [Edit.each_cons, Edit.error_andThen_eq_none] at h
    have hstate := state_addPath hp ha h.1
    rw [Edit.each_cons, Edit.state_andThen h.1]
    rw [hstate] at h ⊢
    rw [ih (Entries.get?_put_self _ _ _) (ha.putPath (fun _ => rfl) path) h.2, Entries.put_put]
    rfl

theorem writable_of_each_addPath (hp : d.get? "paths" = some (.map none ps))
    (ha : Paths.Every (fun v => v.isShared = false) ps)
    {paths : List (String × List (String × Value))}
    (h : (Edit.each addPath d paths).error = none) :
    ∀ path ∈ paths, path.2 = [] ∨ Paths.Writable path.1 ps := by
  induction paths generalizing d ps with
  | nil => simp
  | cons path paths ih =>
    rw [Edit.each_cons, Edit.error_andThen_eq_none] at h
    have hfirst := writable_of_addPath hp ha h.1
    rw [state_addPath hp ha h.1] at h
    have hrest := ih (Entries.get?_put_self _ _ _) (ha.putPath (fun _ => rfl) path) h.2
    refine List.forall_mem_cons.mpr ⟨hfirst, fun path' hp' => ?_⟩
    refine (hrest path' hp').imp_right fun hw => ?_
    have hall : ∀ path' ∈ [path], path'.2 = [] ∨ Paths.Writable path'.1 ps := by
      simpa using hfirst
    exact Paths.writable_of_putAll hall hw

/-! ## Described groups -/

variable {ts : List Value} {tag : List (String × String)}

/-- A step of the search: it ends at an entry of the name, and passes over one of another. -/
theorem knownFrom_cons {i : Nat} {v : Value} {known : Option Nat}
    (h : knownFrom tag i (v :: ts) = .ok known) :
    ∃ l es, v = .map l es ∧
      (Groups.isNamed (Groups.nameOf tag) v = true ∧ known = some i ∨
        Groups.isNamed (Groups.nameOf tag) v = false ∧ knownFrom tag (i + 1) ts = .ok known) := by
  cases v with
  | map l es =>
    refine ⟨l, es, rfl, ?_⟩
    unfold knownFrom at h
    cases hname : Assoc.get? "name" tag with
    | none => simp [hname] at h
    | some name =>
      have hof : Groups.nameOf tag = name := by simp [Groups.nameOf, hname]
      simp only [hname] at h
      split at h
      · next hn =>
        cases h
        exact .inl ⟨by simp [Groups.isNamed, Groups.name?, hof, hn], rfl⟩
      · next hn => exact .inr ⟨by simp [Groups.isNamed, Groups.name?, hof, hn], h⟩
  | _ => simp [knownFrom] at h

theorem knownFrom_some {i j : Nat} (h : knownFrom tag i ts = .ok (some j)) :
    ∃ pre l es post, ts = pre ++ .map l es :: post ∧ j = i + pre.length ∧
      pre.any (Groups.isNamed (Groups.nameOf tag)) = false ∧
      Groups.isNamed (Groups.nameOf tag) (.map l es) = true := by
  induction ts generalizing i with
  | nil => simp [knownFrom] at h
  | cons v ts ih =>
    obtain ⟨l, es, rfl, ⟨hv, hj⟩ | ⟨hv, hrest⟩⟩ := knownFrom_cons h
    · cases hj
      exact ⟨[], l, es, ts, rfl, rfl, rfl, hv⟩
    · obtain ⟨pre, l', es', post, rfl, rfl, hpre, hv'⟩ := ih hrest
      refine ⟨.map l es :: pre, l', es', post, rfl, ?_, ?_, hv'⟩
      · rw [List.length_cons]
        omega
      · rw [List.any_cons, hv, hpre, Bool.or_false]

theorem knownFrom_none {i : Nat} (h : knownFrom tag i ts = .ok none) :
    ts.any (Groups.isNamed (Groups.nameOf tag)) = false := by
  induction ts generalizing i with
  | nil => rfl
  | cons v ts ih =>
    obtain ⟨l, es, rfl, ⟨-, hj⟩ | ⟨hv, hrest⟩⟩ := knownFrom_cons h
    · cases hj
    · rw [List.any_cons, hv, ih hrest, Bool.or_false]

/-- A search among mappings comes to an end. -/
theorem knownFrom_of_maps (hd : Groups.Described tag) (h : ∀ v ∈ ts, v.IsMap) (i : Nat) :
    ∃ known, knownFrom tag i ts = .ok known := by
  obtain ⟨name, hname⟩ := Option.isSome_iff_exists.mp hd.1
  induction ts generalizing i with
  | nil => exact ⟨none, rfl⟩
  | cons v ts ih =>
    obtain ⟨l, es, rfl⟩ := h v List.mem_cons_self
    unfold knownFrom
    simp only [hname]
    split
    · exact ⟨some i, rfl⟩
    · exact ih (fun w hw => h w (List.mem_cons_of_mem _ hw)) (i + 1)

/-- The entry that a search has found borrows the description. -/
theorem describe_eq {pre post : List Value} {es : Entries}
    (ht : d.get? "tags" = some (.list none (pre ++ .map none es :: post)))
    (hd : Groups.Described tag) :
    (describe tag none pre.length (pre ++ .map none es :: post) d).error = none ∧
    (describe tag none pre.length (pre ++ .map none es :: post) d).state =
      d.put "tags"
        (.list none (pre ++ Groups.borrow (Groups.textOf tag) (.map none es) :: post)) := by
  obtain ⟨text, htext⟩ := Option.isSome_iff_exists.mp hd.2
  have hof : Groups.textOf tag = text := by simp [Groups.textOf, htext]
  have hget : (pre ++ Value.map none es :: post)[pre.length]? = some (.map none es) := by simp
  unfold describe
  rw [hget]
  simp only
  by_cases hdesc : (Assoc.get? (.str "description") es).any Value.truthy = true
  · have hb : Groups.borrow (Groups.textOf tag) (.map none es) = .map none es := if_pos hdesc
    rw [if_pos hdesc, hb]
    exact ⟨rfl, (Entries.put_eq_self ht).symm⟩
  · have hb : Groups.borrow (Groups.textOf tag) (.map none es) =
        .map none (Assoc.set (.str "description") (.str text) es) := by
      rw [← hof]
      exact if_neg hdesc
    rw [if_neg hdesc, hb]
    simp only [htext, setTags]
    rw [Entries.set_eq_put "tags" rfl, Value.settle_unlabelled rfl, Entries.get?_put_self]
    simp only
    rw [Entries.set_eq_put "tags" rfl, Entries.put_put]
    simp

/-- A group that could be added stands in the list or has left its description there. -/
theorem state_addTag (ht : d.get? "tags" = some (.list none ts))
    (hs : ∀ v ∈ ts, v.isShared = false) (hd : Groups.Described tag) {dedupe : Bool}
    (h : (addTag dedupe d tag).error = none) :
    (addTag dedupe d tag).state = d.put "tags" (.list none (Groups.add dedupe ts tag)) := by
  have happend : setTags (.list none (ts ++ [tagValue tag])) d =
      d.put "tags" (.list none (ts ++ [tagValue tag])) := Entries.set_eq_put "tags" rfl d
  unfold addTag at h ⊢
  rw [ht] at h ⊢
  cases dedupe with
  | false => simpa [Groups.add] using happend
  | true =>
    simp only [if_true] at h ⊢
    unfold Groups.add Groups.takeIn
    cases hk : knownFrom tag 0 ts with
    | error e => simp [hk] at h
    | ok known =>
      cases known with
      | none => simpa [knownFrom_none hk] using happend
      | some i =>
        obtain ⟨pre, l, es, post, rfl, hi, hpre, hv⟩ := knownFrom_some hk
        obtain rfl := Value.label_map (hs (.map l es) (by simp))
        rw [Nat.zero_add] at hi
        subst hi
        have hany : (pre ++ .map none es :: post).any (Groups.isNamed (Groups.nameOf tag)) =
            true := by
          simp [hv]
        rw [if_pos rfl, if_pos hany, Groups.borrowFirst_split _ hpre hv]
        exact (describe_eq ht hd).2

theorem error_addTag (ht : d.get? "tags" = some (.list none ts)) (hts : ∀ v ∈ ts, v.IsOwnMap)
    (hd : Groups.Described tag) (dedupe : Bool) : (addTag dedupe d tag).error = none := by
  unfold addTag
  rw [ht]
  cases dedupe with
  | false => rfl
  | true =>
    obtain ⟨known, hk⟩ := knownFrom_of_maps hd (fun t ht => (hts t ht).isMap) 0
    simp only [if_true, hk]
    cases known with
    | none => rfl
    | some i =>
      obtain ⟨pre, l, es, post, rfl, hi, -, -⟩ := knownFrom_some hk
      obtain ⟨es', he⟩ := hts (.map l es) (by simp)
      cases he
      rw [Nat.zero_add] at hi
      subst hi
      exact (describe_eq ht hd).1

theorem state_each_addTag (ht : d.get? "tags" = some (.list none ts))
    (hs : ∀ v ∈ ts, v.isShared = false) {tags : List (List (String × String))}
    (hd : ∀ t ∈ tags, Groups.Described t) {dedupe : Bool}
    (h : (Edit.each (addTag dedupe) d tags).error = none) :
    (Edit.each (addTag dedupe) d tags).state =
      d.put "tags" (.list none (tags.foldl (Groups.add dedupe) ts)) := by
  induction tags generalizing d ts with
  | nil => exact (Entries.put_eq_self ht).symm
  | cons tag tags ih =>
    rw [Edit.each_cons, Edit.error_andThen_eq_none] at h
    have hstate := state_addTag ht hs (hd tag List.mem_cons_self) h.1
    rw [Edit.each_cons, Edit.state_andThen h.1]
    rw [hstate] at h ⊢
    rw [ih (Entries.get?_put_self _ _ _) (Groups.unshared_add hs dedupe tag)
      (fun t ht => hd t (List.mem_cons_of_mem _ ht)) h.2, Entries.put_put]
    rfl

theorem error_each_addTag (ht : d.get? "tags" = some (.list none ts))
    (hts : ∀ v ∈ ts, v.IsOwnMap) {tags : List (List (String × String))}
    (hd : ∀ t ∈ tags, Groups.Described t) (dedupe : Bool) :
    (Edit.each (addTag dedupe) d tags).error = none := by
  induction tags generalizing d ts with
  | nil => rfl
  | cons tag tags ih =>
    have hs : ∀ v ∈ ts, v.isShared = false := fun v hv => (hts v hv).isShared
    have hdesc := hd tag List.mem_cons_self
    have herr := error_addTag ht hts hdesc dedupe
    rw [Edit.each_cons, Edit.error_andThen herr, state_addTag ht hs hdesc herr]
    exact ih (Entries.get?_put_self _ _ _) (Groups.own_add hts dedupe tag)
      fun t ht => hd t (List.mem_cons_of_mem _ ht)

/-! ## Definitions -/

/-- The name of a definition added to a set, if it is not there. -/
def putName (vs : List Value) (e : String × Value) : List Value :=
  if vs.contains (.str e.1) then vs else vs ++ [.str e.1]

/-- The definitions written into the section that takes them. -/
def putDefinitions (definitions : List (String × Value)) : Value → Value
  | .map l es => .map l (Store.entries.run (definitions.map fun e => (Value.str e.1, e.2)) es)
  | .set l vs => .set l (definitions.foldl putName vs)
  | v => v

/-- What can hold definitions: a mapping, or a set, which keeps the names only. -/
def HoldsDefinitions (v : Value) : Prop := (∃ es, v = .map none es) ∨ ∃ vs, v = .set none vs

theorem HoldsDefinitions.putDefinitions {v : Value} (h : HoldsDefinitions v)
    (definitions : List (String × Value)) : HoldsDefinitions (putDefinitions definitions v) := by
  rcases h with ⟨es, rfl⟩ | ⟨vs, rfl⟩
  · exact Or.inl ⟨_, rfl⟩
  · exact Or.inr ⟨_, rfl⟩

theorem HoldsDefinitions.of_putDefinitions {v : Value} {definitions : List (String × Value)}
    (h : HoldsDefinitions (Merge.putDefinitions definitions v)) : HoldsDefinitions v := by
  cases v with
  | map l es =>
    rcases h with ⟨es', h⟩ | ⟨vs, h⟩ <;> cases h
    exact Or.inl ⟨es, rfl⟩
  | set l vs =>
    rcases h with ⟨es, h⟩ | ⟨vs', h⟩ <;> cases h
    exact Or.inr ⟨vs, rfl⟩
  | _ => exact h

theorem addDefinitions_of_holds {v : Value} (hv : d.get? "definitions" = some v)
    (h : HoldsDefinitions v) (definitions : List (String × Value)) :
    (addDefinitions definitions d).error = none ∧
    (addDefinitions definitions d).state =
      d.put "definitions" (putDefinitions definitions v) := by
  unfold addDefinitions
  rw [hv]
  rcases h with ⟨es, rfl⟩ | ⟨vs, rfl⟩
  · refine ⟨rfl, ?_⟩
    simp only
    rw [Entries.set_eq_put "definitions" rfl, putDefinitions, Store.run, List.foldl_map]
    rfl
  · refine ⟨rfl, ?_⟩
    simp only
    rw [Entries.set_eq_put "definitions" rfl, putDefinitions]
    rfl

theorem holds_of_addDefinitions {v : Value} (hv : d.get? "definitions" = some v)
    (hs : v.isShared = false) {definitions : List (String × Value)}
    (h : (addDefinitions definitions d).error = none) : HoldsDefinitions v := by
  unfold addDefinitions at h
  rw [hv] at h
  cases v with
  | map l es =>
    obtain rfl := Value.label_map hs
    exact Or.inl ⟨es, rfl⟩
  | set l vs =>
    obtain rfl := Value.label_set hs
    exact Or.inr ⟨vs, rfl⟩
  | _ => simp at h

/-! ## The three sections together -/

/-- The operations written into the section that takes them. -/
def putPaths (paths : List (String × List (String × Value))) : Value → Value
  | .map l ps => .map l (Paths.putAll paths ps)
  | v => v

/-- The groups added to the section that takes them. -/
def putTags (dedupe : Bool) (tags : List (List (String × String))) : Value → Value
  | .list l ts => .list l (tags.foldl (Groups.add dedupe) ts)
  | v => v

theorem putPaths_nil (v : Value) : putPaths [] v = v := by
  cases v <;> rfl

theorem putTags_nil (dedupe : Bool) (v : Value) : putTags dedupe [] v = v := by
  cases v <;> rfl

end Merge

open Merge

/-- What a contribution needs of the sections to be merged into them. -/
structure Contribution.Fits (c : Contribution) (s : Sections) : Prop where
  paths : c.paths = [] ∨ ∃ ps, s.paths = .map none ps ∧
    ∀ path ∈ c.paths, path.2 = [] ∨ Paths.Writable path.1 ps
  tags : c.tags = [] ∨ ∃ ts, s.tags = .list none ts
  definitions : HoldsDefinitions s.definitions

namespace Sections

/-- The sections after a contribution. -/
def take (dedupe : Bool) (s : Sections) (c : Contribution) : Sections :=
  ⟨putPaths c.paths s.paths, putTags dedupe c.tags s.tags,
    putDefinitions c.definitions s.definitions⟩

/-- The described groups are mappings. -/
def Grouped (s : Sections) : Prop := ∀ l ts, s.tags = .list l ts → ∀ v ∈ ts, v.IsOwnMap

end Sections

namespace Merge

variable {d : Entries} {v : Value} {c : Contribution} {dedupe : Bool}

/-- Operations that could be written have found a mapping, and it takes them. -/
theorem paths_of_each {paths : List (String × List (String × Value))}
    (hv : d.get? "paths" = some v) (hs : v.isShared = false)
    (hi : ∀ l ps, v = .map l ps → ∀ e ∈ ps, e.2.isShared = false)
    (h : (Edit.each addPath d paths).error = none) :
    (Edit.each addPath d paths).state = d.put "paths" (putPaths paths v) ∧
      (paths = [] ∨ ∃ ps, v = .map none ps ∧
        ∀ path ∈ paths, path.2 = [] ∨ Paths.Writable path.1 ps) := by
  cases paths with
  | nil =>
    rw [putPaths_nil]
    exact ⟨(Entries.put_eq_self hv).symm, Or.inl rfl⟩
  | cons path paths =>
    cases v with
    | map l ps =>
      obtain rfl := Value.label_map hs
      exact ⟨state_each_addPath hv (hi none ps rfl) h,
        Or.inr ⟨ps, rfl, writable_of_each_addPath hv (hi none ps rfl) h⟩⟩
    | _ =>
      rw [Edit.each_cons, Edit.error_andThen_eq_none] at h
      simp [addPath, hv] at h

/-- Groups that could be added have found a list, and it takes them. -/
theorem tags_of_each {tags : List (List (String × String))} (hv : d.get? "tags" = some v)
    (hs : v.isShared = false)
    (hg : ∀ ts, Finish.items? v = some ts → ∀ t ∈ ts, t.isShared = false)
    (hd : ∀ t ∈ tags, Groups.Described t) (h : (Edit.each (addTag dedupe) d tags).error = none) :
    (Edit.each (addTag dedupe) d tags).state = d.put "tags" (putTags dedupe tags v) ∧
      (tags = [] ∨ ∃ ts, v = .list none ts) := by
  cases tags with
  | nil =>
    rw [putTags_nil]
    exact ⟨(Entries.put_eq_self hv).symm, Or.inl rfl⟩
  | cons tag tags =>
    cases v with
    | list l ts =>
      obtain rfl := Value.label_list hs
      exact ⟨state_each_addTag hv (hg ts rfl) hd h, Or.inr ⟨ts, rfl⟩⟩
    | _ =>
      rw [Edit.each_cons, Edit.error_andThen_eq_none] at h
      simp [addTag, hv] at h

/-- A document section by section: what is put into a section does not touch the next. -/
theorem entries_eq (dedupe : Bool) (c : Contribution) (d : Entries) :
    entries dedupe c d =
      ((Edit.each addPath (d.put "paths" (Sections.of d).paths) c.paths).andThen
        fun d => Edit.each (addTag dedupe) (d.put "tags" (Sections.of d).tags) c.tags).andThen
          fun d => addDefinitions c.definitions
            (d.put "definitions" (Sections.of d).definitions) := by
  unfold entries
  rw [Entries.ensure_eq_put "paths" rfl]
  simp only [Entries.ensure_eq_put "tags" (show (Value.list none []).label? = none from rfl),
    Entries.ensure_eq_put "definitions" (show (Value.map none []).label? = none from rfl)]
  rfl

/-- A merge that does not fail replaces the three sections, and they were fit for it. -/
theorem state_entries (hu : (Sections.of d).Unshared) (hd : ∀ t ∈ c.tags, Groups.Described t)
    (h : (entries dedupe c d).error = none) :
    (entries dedupe c d).state = d.withSections ((Sections.of d).take dedupe c) ∧
      c.Fits (Sections.of d) := by
  rw [entries_eq, Edit.error_andThen_eq_none, Edit.error_andThen_eq_none] at h
  obtain ⟨⟨hp, ht⟩, hx⟩ := h
  rw [entries_eq, Edit.state_andThen (Edit.error_andThen_eq_none.mpr ⟨hp, ht⟩),
    Edit.state_andThen hp]
  rw [Edit.state_andThen hp] at hx
  obtain ⟨hpaths, hfp⟩ := paths_of_each (Entries.get?_put_self _ _ _) hu.paths hu.items hp
  rw [Entries.put_put] at hpaths
  rw [hpaths, Sections.tags_put_paths] at ht hx ⊢
  obtain ⟨htags, hft⟩ := tags_of_each (Entries.get?_put_self _ _ _) hu.tags hu.groups hd ht
  rw [Entries.put_put] at htags
  rw [htags, Sections.definitions_put_tags, Sections.definitions_put_paths] at hx ⊢
  have hfx := holds_of_addDefinitions (Entries.get?_put_self _ _ _) hu.definitions hx
  rw [(addDefinitions_of_holds (Entries.get?_put_self _ _ _) hfx c.definitions).2,
    Entries.put_put]
  exact ⟨rfl, hfp, hft, hfx⟩

theorem error_entries (hu : (Sections.of d).Unshared) (hd : ∀ t ∈ c.tags, Groups.Described t)
    (hf : c.Fits (Sections.of d)) (hg : (Sections.of d).Grouped) (dedupe : Bool) :
    (entries dedupe c d).error = none := by
  have hp : (Edit.each addPath (d.put "paths" (Sections.of d).paths) c.paths).error = none := by
    rcases hf.paths with hnil | ⟨ps, hps, hw⟩
    · rw [hnil]
      rfl
    · rw [hps]
      exact error_each_addPath (Entries.get?_put_self _ _ _) (hu.items none ps hps) hw
  obtain ⟨hpaths, -⟩ := paths_of_each (Entries.get?_put_self _ _ _) hu.paths hu.items hp
  rw [Entries.put_put] at hpaths
  rw [entries_eq, Edit.error_andThen_eq_none, Edit.error_andThen_eq_none, Edit.state_andThen hp,
    hpaths, Sections.tags_put_paths]
  have ht : (Edit.each (addTag dedupe) ((d.put "paths" (putPaths c.paths (Sections.of d).paths)).put
      "tags" (Sections.of d).tags) c.tags).error = none := by
    rcases hf.tags with hnil | ⟨ts, hts⟩
    · rw [hnil]
      rfl
    · rw [hts]
      exact error_each_addTag (Entries.get?_put_self _ _ _) (hg none ts hts) hd dedupe
  obtain ⟨htags, -⟩ := tags_of_each (Entries.get?_put_self _ _ _) hu.tags hu.groups hd ht
  rw [Entries.put_put] at htags
  rw [htags, Sections.definitions_put_tags, Sections.definitions_put_paths]
  exact ⟨⟨hp, ht⟩,
    (addDefinitions_of_holds (Entries.get?_put_self _ _ _) hf.definitions c.definitions).1⟩

end Merge

/-! ## What a contribution leaves as it was -/

namespace Sections

variable {s : Sections} {dedupe : Bool}

theorem unshared_putPaths {v : Value} (h : ∀ l ps, v = .map l ps → ∀ e ∈ ps, e.2.isShared = false)
    (paths : List (String × List (String × Value))) :
    ∀ l ps, putPaths paths v = .map l ps → ∀ e ∈ ps, e.2.isShared = false := by
  intro l ps hps
  cases v with
  | map l' ps' =>
    simp only [putPaths, Value.map.injEq] at hps
    obtain ⟨-, rfl⟩ := hps
    have hold : Paths.Every (fun v => v.isShared = false) ps' := h l' ps' rfl
    exact hold.putAll (fun _ => rfl) paths
  | _ => exact h l ps hps

theorem foldl_add_every {P : Value → Prop}
    (step : ∀ ts, (∀ v ∈ ts, P v) → ∀ tag, ∀ v ∈ Groups.add dedupe ts tag, P v)
    (tags : List (List (String × String))) {ts : List Value} (h : ∀ v ∈ ts, P v) :
    ∀ v ∈ tags.foldl (Groups.add dedupe) ts, P v := by
  induction tags generalizing ts with
  | nil => exact h
  | cons tag tags ih => exact ih (step ts h tag)

theorem Unshared.take (h : s.Unshared) (dedupe : Bool) (c : Contribution) :
    (s.take dedupe c).Unshared := by
  obtain ⟨paths, tags, definitions⟩ := s
  refine ⟨?_, unshared_putPaths h.items c.paths, ?_, ?_, ?_⟩
  · cases paths <;> exact h.paths
  · cases tags <;> exact h.tags
  · intro ts hts
    cases tags with
    | list l us =>
      simp only [Sections.take, putTags, Finish.items?, Option.some.injEq] at hts
      subst hts
      exact foldl_add_every (fun ts hs tag => Groups.unshared_add hs dedupe tag) c.tags
        (h.groups us rfl)
    | _ => exact h.groups ts hts
  · cases definitions <;> exact h.definitions

theorem Grouped.take (h : s.Grouped) (dedupe : Bool) (c : Contribution) :
    (s.take dedupe c).Grouped := by
  obtain ⟨paths, tags, definitions⟩ := s
  intro l ts hts
  cases tags with
  | list l' us =>
    simp only [Sections.take, putTags, Value.list.injEq] at hts
    obtain ⟨-, rfl⟩ := hts
    exact foldl_add_every (fun ts hs tag => Groups.own_add hs dedupe tag) c.tags (h l' us rfl)
  | _ => exact h l ts hts

end Sections

theorem Contribution.Fits.take {s : Sections} {c : Contribution} (h : c.Fits s) (dedupe : Bool)
    (c' : Contribution) : c.Fits (s.take dedupe c') := by
  refine ⟨?_, ?_, h.definitions.putDefinitions c'.definitions⟩
  · refine h.paths.imp_right ?_
    rintro ⟨ps, hps, hw⟩
    refine ⟨Paths.putAll c'.paths ps, by simp only [Sections.take, hps, putPaths], ?_⟩
    intro path hpath
    exact (hw path hpath).imp_right (Paths.grows_putAll c'.paths ps).writable
  · refine h.tags.imp_right ?_
    rintro ⟨ts, hts⟩
    exact ⟨c'.tags.foldl (Groups.add dedupe) ts, by simp only [Sections.take, hts, putTags]⟩

/-- What sections are fit for after a contribution that they were fit for, they were fit for
before. -/
theorem Contribution.Fits.of_take {s : Sections} {c c' : Contribution} {dedupe : Bool}
    (h : c.Fits (s.take dedupe c')) (h' : c'.Fits s) : c.Fits s := by
  obtain ⟨paths, tags, definitions⟩ := s
  refine ⟨?_, ?_, h.definitions.of_putDefinitions⟩
  · refine h.paths.imp_right ?_
    rintro ⟨ps', hps', hw⟩
    cases paths with
    | map l ps =>
      cases hps'
      refine ⟨ps, rfl, fun path hpath => (hw path hpath).imp_right fun hw => ?_⟩
      rcases h'.paths with hnil | ⟨ps', hps', hw'⟩
      · rwa [hnil] at hw
      · cases hps'
        exact Paths.writable_of_putAll hw' hw
    | _ => cases hps'
  · refine h.tags.imp_right ?_
    rintro ⟨ts', hts'⟩
    cases tags with
    | list l ts =>
      cases hts'
      exact ⟨ts, rfl⟩
    | _ => cases hts'

/-! ## Several contributions -/

/-- Contributions joined, each section by itself. -/
def Contribution.join (cs : List Contribution) : Contribution :=
  ⟨cs.flatMap (·.paths), cs.flatMap (·.tags), cs.flatMap (·.definitions)⟩

theorem Contribution.described_join {cs : List Contribution}
    (h : ∀ c ∈ cs, ∀ t ∈ c.tags, Groups.Described t) :
    ∀ t ∈ (join cs).tags, Groups.Described t := by
  intro t ht
  obtain ⟨c, hc, ht⟩ := List.mem_flatMap.mp ht
  exact h c hc t ht

/-- Contributions taken one after another are taken together. -/
theorem Sections.foldl_take (dedupe : Bool) (cs : List Contribution) (s : Sections) :
    cs.foldl (take dedupe) s = s.take dedupe (Contribution.join cs) := by
  induction cs generalizing s with
  | nil =>
    obtain ⟨paths, tags, definitions⟩ := s
    have hd : putDefinitions [] definitions = definitions := by cases definitions <;> rfl
    simp [take, Contribution.join, putPaths_nil, putTags_nil, hd]
  | cons c cs ih =>
    obtain ⟨paths, tags, definitions⟩ := s
    rw [List.foldl_cons, ih]
    simp only [take, Contribution.join, List.flatMap_cons, Sections.mk.injEq]
    refine ⟨?_, ?_, ?_⟩
    · cases paths <;> simp [putPaths, Paths.putAll]
    · cases tags <;> simp [putTags]
    · cases definitions <;> simp [putDefinitions, Store.run]

namespace Merge

/-- Contributions merged one after another. -/
def all (dedupe : Bool) (cs : List Contribution) (d : Entries) : Edit MergeError Entries :=
  Edit.each (fun d c => entries dedupe c d) d cs

/-- All sections are there. -/
def Complete (d : Entries) : Prop := d.withSections (Sections.of d) = d

/-- The document `d'` is `d` with the contributions in its sections. -/
structure Taken (dedupe : Bool) (cs : List Contribution) (d d' : Entries) : Prop where
  sections : Sections.of d' = cs.foldl (Sections.take dedupe) (Sections.of d)
  rest : ∀ s, d'.withSections s = d.withSections s
  complete : Complete d → Complete d'

theorem Taken.eq_withSections {dedupe : Bool} {cs : List Contribution} {d d' : Entries}
    (h : Taken dedupe cs d d') (hd : Complete d) :
    d' = d.withSections (cs.foldl (Sections.take dedupe) (Sections.of d)) := by
  rw [← h.sections, ← h.rest]
  exact (h.complete hd).symm

theorem Taken.cons {dedupe : Bool} {c : Contribution} {cs : List Contribution} {d d' : Entries}
    (h : Taken dedupe cs (d.withSections ((Sections.of d).take dedupe c)) d') :
    Taken dedupe (c :: cs) d d' := by
  refine ⟨?_, ?_, fun _ => h.complete ?_⟩
  · rw [h.sections, Entries.of_withSections]
    rfl
  · intro s
    rw [h.rest, Entries.withSections_withSections]
  · rw [Complete, Entries.of_withSections, Entries.withSections_withSections]

variable {d : Entries} {cs : List Contribution} {dedupe : Bool}

/-- What a contribution leaves true, several leave true. -/
theorem foldl_take_keeps {P : Sections → Prop} (step : ∀ s c, P s → P (s.take dedupe c))
    {s : Sections} (h : P s) : P (cs.foldl (Sections.take dedupe) s) :=
  List.foldlRecOn cs _ h fun s hs c _ => step s c hs

/-- Contributions that could be merged fitted the sections from the start. -/
theorem fits_of_all (hu : (Sections.of d).Unshared)
    (hd : ∀ c ∈ cs, ∀ t ∈ c.tags, Groups.Described t) (h : (all dedupe cs d).error = none) :
    ∀ c ∈ cs, c.Fits (Sections.of d) := by
  induction cs generalizing d with
  | nil => simp
  | cons c cs ih =>
    rw [all, Edit.each_cons, Edit.error_andThen_eq_none] at h
    obtain ⟨hstate, hfit⟩ := state_entries hu (hd c List.mem_cons_self) h.1
    rw [hstate] at h
    have hof := Entries.of_withSections d ((Sections.of d).take dedupe c)
    have hrest := ih (by rw [hof]; exact hu.take dedupe c)
      (fun c hc => hd c (List.mem_cons_of_mem _ hc)) h.2
    rw [hof] at hrest
    exact List.forall_mem_cons.mpr ⟨hfit, fun c' hc' => (hrest c' hc').of_take hfit⟩

theorem taken_all (hu : (Sections.of d).Unshared)
    (hd : ∀ c ∈ cs, ∀ t ∈ c.tags, Groups.Described t) (h : (all dedupe cs d).error = none) :
    Taken dedupe cs d (all dedupe cs d).state := by
  induction cs generalizing d with
  | nil => exact ⟨rfl, fun _ => rfl, id⟩
  | cons c cs ih =>
    rw [all, Edit.each_cons, Edit.error_andThen_eq_none] at h
    have hstate := (state_entries hu (hd c List.mem_cons_self) h.1).1
    rw [hstate] at h
    rw [all, Edit.each_cons, Edit.state_andThen h.1, hstate]
    refine (ih ?_ (fun c hc => hd c (List.mem_cons_of_mem _ hc)) h.2).cons
    rw [Entries.of_withSections]
    exact hu.take dedupe c

/-- Contributions that could be merged are in the document, which is fit for them again. -/
theorem state_all (hu : (Sections.of d).Unshared)
    (hd : ∀ c ∈ cs, ∀ t ∈ c.tags, Groups.Described t) (h : (all dedupe cs d).error = none) :
    Taken dedupe cs d (all dedupe cs d).state ∧
      ∀ c ∈ cs, c.Fits (Sections.of (all dedupe cs d).state) := by
  have htaken := taken_all hu hd h
  refine ⟨htaken, fun c hc => ?_⟩
  rw [htaken.sections]
  exact foldl_take_keeps (fun s c' hs => hs.take dedupe c') (fits_of_all hu hd h c hc)

theorem error_all (hu : (Sections.of d).Unshared)
    (hd : ∀ c ∈ cs, ∀ t ∈ c.tags, Groups.Described t) (hf : ∀ c ∈ cs, c.Fits (Sections.of d))
    (hg : (Sections.of d).Grouped) (dedupe : Bool) : (all dedupe cs d).error = none := by
  induction cs generalizing d with
  | nil => rfl
  | cons c cs ih =>
    have hdc := hd c List.mem_cons_self
    have herr := error_entries hu hdc (hf c List.mem_cons_self) hg dedupe
    rw [all, Edit.each_cons, Edit.error_andThen herr, (state_entries hu hdc herr).1]
    refine ih ?_ (fun c hc => hd c (List.mem_cons_of_mem _ hc)) ?_ ?_ <;>
      rw [Entries.of_withSections]
    · exact hu.take dedupe c
    · exact fun c' hc' => (hf c' (List.mem_cons_of_mem _ hc')).take dedupe c
    · exact hg.take dedupe c

theorem each_merge (dedupe : Bool) (cs : List Contribution) (l : Option Label) (d : Entries) :
    (Edit.each (fun v c => merge dedupe c v) (.map l d) cs).error = (all dedupe cs d).error ∧
    (Edit.each (fun v c => merge dedupe c v) (.map l d) cs).state =
      .map l (all dedupe cs d).state := by
  induction cs generalizing d with
  | nil => exact ⟨rfl, rfl⟩
  | cons c cs ih =>
    rw [all, Edit.each_cons, Edit.each_cons]
    cases h : (entries dedupe c d).error with
    | some err =>
      have hm : (merge dedupe c (.map l d)).error = some err := h
      rw [Edit.andThen_of_error h, Edit.andThen_of_error hm]
      exact ⟨rfl, rfl⟩
    | none =>
      have hm : (merge dedupe c (.map l d)).error = none := h
      rw [Edit.error_andThen h, Edit.state_andThen h, Edit.error_andThen hm, Edit.state_andThen hm]
      exact ih _

end Merge

end AnnotatedApi
