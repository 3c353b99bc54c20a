/-
  What the annotations of a model come to. Every property is made of its own annotation
  (`Property.Reflects`): it is a reference and nothing beside it, or it is a type, a description and
  items with the settings of the annotation written over them, and no null is left in it. Under each
  name the definition has the property of the last annotation with this name, in the place of the
  first, and it requires the names of all annotations that are marked (`Model.Declares`).

  `definition_of_tags` is the statement. Besides settings that cannot be read it is a type that is
  none, or a model that cannot be written, that lets a model be refused; a `propertyType` that is
  written as bytes is such a type (`definition_of_rawTypeTag`).
-/
import AnnotatedApi.Proofs.Alike
import AnnotatedApi.Proofs.Failures

namespace AnnotatedApi

/-! ## Entries written over others -/

namespace Assoc

variable {κ α : Type} [DecidableEq κ]

theorem nodup_keys_update {l : List (κ × α)} (h : (keys l).Nodup) (m : List (κ × α)) :
    (keys (update l m)).Nodup :=
  List.foldlRecOn (motive := fun l => (keys l).Nodup) m _ h
    fun _ hl e _ => nodup_keys_set e.1 e.2 hl

/-- What is written over counts only where nothing is written. -/
theorem get?_update {m : List (κ × α)} (h : (keys m).Nodup) (k : κ) (l : List (κ × α)) :
    get? k (update l m) = (get? k m).or (get? k l) := by
  have hrun : get? k (update l m) = (Store.last k m).or (get? k l) := Store.entries.get?_run k m l
  rw [hrun, Store.last_of_nodup k h]

omit [DecidableEq κ] in
theorem nodup_keys_filter {l : List (κ × α)} (h : (keys l).Nodup) (p : κ × α → Bool) :
    (keys (l.filter p)).Nodup :=
  h.sublist (List.filter_sublist.map Prod.fst)

/-- The entries with values of a kind. -/
theorem get?_filter {l : List (κ × α)} (h : (keys l).Nodup) (p : α → Bool) (k : κ) :
    get? k (l.filter fun e => p e.2) = (get? k l).filter p := by
  induction l with
  | nil => rfl
  | cons e l ih =>
    obtain ⟨k', a⟩ := e
    simp only [keys, List.map_cons, List.nodup_cons] at h
    rw [List.filter_cons, get?_cons]
    by_cases hk : k' = k
    · subst hk
      cases hp : p a with
      | true => simp [get?_cons, Option.filter, hp]
      | false =>
        have hnone : get? k' (l.filter fun e => p e.2) = none := by
          rw [ih h.2, (get?_eq_none_iff k' l).mpr h.1]
          rfl
        simp [hnone, Option.filter, hp]
    · rw [if_neg hk, ← ih h.2]
      cases hp : p a with
      | true => simp [get?_cons, hk]
      | false => simp

end Assoc

/-- The last entry under a key is that of the last element with this key. -/
theorem Store.last_map {α κ ν : Type} [DecidableEq κ] (key : α → κ) (value : α → ν) (k : κ)
    (as : List α) :
    last k (as.map fun a => (key a, value a)) =
      (as.filter fun a => key a = k).getLast?.map value := by
  induction as with
  | nil => rfl
  | cons a as ih =>
    rw [List.map_cons, last_cons, ih]
    by_cases h : key a = k
    · rw [List.filter_cons_of_pos (by simpa using h), List.getLast?_cons, if_pos h]
      cases (as.filter fun a => key a = k).getLast? <;> rfl
    · rw [List.filter_cons_of_neg (by simpa using h), if_neg h, Option.or_none]

theorem forall₂_of_mapM_ok {ε α β : Type} {f : α → Except ε β} {as : List α} {bs : List β}
    (h : as.mapM f = .ok bs) : List.Forall₂ (fun a b => f a = .ok b) as bs := by
  induction as generalizing bs with
  | nil =>
    cases h
    exact .nil
  | cons a as ih =>
    obtain ⟨b, rest, hb, hrest, rfl⟩ := exists_of_mapM_cons_ok h
    exact .cons hb (ih hrest)

/-! ## Settings -/

namespace Settings

/-- No key stands twice among settings. -/
theorem nodup_of_extract {text : String} {x : Extracted} (h : extract text = .ok x) :
    (Assoc.keys x.settings).Nodup := by
  unfold extract at h
  split at h
  · cases h
    exact List.nodup_nil
  · cases h
    exact List.nodup_nil
  · obtain ⟨es, -, h⟩ := exists_of_bind_ok h
    obtain ⟨r, hr, h⟩ := exists_of_bind_ok h
    cases h
    obtain ⟨⟨keyed, hkeys⟩, htype⟩ := keyed_of_ofEntries hr
    obtain ⟨r', hr', hsettles⟩ := ofEntries_of_keyed hkeys htype
    obtain rfl : r = r' := Except.ok.inj (hr.symm.trans hr')
    have hnodup := Assoc.nodup_keys_ofEntries keyed
    have hsettings : r.1 = if r.2.isSome then Assoc.erase "propertyType" (Assoc.ofEntries keyed)
        else Assoc.ofEntries keyed := (hsettles "").settings
    show (Assoc.keys r.1).Nodup
    rw [hsettings]
    split
    · exact Assoc.nodup_keys_filter hnodup _
    · exact hnodup

end Settings

namespace Extracted

/-- Whether a model is named by a setting. -/
def namesModel (x : Extracted) : Bool := (Assoc.get? "modelName" x.settings).any Value.truthy

/-- The error of the reference of an annotation with these settings. -/
def refFailure? (x : Extracted) : Option AssemblyError :=
  if x.hasRawType && !x.namesModel then some .notATypeExpr
  else if x.namesUnwritable then some .unwritableModel
  else none

theorem errorOf?_modelRef (x : Extracted) (type : Option TypeExpr) :
    errorOf? (x.modelRef type) = x.refFailure? := by
  unfold modelRef refFailure? namesModel
  dsimp only
  split
  · rfl
  · exact x.errorOf?_reference type

theorem isSome_refFailure?_iff (x : Extracted) :
    x.refFailure?.isSome ↔
      x.hasRawType = true ∧ x.namesModel = false ∨ x.namesUnwritable = true := by
  unfold refFailure?
  cases x.hasRawType <;> cases x.namesModel <;> cases x.namesUnwritable <;> simp

theorem modelRef_eq_ok {x : Extracted} {type : Option TypeExpr} {ref : Option Value}
    (h : x.modelRef type = .ok ref) :
    TypeExpr.modelRef type (Assoc.get? "modelName" x.settings) = .ok ref := by
  unfold modelRef at h
  dsimp only at h
  split at h
  · cases h
  · exact AssemblyError.ofRef_eq_ok h

end Extracted

/-! ## Properties -/

namespace Property

/-- What the settings say about a field of a property. -/
def setting? (x : Extracted) (k : String) : Option Value :=
  if k = "propertyType" ∨ k = "required" then none else Assoc.get? k x.settings

/-- The annotation with the type that counts: the one that its settings declare, if they do. -/
def typed (t : Tag) (x : Extracted) : Tag := { t with type := x.declared.or t.type }

/-- What a property without settings has under a key. -/
def base? (format : String → String) (t : Tag) (x : Extracted) (k : String) : Option Value :=
  if k = "type" then
    match t.type with
    | none => some (.str "string")
    | some _ => (TypeExpr.typeName t.type).map .str
  else if k = "description" then some (.str (format x.description))
  else if k = "items" then Schema.items? t x
  else none

/-- What an annotation with the settings `x` and the reference `ref` makes of a property. -/
structure Reflects (format : String → String) (t : Tag) (x : Extracted) (ref : Option Value)
    (p : Property) : Prop where
  settings : Settings.extract t.description = .ok x
  reference :
    TypeExpr.modelRef (typed t x).type (Assoc.get? "modelName" x.settings) = .ok ref
  required : p.required =
    (markedByName t.name || (Assoc.get? "required" x.settings).any Value.truthy)
  name : p.name = if p.required then (splitName t.name).1 else t.name
  nodup : (Assoc.keys p.fields).Nodup
  /-- Nothing stands beside a reference. -/
  alone : ∀ target, ref = some target → p.fields = [("$ref", target)]
  /-- What the settings say is there, unless it is null. -/
  written : ref = none → ∀ k v, setting? x k = some v →
    Assoc.get? k p.fields = (some v).filter (· ≠ .null)
  /-- Besides there are a type, a description and items, and nothing else. -/
  generated : ref = none → ∀ k, setting? x k = none →
    Assoc.get? k p.fields = base? format (typed t x) x k
  noNull : ref = none → ∀ e ∈ p.fields, e.2 ≠ .null

variable {format : String → String} {t : Tag} {x : Extracted}

theorem get?_setting (x : Extracted) (k : String) :
    Assoc.get? k (Assoc.erase "required" (Assoc.erase "propertyType" x.settings)) =
      setting? x k := by
  rw [Assoc.get?_erase, Assoc.get?_erase, setting?]
  by_cases h₁ : k = "required" <;> by_cases h₂ : k = "propertyType" <;>
    simp [h₁, h₂, eq_comm]

theorem base?_ne_null (format : String → String) (t : Tag) (x : Extracted) (k : String) :
    (base? format t x k).filter (· ≠ .null) = base? format t x k := by
  unfold base?
  split
  · cases t.type with
    | none => rfl
    | some e => cases TypeExpr.typeName (some e) <;> rfl
  · split
    · rfl
    · split
      · cases h : Schema.items? t x with
        | none => rfl
        | some v =>
          have hne : v ≠ .null := by
            rintro rfl
            rw [← Schema.items_eq, Option.filter_eq_some_iff] at h
            exact absurd h.2 (by decide)
          simp [Option.filter, hne]
      · rfl

/-- The fields of a property that is no reference. -/
theorem plainFields_spec (hx : (Assoc.keys x.settings).Nodup) (format : String → String) (t : Tag) :
    let fields := plainFields t.type (format x.description)
      (Assoc.erase "required" (Assoc.erase "propertyType" x.settings))
    (Assoc.keys fields).Nodup ∧ (∀ e ∈ fields, e.2 ≠ .null) ∧
      ∀ k, Assoc.get? k fields = ((setting? x k).or (base? format t x k)).filter (· ≠ .null) := by
  intro fields
  let settings := Assoc.erase "required" (Assoc.erase "propertyType" x.settings)
  let typeField := TypeExpr.optionValue (match t.type with
    | none => some "string"
    | some _ => TypeExpr.typeName t.type)
  let start : Fields :=
    ("type", typeField) :: ("description", .str (format x.description)) ::
      ((Schema.items? t x).map fun v => ("items", v)).toList
  have hsettings : (Assoc.keys settings).Nodup :=
    Assoc.nodup_keys_filter (Assoc.nodup_keys_filter hx _) _
  have hstart : (Assoc.keys start).Nodup := by
    cases h : Schema.items? t x <;> simp [start, h, Assoc.keys]
  have hfields : fields = (Assoc.update start settings).filter fun f => f.2 ≠ .null := by
    have hitems : ((TypeExpr.itemSchema t.type).or (Assoc.get? "items" settings)).filter
        Value.truthy = Schema.items? t x := by
      rw [get?_setting, setting?, if_neg (by decide), Schema.items_eq]
    show plainFields _ _ settings = _
    unfold plainFields
    rw [hitems]
    rfl
  have hnodup := Assoc.nodup_keys_update hstart settings
  rw [hfields]
  refine ⟨Assoc.nodup_keys_filter hnodup _, fun e he => ?_, fun k => ?_⟩
  · simpa using (List.mem_filter.mp he).2
  · rw [Assoc.get?_filter hnodup fun v => decide (v ≠ .null), Assoc.get?_update hsettings,
      get?_setting]
    cases setting? x k with
    | some v => rfl
    | none =>
      rw [Option.none_or, Option.none_or, base?, Assoc.get?_cons, Assoc.get?_cons]
      by_cases htype : k = "type"
      · subst htype
        rw [if_pos rfl, if_pos rfl]
        cases h : t.type with
        | none => simp [typeField, h]; rfl
        | some e =>
          cases hn : TypeExpr.typeName (some e) <;>
            simp [typeField, h, hn, TypeExpr.optionValue, Option.filter]
      · rw [if_neg (Ne.symm htype), if_neg htype]
        by_cases hdescription : k = "description"
        · rw [if_pos hdescription.symm, if_pos hdescription]
        · rw [if_neg (Ne.symm hdescription), if_neg hdescription]
          by_cases hitems : k = "items"
          · subst hitems
            cases Schema.items? t x <;> rfl
          · rw [if_neg hitems]
            cases Schema.items? t x <;> simp [Assoc.get?, Ne.symm hitems]

/-- What a property is made of, once its reference is known. -/
theorem assemble_eq_ok {name : String} {type : Option TypeExpr} {p : Property}
    (h : assemble format name type x = .ok p) :
    ∃ ref, x.modelRef (x.declared.or type) = .ok ref ∧
      p.required = (markedByName name || (Assoc.get? "required" x.settings).any Value.truthy) ∧
      p.name = (if p.required then (splitName name).1 else name) ∧
      p.fields = match ref with
        | some target => [("$ref", target)]
        | none => plainFields (x.declared.or type) (format x.description)
            (Assoc.erase "required" (Assoc.erase "propertyType" x.settings)) := by
  unfold assemble at h
  obtain ⟨ref, href, h⟩ := exists_of_bind_ok h
  have hp := Except.ok.inj h
  subst hp
  refine ⟨ref, href, ?_, ?_, ?_⟩
  · dsimp only
  · dsimp only
  · cases ref <;> dsimp only

/-- An annotation that can be read reflects in the property that is made of it. -/
theorem reflects_of_extract (hx : Settings.extract t.description = .ok x) {p : Property}
    (h : ofTag format t = .ok p) :
    ∃ ref, x.modelRef (x.declared.or t.type) = .ok ref ∧ Reflects format t x ref p := by
  rw [ofTag_of_extract format hx] at h
  obtain ⟨ref, href, hrequired, hname, hfields⟩ := assemble_eq_ok h
  obtain ⟨hnodup, hnoNull, hget⟩ :=
    plainFields_spec (Settings.nodup_of_extract hx) format (typed t x)
  refine ⟨ref, href, hx, Extracted.modelRef_eq_ok href, hrequired, hname, ?_, ?_, ?_, ?_, ?_⟩
  · rw [hfields]
    cases ref with
    | none => exact hnodup
    | some target => exact List.nodup_singleton _
  · rintro target rfl
    exact hfields
  · rintro rfl k v hv
    rw [hfields]
    refine (hget k).trans ?_
    rw [hv, Option.some_or]
  · rintro rfl k hk
    rw [hfields]
    refine (hget k).trans ?_
    rw [hk, Option.none_or, base?_ne_null]
  · rintro rfl
    rw [hfields]
    exact hnoNull

theorem reflects_of_ofTag {p : Property} (h : ofTag format t = .ok p) :
    ∃ x ref, Reflects format t x ref p := by
  obtain ⟨x, hx, -⟩ := exists_of_bind_ok h
  obtain ⟨ref, -, hreflects⟩ := reflects_of_extract (AssemblyError.ofSettings_eq_ok hx) h
  exact ⟨x, ref, hreflects⟩

/-- The error of an annotation as a property. -/
def failure? (t : Tag) : Option AssemblyError :=
  match Settings.extract t.description with
  | .error e => some (.settings e)
  | .ok x => x.refFailure?

theorem errorOf?_ofTag (format : String → String) (t : Tag) :
    errorOf? (ofTag format t) = failure? t := by
  unfold failure?
  cases hx : Settings.extract t.description with
  | error e =>
    rw [ofTag, hx]
    rfl
  | ok x =>
    rw [ofTag_of_extract format hx]
    dsimp only
    rw [← x.errorOf?_modelRef (x.declared.or t.type)]
    unfold assemble
    dsimp only
    cases x.modelRef (x.declared.or t.type) <;> rfl

theorem isSome_failure?_iff {t : Tag} :
    (failure? t).isSome ↔
      (∃ e, Settings.extract t.description = .error e) ∨
        ∃ x, Settings.extract t.description = .ok x ∧
          (x.hasRawType = true ∧ x.namesModel = false ∨ x.namesUnwritable = true) := by
  unfold failure?
  cases Settings.extract t.description with
  | error e => simp
  | ok x => simp [x.isSome_refFailure?_iff]

end Property

/-! ## Models -/

def Tag.isProperty (t : Tag) : Bool := t.title = "property"

namespace Model

/-- What a model is for its annotations, the first of which is `head`. -/
structure Declares (format : String → String) (head : Tag) (rest : List Tag) (m : Model) : Prop where
  name : m.name = head.name
  properties : List.Forall₂ (fun t p => Property.ofTag format t = .ok p ∧
    ∃ x ref, Property.Reflects format t x ref p) (rest.filter Tag.isProperty) m.properties
  keys : Assoc.keys m.definition ⊆ ["allOf", "required", "properties"]
  nodup : (Assoc.keys m.definition).Nodup
  /-- There is a parent if the type of the first annotation has a name that is not empty. -/
  allOf : ∀ v, Assoc.get? "allOf" m.definition = some v ↔
    ∃ e parent, head.type = some e ∧ e.name = some parent ∧ parent ≠ "" ∧
      v = .array [TypeExpr.refTo parent]
  /-- Names are required if an annotation is marked. -/
  required : ∀ v, Assoc.get? "required" m.definition = some v ↔
    (∃ p ∈ m.properties, p.required = true) ∧
      v = .array (((m.properties.filter (·.required)).map (·.name)).map .str)
  /-- Under each name stands the last property with this name, in the place of the first. -/
  listed : ∃ listed : Fields, Assoc.get? "properties" m.definition = some (.object listed) ∧
    Assoc.keys listed = (m.properties.map (·.name)).foldl Assoc.addKey [] ∧
    (∀ n, Assoc.get? n listed =
      (m.properties.filter (·.name = n)).getLast?.map fun p => .object p.fields) ∧
    ∀ p ∈ m.properties, p.required = true → p.name ∈ Assoc.keys listed

variable {format : String → String} {head : Tag} {rest : List Tag}

theorem keys_definition (m : Model) :
    Assoc.keys m.definition ⊆ ["allOf", "required", "properties"] ∧
      (Assoc.keys m.definition).Nodup := by
  unfold definition
  cases m.parent <;> cases m.required.isEmpty <;> simp [Assoc.keys]

theorem get?_definition (m : Model) :
    Assoc.get? "allOf" m.definition = m.parent.map (fun p => .array [TypeExpr.refTo p]) ∧
      Assoc.get? "required" m.definition =
        (if m.required.isEmpty then none else some (.array (m.required.map .str))) ∧
      Assoc.get? "properties" m.definition =
        some (.object (m.propertyMap.map fun e => (e.1, .object e.2))) := by
  unfold definition
  cases m.parent <;> cases m.required.isEmpty <;> simp [Assoc.get?]

theorem ofTags_eq_ok {m : Model} (h : (ofTags format (head :: rest)).result = .ok m) :
    (rest.filter Tag.isProperty).mapM (Property.ofTag format) = .ok m.properties ∧
      m.name = head.name ∧ m.parent = (head.type.bind (·.name)).filter (· ≠ "") := by
  obtain ⟨properties, hproperties, h⟩ := Report.result_bind_eq_ok.mp h
  obtain ⟨-, -, h⟩ := Report.result_bind_eq_ok.mp h
  cases h
  exact ⟨hproperties, rfl, rfl⟩

theorem endsAs_ofTags (format : String → String) (head : Tag) (rest : List Tag) :
    EndsAs (fun _ => True) ((rest.filter Tag.isProperty).findSome? Property.failure?)
      (ofTags format (head :: rest)).result := by
  unfold ofTags
  rw [Report.result_bind]
  have hproperties : EndsAs (fun _ => True)
      ((rest.filter Tag.isProperty).findSome? Property.failure?)
      ((rest.filter Tag.isProperty).mapM (Property.ofTag format)) :=
    endsAs_mapM fun t _ => Property.errorOf?_ofTag format t
  exact hproperties.bind_ok fun ps _ => ⟨_, rfl, trivial⟩

theorem keys_propertyMap (m : Model) :
    Assoc.keys m.propertyMap = (m.properties.map (·.name)).foldl Assoc.addKey [] := by
  have hrun : Assoc.keys m.propertyMap =
      (Assoc.keys (m.properties.map fun p => (p.name, p.fields))).foldl Assoc.addKey [] :=
    Assoc.keys_run _ []
  rw [hrun, Assoc.keys, List.map_map]
  rfl

theorem get?_propertyMap (m : Model) (n : String) :
    Assoc.get? n m.propertyMap =
      (m.properties.filter (·.name = n)).getLast?.map (·.fields) := by
  have hrun : Assoc.get? n m.propertyMap =
      (Store.last n (m.properties.map fun p => (p.name, p.fields))).or none :=
    Store.entries.get?_run n _ []
  rw [hrun, Option.or_none, Store.last_map]

theorem declares_of_ofTags {m : Model} (h : (ofTags format (head :: rest)).result = .ok m) :
    m.Declares format head rest := by
  obtain ⟨hproperties, hname, hparent⟩ := ofTags_eq_ok h
  obtain ⟨hallOf, hrequired, hlisted⟩ := get?_definition m
  refine ⟨hname, ?_, (keys_definition m).1, (keys_definition m).2, fun v => ?_, fun v => ?_, ?_⟩
  · exact (forall₂_of_mapM_ok hproperties).imp fun t p hp => ⟨hp, Property.reflects_of_ofTag hp⟩
  · rw [hallOf, hparent]
    cases head.type with
    | none => simp
    | some e =>
      cases he : e.name with
      | none => simp [he]
      | some parent =>
        by_cases hne : parent = "" <;> simp [he, hne, Option.filter, eq_comm]
  · have hany : m.required.isEmpty = false ↔ ∃ p ∈ m.properties, p.required = true := by
      simp [Model.required]
    rw [hrequired, ← hany]
    cases hempty : m.required.isEmpty <;> simp [Model.required, eq_comm]
  · refine ⟨_, hlisted, ?_, fun n => ?_, fun p hp _ => ?_⟩
    · rw [Assoc.keys_mapValues, keys_propertyMap]
    · rw [Assoc.get?_mapValues, get?_propertyMap, Option.map_map]
      rfl
    · rw [Assoc.keys_mapValues, ← Assoc.isSome_get?_iff, get?_propertyMap, Option.isSome_map,
        List.getLast?_isSome]
      exact List.ne_nil_of_mem (List.mem_filter.mpr ⟨hp, by simp⟩)

end Model

/-- **What a model is.** The annotations of a model are refused if and only if one that describes a
property is: its settings cannot be read, or they give a type that is none and no model beside it,
or a model that cannot be written. Otherwise the model is what `Model.Declares` says. -/
theorem definition_of_tags (format : String → String) (head : Tag) (rest : List Tag) :
    ((∃ e, (Model.ofTags format (head :: rest)).result = .error e) ↔
      ∃ t ∈ rest, t.isProperty = true ∧
        ((∃ e, Settings.extract t.description = .error e) ∨
          ∃ x, Settings.extract t.description = .ok x ∧
            (x.hasRawType = true ∧ x.namesModel = false ∨ x.namesUnwritable = true))) ∧
    ∀ m, (Model.ofTags format (head :: rest)).result = .ok m → m.Declares format head rest := by
  refine ⟨?_, fun m hm => Model.declares_of_ofTags hm⟩
  rw [← isSome_errorOf?_iff, (Model.endsAs_ofTags format head rest).errorOf?_eq,
    List.findSome?_isSome_iff]
  simp only [Property.isSome_failure?_iff, List.mem_filter, and_assoc]

def petHead : Tag :=
  { title := "typedef", name := "Pet", type := some { name := some "Animal" } }

/-- A property that is declared twice, first with a mark, and a reference between. -/
def petProperties : List Tag :=
  [{ title := "property", name := "name.required", type := some { name := some "string" } },
   { title := "property", name := "owner", type := some { name := some "Owner.model" } },
   { title := "property", name := "name", description :=
      "Called.```yaml-swagger-settings\ntype: null\n```" }]

theorem definition_of_petProperties :
    ∃ m, (Model.ofTags id (petHead :: petProperties)).result = .ok m ∧
      m.Declares id petHead petProperties ∧ m.required = ["name"] ∧
      Assoc.keys m.propertyMap = ["name", "owner"] := by
  have hvalues : (Model.ofTags id (petHead :: petProperties)).result.toOption.map
      (fun m => (m.required, Assoc.keys m.propertyMap)) = some (["name"], ["name", "owner"]) := by
    decide +kernel
  obtain ⟨m, hm, hpair⟩ := exists_of_toOption_map hvalues
  exact ⟨m, hm, (definition_of_tags id petHead petProperties).2 m hm,
    congrArg Prod.fst hpair, congrArg Prod.snd hpair⟩

/-- A property whose settings give its type as `integer`, under a key of bytes. -/
def rawTypeTag : Tag :=
  { title := "property", name := "size", description :=
      "```yaml-swagger-settings\n!!binary cHJvcGVydHlUeXBl: integer\n```" }

/-- The settings of such a property can be read, and yet the model is refused. -/
theorem definition_of_rawTypeTag :
    (∃ x, Settings.extract rawTypeTag.description = .ok x) ∧
      (Model.ofTags id [{ title := "typedef", name := "Pet" }, rawTypeTag]).result =
        .error .notATypeExpr := by
  have hraw : (Settings.extract rawTypeTag.description).toOption.map
      (fun x => x.hasRawType && !x.namesModel) = some true := by decide +kernel
  obtain ⟨x, hx, hnone⟩ := exists_of_toOption_map hraw
  have hfails : Property.failure? rawTypeTag = some .notATypeExpr := by
    rw [Property.failure?, hx]
    dsimp only
    rw [Extracted.refFailure?, if_pos hnone]
  have hfilter : [rawTypeTag].filter Tag.isProperty = [rawTypeTag] :=
    List.filter_cons_of_pos (decide_eq_true rfl)
  have hmodel := (Model.endsAs_ofTags id { title := "typedef", name := "Pet" }
    [rawTypeTag]).errorOf?_eq
  rw [hfilter, findSome?_cons_or, hfails, Option.some_or] at hmodel
  exact ⟨⟨x, hx⟩, errorOf?_eq_some_iff.mp hmodel⟩

end AnnotatedApi
