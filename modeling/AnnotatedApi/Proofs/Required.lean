/-
  Required properties. A model requires the names of all annotations that are marked, and lists
  under each name the property of the last annotation with this name. The two agree if and only if
  no marked annotation is followed by another one with its name (`required_agrees_iff`): the mark of
  the earlier annotation stays, and a second mark requires the name again
  (`required_of_redeclared`).

  A property is marked by the second part of its name or by a setting. The setting changes nothing
  else of it if its name has no dot (`property_of_requiredSetting`); a dotted name loses all that
  stands behind its first dot, and properties with different names can come to be one
  (`property_of_dottedName`).
-/
import AnnotatedApi.Proofs.Models

namespace AnnotatedApi

namespace Property

/-! ## Names that are required and names that are listed -/

/-- The names of the properties that are marked. -/
def requiredNames (ps : List Property) : List String := (ps.filter (·.required)).map (·.name)

/-- The last property with a name, which is the one that stands under it. -/
def lastNamed (n : String) (ps : List Property) : Option Property :=
  (ps.filter (·.name = n)).getLast?

/-- Each name is required once, and exactly if the property that stands under it is marked. -/
structure Agree (ps : List Property) : Prop where
  nodup : (requiredNames ps).Nodup
  mem : ∀ n, n ∈ requiredNames ps ↔ ∃ p, lastNamed n ps = some p ∧ p.required = true

/-- No marked property is followed by another one with its name. -/
def Final (ps : List Property) : Prop :=
  ps.Pairwise fun p q => p.required = true → q.name ≠ p.name

variable {p : Property} {ps : List Property} {n : String}

theorem requiredNames_cons (p : Property) (ps : List Property) :
    requiredNames (p :: ps) = (if p.required then [p.name] else []) ++ requiredNames ps := by
  unfold requiredNames
  cases h : p.required <;> simp [h]

theorem requiredNames_concat (ps : List Property) (p : Property) :
    requiredNames (ps ++ [p]) = requiredNames ps ++ if p.required then [p.name] else [] := by
  unfold requiredNames
  cases h : p.required <;> simp [h]

theorem mem_requiredNames : n ∈ requiredNames ps ↔ ∃ p ∈ ps, p.required = true ∧ p.name = n := by
  simp [requiredNames, and_assoc]

theorem lastNamed_cons (n : String) (p : Property) (ps : List Property) :
    lastNamed n (p :: ps) = (lastNamed n ps).or (if p.name = n then some p else none) := by
  unfold lastNamed
  by_cases h : p.name = n
  · rw [List.filter_cons_of_pos (by simpa using h), List.getLast?_cons, if_pos h]
    cases (ps.filter fun p => p.name = n).getLast? <;> rfl
  · rw [List.filter_cons_of_neg (by simpa using h), if_neg h, Option.or_none]

theorem isSome_lastNamed : (lastNamed n ps).isSome ↔ ∃ p ∈ ps, p.name = n := by
  rw [lastNamed, List.getLast?_isSome, ne_eq, List.filter_eq_nil_iff]
  simp

/-- Where a name comes again, the property in front does not count. -/
theorem lastNamed_cons_of_mem (h : ∃ q ∈ ps, q.name = n) :
    lastNamed n (p :: ps) = lastNamed n ps := by
  rw [lastNamed_cons, Option.or_of_isSome (isSome_lastNamed.mpr h)]

theorem lastNamed_cons_of_notMem (h : ∀ q ∈ ps, q.name ≠ n) :
    lastNamed n (p :: ps) = if p.name = n then some p else none := by
  have hnone : lastNamed n ps = none := by
    rw [← Option.not_isSome_iff_eq_none, isSome_lastNamed]
    rintro ⟨q, hq, hname⟩
    exact h q hq hname
  rw [lastNamed_cons, hnone, Option.none_or]

theorem mem_requiredNames_of_lastNamed (h : lastNamed n ps = some p) (hp : p.required = true) :
    n ∈ requiredNames ps := by
  obtain ⟨hmem, hname⟩ := List.mem_filter.mp (List.mem_of_getLast? h)
  exact mem_requiredNames.mpr ⟨p, hmem, hp, by simpa using hname⟩

theorem agree_nil : Agree [] := ⟨List.nodup_nil, fun n => by simp [requiredNames, lastNamed]⟩

theorem Agree.of_cons (h : Agree (p :: ps)) : Agree ps := by
  obtain ⟨hnodup, hmem⟩ := h
  rw [requiredNames_cons] at hnodup
  refine ⟨hnodup.of_append_right, fun n => ⟨fun hn => ?_, fun ⟨q, hq, hrequired⟩ =>
    mem_requiredNames_of_lastNamed hq hrequired⟩⟩
  obtain ⟨q, hq, -, hname⟩ := mem_requiredNames.mp hn
  rw [← lastNamed_cons_of_mem (p := p) ⟨q, hq, hname⟩]
  refine (hmem n).mp ?_
  rw [requiredNames_cons]
  exact List.mem_append_right _ hn

/-- A marked property whose name comes again: the one that stands under the name is marked too, so
the name is required twice, or it is not, and the name is required all the same. -/
theorem Agree.head (h : Agree (p :: ps)) (hp : p.required = true) : ∀ q ∈ ps, q.name ≠ p.name := by
  obtain ⟨hnodup, hmem⟩ := h
  rintro q hq hname
  rw [requiredNames_cons, if_pos hp, List.singleton_append, List.nodup_cons] at hnodup
  have hrequired : p.name ∈ requiredNames (p :: ps) := mem_requiredNames.mpr
    ⟨p, List.mem_cons_self, hp, rfl⟩
  obtain ⟨r, hlast, hr⟩ := (hmem p.name).mp hrequired
  rw [lastNamed_cons_of_mem ⟨q, hq, hname⟩] at hlast
  exact hnodup.1 (mem_requiredNames_of_lastNamed hlast hr)

theorem Agree.cons (hp : p.required = true → ∀ q ∈ ps, q.name ≠ p.name) (h : Agree ps) :
    Agree (p :: ps) := by
  have hnew : p.required = true → p.name ∉ requiredNames ps := fun hrequired hmem => by
    obtain ⟨q, hq, -, hname⟩ := mem_requiredNames.mp hmem
    exact hp hrequired q hq hname
  refine ⟨?_, fun n => ⟨fun hn => ?_, fun ⟨q, hq, hrequired⟩ =>
    mem_requiredNames_of_lastNamed hq hrequired⟩⟩
  · rw [requiredNames_cons]
    split
    · next hrequired => exact List.nodup_cons.mpr ⟨hnew hrequired, h.nodup⟩
    · exact h.nodup
  · by_cases hagain : ∃ q ∈ ps, q.name = n
    · rw [lastNamed_cons_of_mem hagain]
      refine (h.mem n).mp ?_
      rw [requiredNames_cons, List.mem_append] at hn
      refine hn.resolve_left fun hfront => ?_
      obtain ⟨q, hq, hname⟩ := hagain
      split at hfront
      · next hrequired => exact hp hrequired q hq (hname.trans (List.mem_singleton.mp hfront))
      · cases hfront
    · -- The name does not come again, so the marked property that has it is the one in front.
      obtain ⟨q, hq, hrequired, rfl⟩ := mem_requiredNames.mp hn
      obtain rfl | hq := List.mem_cons.mp hq
      · rw [lastNamed_cons_of_notMem fun r hr hname => hagain ⟨r, hr, hname⟩, if_pos rfl]
        exact ⟨q, rfl, hrequired⟩
      · exact absurd ⟨q, hq, rfl⟩ hagain

/-- Induction on the properties from the front, since a later one decides about an earlier one. -/
theorem agree_iff_final : Agree ps ↔ Final ps := by
  unfold Final
  induction ps with
  | nil => simp [agree_nil]
  | cons p ps ih =>
    rw [List.pairwise_cons, ← ih]
    constructor
    · intro h
      exact ⟨fun q hq hp => h.head hp q hq, h.of_cons⟩
    · rintro ⟨hp, h⟩
      exact h.cons fun hrequired q hq => hp q hq hrequired

end Property

/-! ## Required names of a model -/

/-- **When the names that are required agree with the properties.** Of a model that is not refused,
each name stands for the last property that has it, and a property is marked as its annotation says.
The names that are required are those of these properties that are marked, each of them once, if and
only if no marked property is followed by another one with its name. -/
theorem required_agrees_iff (format : String → String) (tags : List Tag) {m : Model}
    (h : (Model.ofTags format tags).result = .ok m) :
    List.Forall₂ (fun t p => Property.ofTag format t = .ok p ∧
      ∃ x ref, Property.Reflects format t x ref p) (tags.tail.filter Tag.isProperty) m.properties ∧
    (∀ v, Assoc.get? "required" m.definition = some v ↔
      Property.requiredNames m.properties ≠ [] ∧
        v = .array ((Property.requiredNames m.properties).map .str)) ∧
    (∃ listed : Fields, Assoc.get? "properties" m.definition = some (.object listed) ∧
      ∀ n, Assoc.get? n listed =
        (Property.lastNamed n m.properties).map fun p => .object p.fields) ∧
    (Property.Agree m.properties ↔ Property.Final m.properties) := by
  cases tags with
  | nil => cases h
  | cons head rest =>
    obtain ⟨listed, hlisted, -, hget, -⟩ := (Model.declares_of_ofTags h).listed
    refine ⟨(Model.declares_of_ofTags h).properties, fun v => ?_, ⟨listed, hlisted, hget⟩,
      Property.agree_iff_final⟩
    rw [(Model.declares_of_ofTags h).required v]
    simp [Property.requiredNames]

/-- Properties of a pet by their names, which say whether they are marked. -/
def namedTags (names : List String) : List Tag :=
  { title := "typedef", name := "Pet" } :: names.map fun n => { title := "property", name := n }

theorem required_agrees_pet :
    ∃ m, (Model.ofTags id (namedTags ["age", "name.required", "age.required"])).result = .ok m ∧
      Property.Agree m.properties := by
  have hvalues : (Model.ofTags id
      (namedTags ["age", "name.required", "age.required"])).result.toOption.map
        (fun m => m.properties.map fun p => (p.required, p.name)) =
      some [(false, "age"), (true, "name"), (true, "age")] := by decide +kernel
  obtain ⟨m, hm, hmarks⟩ := exists_of_toOption_map hvalues
  have hfinal : (m.properties.map fun p => (p.required, p.name)).Pairwise
      fun a b => a.1 = true → b.2 ≠ a.2 := by
    rw [hmarks]
    decide
  exact ⟨m, hm, (required_agrees_iff id _ hm).2.2.2.mpr (List.pairwise_map.mp hfinal)⟩

/-- A mark stays when the property is declared again without it, and a second mark requires the name
a second time. -/
theorem required_of_redeclared :
    (Model.ofTags id (namedTags ["age.required", "age"])).result.toOption.map
      (fun m => (m.required, (Property.lastNamed "age" m.properties).map (·.required))) =
        some (["age"], some false) ∧
    (Model.ofTags id (namedTags ["age.required", "age.required"])).result.toOption.map
      (·.required) = some ["age", "age"] := by
  decide +kernel

/-! ## Marks by a setting -/

theorem Extracted.modelRef_congr {x x' : Extracted}
    (htype : Assoc.get? "propertyType" x'.settings = Assoc.get? "propertyType" x.settings)
    (hmodel : Assoc.get? "modelName" x'.settings = Assoc.get? "modelName" x.settings)
    (type : Option TypeExpr) : x'.modelRef type = x.modelRef type := by
  unfold modelRef hasRawType
  rw [htype, hmodel]

/-- Two annotations that differ in one setting: the second says `required: true` in addition. -/
structure SameButRequired (t t' : Tag) (x x' : Extracted) : Prop where
  name : t'.name = t.name
  type : t'.type = t.type
  extracted : Settings.extract t.description = .ok x
  extracted' : Settings.extract t'.description = .ok x'
  description : x'.description = x.description
  declared : x'.declared = x.declared
  settings : ∀ k, k ≠ "required" → Assoc.get? k x'.settings = Assoc.get? k x.settings
  unmarked : Assoc.get? "required" x.settings = none
  marked : Assoc.get? "required" x'.settings = some (.bool true)

namespace Property

variable {format : String → String} {t t' : Tag} {x x' : Extracted} {p : Property}

theorem splitName_eq_self_iff {name : String} : (splitName name).1 = name ↔ '.' ∉ name.toList := by
  have hfirst : (splitName name).1.toList = name.toList.takeWhile (· ≠ '.') := by
    rw [← Text.fst_cutAt, splitName, String.toList_ofList]
  rw [← String.toList_inj, hfirst, List.takeWhile_eq_self_iff]
  simp only [ne_eq, decide_not, Bool.not_eq_eq_eq_not, Bool.not_true, decide_eq_false_iff_not]
  exact ⟨fun h hdot => h '.' hdot rfl, fun h c hc hdot => h (hdot ▸ hc)⟩

/-- A property keeps the name of its annotation unless it is marked and the name has a dot. -/
theorem name_eq_iff (h : ofTag format t = .ok p) :
    p.name = t.name ↔ p.required = false ∨ '.' ∉ t.name.toList := by
  obtain ⟨x, ref, hreflects⟩ := reflects_of_ofTag h
  rw [hreflects.name]
  cases p.required with
  | false => simp
  | true => simp [splitName_eq_self_iff]

/-- Properties with one reference are alike if their settings and the rest of their fields are. -/
theorem Reflects.alike {ref : Option Value} {p p' : Property} (hp : Reflects format t x ref p)
    (hp' : Reflects format t' x' ref p') (hsetting : ∀ k, setting? x' k = setting? x k)
    (hbase : ∀ k, base? format (typed t' x') x' k = base? format (typed t x) x k) :
    Assoc.Alike Eq p.fields p'.fields := by
  refine Assoc.Alike.of_nodup hp.nodup hp'.nodup fun k => ?_
  cases ref with
  | some target => rw [hp.alone target rfl, hp'.alone target rfl]
  | none =>
    cases hk : setting? x k with
    | some v => rw [hp.written rfl k v hk, hp'.written rfl k v ((hsetting k).trans hk)]
    | none => rw [hp.generated rfl k hk, hp'.generated rfl k ((hsetting k).trans hk), hbase]

/-- Two annotations with the same reference are refused for the same reason, or both are read. -/
theorem ofTag_both (format : String → String) (hx : Settings.extract t.description = .ok x)
    (hx' : Settings.extract t'.description = .ok x')
    (href : x'.modelRef (x'.declared.or t'.type) = x.modelRef (x.declared.or t.type)) :
    (∃ e, ofTag format t = .error e ∧ ofTag format t' = .error e) ∨
      ∃ ref p p', ofTag format t = .ok p ∧ ofTag format t' = .ok p' ∧
        Reflects format t x ref p ∧ Reflects format t' x' ref p' := by
  have hofTag := ofTag_of_extract format hx
  have hofTag' := ofTag_of_extract format hx'
  cases hr : x.modelRef (x.declared.or t.type) with
  | error e =>
    rw [assemble, hr] at hofTag
    rw [assemble, href, hr] at hofTag'
    exact .inl ⟨e, hofTag, hofTag'⟩
  | ok ref =>
    rw [assemble, hr] at hofTag
    rw [assemble, href, hr] at hofTag'
    obtain ⟨ref₁, href₁, hreflects⟩ := reflects_of_extract hx hofTag
    obtain ⟨ref₂, href₂, hreflects'⟩ := reflects_of_extract hx' hofTag'
    obtain rfl : ref₁ = ref₂ := Except.ok.inj (href₁.symm.trans (href.symm.trans href₂))
    exact .inr ⟨ref₁, _, _, hofTag, hofTag', hreflects, hreflects'⟩

theorem fields_alike (h : SameButRequired t t' x x') {ref : Option Value} {p p' : Property}
    (hp : Reflects format t x ref p) (hp' : Reflects format t' x' ref p') :
    Assoc.Alike Eq p.fields p'.fields := by
  refine hp.alike hp' (fun k => ?_) fun k => ?_
  · unfold setting?
    split
    · rfl
    · next hk => exact h.settings k fun hr => hk (.inr hr)
  · have htyped : (typed t' x').type = (typed t x).type := by
      simp only [typed, h.declared, h.type]
    unfold base? Schema.items?
    rw [htyped, h.description, h.settings "items" (by decide)]

/-- A setting that only marks a property lets it be refused, or be a reference, just as before. -/
theorem ofTag_same (format : String → String) (h : SameButRequired t t' x x') :
    (∃ e, ofTag format t = .error e ∧ ofTag format t' = .error e) ∨
      ∃ ref p p', ofTag format t = .ok p ∧ ofTag format t' = .ok p' ∧
        Reflects format t x ref p ∧ Reflects format t' x' ref p' := by
  refine ofTag_both format h.extracted h.extracted' ?_
  rw [h.declared, h.type]
  exact Extracted.modelRef_congr (h.settings _ (by decide)) (h.settings _ (by decide)) _

end Property

/-- **A property that is marked by a setting.** Of two annotations that differ in the setting
`required: true`, neither of them marked by its name, both are refused for the same reason, or both
are read: to the same schema, and the name of the second is required besides. The first property has
the name of its annotation, the second what stands in front of the first dot of it. So the two have
one name if and only if it has no dot, and then no other property that keeps its name has it. -/
theorem property_of_requiredSetting (format : String → String) {t t' : Tag} {x x' : Extracted}
    (h : SameButRequired t t' x x') (hname : Property.markedByName t.name = false) :
    (∃ e, Property.ofTag format t = .error e ∧ Property.ofTag format t' = .error e) ∨
    ∃ p p', Property.ofTag format t = .ok p ∧ Property.ofTag format t' = .ok p' ∧
      Assoc.Alike Eq p.fields p'.fields ∧
      (∀ ps, Property.requiredNames (ps ++ [p]) = Property.requiredNames ps ∧
        Property.requiredNames (ps ++ [p']) = Property.requiredNames ps ++ [p'.name]) ∧
      p.name = t.name ∧ p'.name = (Property.splitName t.name).1 ∧
      (p'.name = p.name ↔ '.' ∉ t.name.toList) ∧
      ∀ u q, Property.ofTag format u = .ok q → q.required = false ∨ '.' ∉ u.name.toList →
        '.' ∉ t.name.toList → u.name ≠ t.name → q.name ≠ p'.name := by
  refine (Property.ofTag_same format h).imp_right ?_
  rintro ⟨ref, p, p', hp, hp', hreflects, hreflects'⟩
  have hrequired : p.required = false := by
    rw [hreflects.required, hname, h.unmarked]
    rfl
  have hrequired' : p'.required = true := by
    rw [hreflects'.required, h.marked]
    exact Bool.or_true _
  have hpname : p.name = t.name := (Property.name_eq_iff hp).mpr (.inl hrequired)
  have hpname' : p'.name = (Property.splitName t.name).1 := by
    rw [hreflects'.name, hrequired', if_pos rfl, h.name]
  refine ⟨p, p', hp, hp', Property.fields_alike h hreflects hreflects', fun ps => ⟨?_, ?_⟩, hpname,
    hpname', ?_, fun u q hq hkept hdot hne => ?_⟩
  · rw [Property.requiredNames_concat, hrequired]
    exact List.append_nil _
  · rw [Property.requiredNames_concat, hrequired']
    rfl
  · rw [hpname, hpname', Property.splitName_eq_self_iff]
  · rw [(Property.name_eq_iff hq).mpr hkept, hpname', Property.splitName_eq_self_iff.mpr hdot]
    exact hne

/-- A part of an address, with a description of it. -/
def addressTag (name description : String) : Tag :=
  { title := "property", name := name, description := description }

def plainText : String := "Home."

def requiredText : String := "Home.\n```yaml-swagger-settings\nrequired: true\n```"

def plainHome : Extracted := { description := "Home." }

def requiredHome : Extracted := { settings := [("required", .bool true)], description := "Home." }

theorem extract_plainText : Settings.extract plainText = .ok plainHome :=
  Settings.extract_of_parts rfl (by decide +kernel)

theorem extract_requiredText : Settings.extract requiredText = .ok requiredHome :=
  Settings.extract_of_parts rfl (by decide +kernel)

theorem sameButRequired_address (name : String) :
    SameButRequired (addressTag name plainText) (addressTag name requiredText)
      plainHome requiredHome where
  name := rfl
  type := rfl
  extracted := extract_plainText
  extracted' := extract_requiredText
  description := rfl
  declared := rfl
  settings k hk := by
    rw [requiredHome, Assoc.get?_cons, if_neg (Ne.symm hk)]
    rfl
  unmarked := rfl
  marked := rfl

theorem property_of_requiredStreet :
    ∃ p p', Property.ofTag id (addressTag "street" plainText) = .ok p ∧
      Property.ofTag id (addressTag "street" requiredText) = .ok p' ∧
      Assoc.Alike Eq p.fields p'.fields ∧ p'.name = p.name := by
  have hread := Property.ofTag_of_extract (t := addressTag "street" plainText) id extract_plainText
  obtain ⟨e, he, -⟩ | ⟨p, p', hp, hp', halike, -, -, -, hsame, -⟩ :=
    property_of_requiredSetting id (sameButRequired_address "street") (by decide +kernel)
  · rw [hread] at he
    cases he
  · exact ⟨p, p', hp, hp', halike, hsame.mpr (by decide)⟩

/-- A dotted name is cut at its first dot if a setting marks the property, and then two different
properties have one name. -/
theorem property_of_dottedName :
    SameButRequired (addressTag "address.city" plainText) (addressTag "address.city" requiredText)
      plainHome requiredHome ∧
    Property.markedByName "address.city" = false ∧
    (Property.ofTag id (addressTag "address.city" plainText)).toOption.map (·.name) =
      some "address.city" ∧
    (Property.ofTag id (addressTag "address.city" requiredText)).toOption.map (·.name) =
      some "address" ∧
    (Property.ofTag id (addressTag "address.street" requiredText)).toOption.map (·.name) =
      some "address" := by
  have hplain (name : String) :=
    Property.ofTag_of_extract (t := addressTag name plainText) id extract_plainText
  have hrequired (name : String) :=
    Property.ofTag_of_extract (t := addressTag name requiredText) id extract_requiredText
  rw [hplain, hrequired, hrequired]
  exact ⟨sameButRequired_address _, by decide +kernel, by decide +kernel, by decide +kernel,
    by decide +kernel⟩

end AnnotatedApi
