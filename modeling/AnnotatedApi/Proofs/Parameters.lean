/-
  What the annotation of a parameter comes to. Its name, its location and its description are
  written first, the settings over them, and the type last: a schema if there is a reference, else a
  type name, perhaps with a format, and items only where there are none yet. So the type is written
  over the settings (`Parameter.imposed`), the settings over the rest (`Parameter.base?`), and
  `Parameter.Reflects` says so key by key.

  `schema_or_type` says when a parameter has a schema and a type at once, and `value_of_setting`
  when a setting is not what the parameter has. Both come about only where a setting speaks of the
  type: a reference leaves a `type` of the settings beside it and replaces their `schema`, and a
  simple type replaces their `type` and their `format` and leaves their `schema` beside it
  (`schema_beside_type`, `type_over_setting`).
-/
import AnnotatedApi.Proofs.Models

namespace AnnotatedApi

namespace Parameter

/-! ## The fields of a parameter -/

/-- The name of the simple type of a parameter. One without a type is a string. -/
def simpleType? (type : Option TypeExpr) : Option String :=
  (match type with
    | none => some "string"
    | some _ => TypeExpr.typeName type).filter (· ≠ "")

/-- A type name in front of its first point, and what is behind it as the format. -/
def typeFields (name : String) : Fields :=
  let format := (name.toList.dropWhile (· ≠ '.')).drop 1
  ("type", .str (String.ofList (name.toList.takeWhile (· ≠ '.')))) ::
    if format = [] then [] else [("format", .str (String.ofList format))]

/-- What the type writes over the settings: the schema of a reference, or else a simple type. -/
def imposed (type : Option TypeExpr) (ref : Option Value) : Fields :=
  match ref with
  | some target => [("schema", .object [("$ref", target)])]
  | none => ((simpleType? type).map typeFields).getD []

/-- What the settings say about a field of a parameter. -/
def setting? (x : Extracted) (k : String) : Option Value :=
  if k = "propertyType" ∨ k = "modelName" then none else Assoc.get? k x.settings

/-- What a parameter has under a key of which neither its type nor its settings speak. -/
def base? (field : Field) (description : String) (type : Option TypeExpr) (ref : Option Value)
    (k : String) : Option Value :=
  if k = "name" then some (.str field.name)
  else if k = "in" then some (.str field.location)
  else if k = "description" then some (.str description)
  else if k = "required" then some (.bool field.required)
  else if k = "items" ∧ ref = none then TypeExpr.itemSchema type
  else none

variable {x : Extracted} {t : Tag} {type : Option TypeExpr} {ref : Option Value} {fields : Fields}
  {k : String}

theorem get?_setting (x : Extracted) (k : String) :
    Assoc.get? k (Assoc.erase "modelName" (Assoc.erase "propertyType" x.settings)) =
      setting? x k := by
  rw [Assoc.get?_erase, Assoc.get?_erase, setting?]
  by_cases h₁ : k = "modelName" <;> by_cases h₂ : k = "propertyType" <;>
    simp [h₁, h₂, eq_comm]

theorem get?_withType (name : String) (fields : Fields) (k : String) :
    Assoc.get? k (withType name fields) =
      (Assoc.get? k (typeFields name)).or (Assoc.get? k fields) := by
  rw [withType, typeFields, ← Text.fst_cutAt, ← Text.getD_snd_cutAt]
  generalize Text.cutAt '.' name.toList = cut
  rcases cut with ⟨before, _ | _ | ⟨c, format⟩⟩
  · simp only [Assoc.get?_set, Option.getD_none, if_true, Assoc.get?_cons]
    split <;> rfl
  · simp only [Assoc.get?_set, Option.getD_some, if_true, Assoc.get?_cons]
    split <;> rfl
  · simp only [Assoc.get?_set, Option.getD_some, reduceCtorEq, if_false, Assoc.get?_cons,
      Assoc.get?_nil]
    by_cases hformat : "format" = k
    · subst hformat
      simp
    · by_cases htype : "type" = k <;> simp [htype, hformat]

theorem keys_imposed (type : Option TypeExpr) (ref : Option Value) :
    Assoc.keys (imposed type ref) ⊆ ["schema", "type", "format"] := by
  cases ref with
  | some target => simp [imposed, Assoc.keys]
  | none =>
    cases h : simpleType? type with
    | none => simp [imposed, h, Assoc.keys]
    | some name =>
      simp only [imposed, h, Option.map_some, Option.getD_some, typeFields]
      split <;> simp [Assoc.keys]

theorem get?_imposed_of_ne (type : Option TypeExpr) (ref : Option Value)
    (hk : k ∉ ["schema", "type", "format"]) : Assoc.get? k (imposed type ref) = none :=
  (Assoc.get?_eq_none_iff k _).mpr fun h => hk (keys_imposed type ref h)

/-- Items are written only where there are none. -/
theorem get?_withItems (items : Option Value) (fields : Fields) (k : String) :
    Assoc.get? k (match items with
      | none => fields
      | some v => if Assoc.contains "items" fields then fields else Assoc.set "items" v fields) =
      (Assoc.get? k fields).or (if k = "items" then items else none) := by
  cases items with
  | none => simp
  | some v =>
    dsimp only
    split
    · next h =>
      obtain ⟨w, hw⟩ := Option.isSome_iff_exists.mp
        ((Assoc.isSome_get?_iff _ _).mpr ((Assoc.contains_iff _ _).mp h))
      by_cases hk : k = "items"
      · rw [hk, hw, Option.some_or]
      · rw [if_neg hk, Option.or_none]
    · next h =>
      have hnone := (Assoc.get?_eq_none_iff "items" fields).mpr fun hmem =>
        h ((Assoc.contains_iff _ _).mpr hmem)
      rw [Assoc.get?_set]
      by_cases hk : k = "items"
      · rw [hk, hnone, if_pos rfl]
        rfl
      · rw [if_neg (Ne.symm hk), if_neg hk, Option.or_none]

theorem get?_withSimpleType (type : Option TypeExpr) (fields : Fields) (k : String) :
    Assoc.get? k (withSimpleType type fields) =
      ((Assoc.get? k (imposed type none)).or (Assoc.get? k fields)).or
        (if k = "items" then TypeExpr.itemSchema type else none) := by
  unfold withSimpleType
  refine (get?_withItems (TypeExpr.itemSchema type) _ k).trans ?_
  congr 1
  split
  · next hnone => simp [imposed, show simpleType? type = none from hnone]
  · next n hsome => simp [imposed, show simpleType? type = some n from hsome, get?_withType]

theorem get?_typed (type : Option TypeExpr) (ref : Option Value) (fields : Fields) (k : String) :
    Assoc.get? k (typed type ref fields) =
      ((Assoc.get? k (imposed type ref)).or (Assoc.get? k fields)).or
        (if k = "items" ∧ ref = none then TypeExpr.itemSchema type else none) := by
  cases ref with
  | none =>
    rw [typed, get?_withSimpleType]
    simp
  | some target =>
    rw [typed, Assoc.get?_set, imposed, Assoc.get?_cons]
    by_cases hk : "schema" = k
    · simp [hk]
    · simp [hk]

theorem get?_baseFields {settings : Fields} (hs : (Assoc.keys settings).Nodup) (field : Field)
    (description : String) (type : Option TypeExpr) (ref : Option Value) (k : String) :
    (Assoc.get? k (baseFields field description settings)).or
        (if k = "items" ∧ ref = none then TypeExpr.itemSchema type else none) =
      (Assoc.get? k settings).or (base? field description type ref k) := by
  rw [baseFields, Assoc.get?_update hs, Option.or_assoc]
  congr 1
  simp only [base?, Assoc.get?_cons, Assoc.get?_nil, eq_comm (b := k)]
  by_cases hname : k = "name"
  · simp [hname]
  by_cases hin : k = "in"
  · simp [hin]
  by_cases hdescription : k = "description"
  · simp [hdescription]
  by_cases hrequired : k = "required"
  · simp [hrequired]
  simp [hname, hin, hdescription, hrequired]

/-! ## Annotations -/

/-- What an annotation with the settings `x` and the reference `ref` makes of a parameter: under
each key what its type writes over the settings, else what the settings say, else the rest. -/
structure Reflects (format : String → String) (default : Value) (t : Tag) (x : Extracted)
    (ref : Option Value) (fields : Fields) : Prop where
  settings : Settings.extract t.description = .ok x
  reference : x.modelRef (x.declared.or t.type) = .ok ref
  value : ∃ field, Field.parse default t.name = .ok field ∧
    ∀ k, Assoc.get? k fields = (Assoc.get? k (imposed (x.declared.or t.type) ref)).or
      ((setting? x k).or (base? field (format x.description) (x.declared.or t.type) ref k))

/-- A parameter that was read: its settings, its name and the reference were, and then its type is
written over the rest. -/
theorem ofTag_eq_ok {format : String → String} {default : Value}
    (h : ofTag format default t = .ok fields) :
    ∃ x field ref, Settings.extract t.description = .ok x ∧ Field.parse default t.name = .ok field ∧
      x.modelRef (x.declared.or t.type) = .ok ref ∧
      fields = typed (x.declared.or t.type) ref (baseFields field (format x.description)
        (Assoc.erase "modelName" (Assoc.erase "propertyType" x.settings))) := by
  unfold ofTag at h
  obtain ⟨x, hx, h⟩ := exists_of_bind_ok h
  cases hf : Field.parse default t.name with
  | error cs =>
    rw [assemble, hf] at h
    cases h
  | ok field =>
    rw [assemble_of_field hf] at h
    obtain ⟨ref, href, rfl⟩ := exists_of_map_ok h
    exact ⟨x, field, ref, AssemblyError.ofSettings_eq_ok hx, rfl, href, rfl⟩

theorem reflects_of_ofTag {format : String → String} {default : Value}
    (h : ofTag format default t = .ok fields) :
    ∃ x ref, Reflects format default t x ref fields := by
  obtain ⟨x, field, ref, hx, hf, href, rfl⟩ := ofTag_eq_ok h
  have hnodup := Assoc.nodup_keys_filter
    (Assoc.nodup_keys_filter (Settings.nodup_of_extract hx) fun e => e.1 ≠ "propertyType")
    fun e => e.1 ≠ "modelName"
  refine ⟨x, ref, hx, href, field, hf, fun k => ?_⟩
  rw [get?_typed, Option.or_assoc, ← get?_setting]
  congr 1
  exact get?_baseFields hnodup _ _ _ _ _

theorem isSome_schema_imposed (type : Option TypeExpr) (ref : Option Value) :
    (Assoc.get? "schema" (imposed type ref)).isSome ↔ ref.isSome := by
  cases ref with
  | some target => simp [imposed, Assoc.get?]
  | none =>
    cases h : simpleType? type with
    | none => simp [imposed, h]
    | some name =>
      simp only [imposed, h, Option.map_some, Option.getD_some, typeFields]
      split <;> simp [Assoc.get?]

theorem isSome_type_imposed (type : Option TypeExpr) (ref : Option Value) :
    (Assoc.get? "type" (imposed type ref)).isSome ↔ ref = none ∧ (simpleType? type).isSome := by
  cases ref with
  | some target => simp [imposed, Assoc.get?]
  | none => cases h : simpleType? type <;> simp [imposed, h, typeFields, Assoc.get?]

/-- A field that no parameter has by itself is there because of the type or because of a setting. -/
theorem Reflects.mem_keys_iff {format : String → String} {default : Value}
    (h : Reflects format default t x ref fields)
    (hk : k ∉ ["name", "in", "description", "required", "items", "propertyType", "modelName"]) :
    k ∈ Assoc.keys fields ↔
      (Assoc.get? k (imposed (x.declared.or t.type) ref)).isSome ∨ k ∈ Assoc.keys x.settings := by
  obtain ⟨field, -, hvalue⟩ := h.value
  simp only [List.mem_cons, List.not_mem_nil, or_false, not_or] at hk
  have hbase : base? field (format x.description) (x.declared.or t.type) ref k = none := by
    simp [base?, hk]
  have hsetting : setting? x k = Assoc.get? k x.settings := by simp [setting?, hk]
  rw [← Assoc.isSome_get?_iff, hvalue, hbase, hsetting, Option.or_none, Option.isSome_or,
    Bool.or_eq_true, ← Assoc.isSome_get?_iff]

end Parameter

/-! ## Schemas and types -/

/-- **When a parameter has a schema and a type.** A parameter has a schema if its type is a
reference or a setting gives one, and a type if its type is a simple one or a setting gives one. So
of settings that do not give both, exactly those let a parameter have both that give a type to a
reference, or a schema to a simple type. -/
theorem schema_or_type (format : String → String) (default : Value) (t : Tag) {fields : Fields}
    (h : Parameter.ofTag format default t = .ok fields) :
    ∃ x ref, Settings.extract t.description = .ok x ∧ x.modelRef (x.declared.or t.type) = .ok ref ∧
      ("schema" ∈ Assoc.keys fields ↔ ref.isSome ∨ "schema" ∈ Assoc.keys x.settings) ∧
      ("type" ∈ Assoc.keys fields ↔
        (ref = none ∧ (Parameter.simpleType? (x.declared.or t.type)).isSome) ∨
          "type" ∈ Assoc.keys x.settings) ∧
      (¬ ("schema" ∈ Assoc.keys x.settings ∧ "type" ∈ Assoc.keys x.settings) →
        (("schema" ∈ Assoc.keys fields ∧ "type" ∈ Assoc.keys fields) ↔
          (ref.isSome ∧ "type" ∈ Assoc.keys x.settings) ∨
          (ref = none ∧ (Parameter.simpleType? (x.declared.or t.type)).isSome ∧
            "schema" ∈ Assoc.keys x.settings))) := by
  obtain ⟨x, ref, hreflects⟩ := Parameter.reflects_of_ofTag h
  have hschema := hreflects.mem_keys_iff (k := "schema") (by decide)
  have htype := hreflects.mem_keys_iff (k := "type") (by decide)
  rw [Parameter.isSome_schema_imposed] at hschema
  rw [Parameter.isSome_type_imposed] at htype
  refine ⟨x, ref, hreflects.settings, hreflects.reference, hschema, htype, fun hnotBoth => ?_⟩
  rw [hschema, htype]
  cases ref with
  | some target => simp
  | none => simp; tauto

/-- A parameter in the body of a request, with a type and a settings block. -/
def bodyTag (type : Option String) (settings : String) : Tag :=
  { title := "param", name := "body.body.required"
    type := type.map fun name => { name := some name }
    description := "The pet.\n```yaml-swagger-settings\n" ++ settings ++ "\n```" }

theorem schema_or_type_pet :
    ∃ fields, Parameter.ofTag id Field.defaultLocation (bodyTag (some "Pet.model") "x-rank: 1") =
        .ok fields ∧
      ¬ ("schema" ∈ Assoc.keys fields ∧ "type" ∈ Assoc.keys fields) := by
  have hread : Settings.extract (bodyTag (some "Pet.model") "x-rank: 1").description =
      .ok { settings := [("x-rank", .int 1)], description := "The pet." } :=
    Settings.extract_of_parts rfl (by decide +kernel)
  have hfields : ∃ fields, Parameter.ofTag id Field.defaultLocation
      (bodyTag (some "Pet.model") "x-rank: 1") = .ok fields := by
    rw [Parameter.ofTag, hread]
    exact ⟨_, rfl⟩
  obtain ⟨fields, h⟩ := hfields
  obtain ⟨x, ref, hx, -, -, -, hboth⟩ := schema_or_type id _ _ h
  cases hx.symm.trans hread
  refine ⟨fields, h, ?_⟩
  rw [hboth (by decide)]
  simp [Assoc.keys]

/-- A reference leaves the type of the settings beside it, and a simple type their schema. -/
theorem schema_beside_type :
    (Parameter.ofTag id Field.defaultLocation
        (bodyTag (some "Pet.model") "type: string")).toOption.map
      (fun fields => (Assoc.get? "schema" fields, Assoc.get? "type" fields)) =
        some (some (TypeExpr.refTo "Pet"), some (.str "string")) ∧
    (Parameter.ofTag id Field.defaultLocation (bodyTag none "schema: Pet")).toOption.map
      (fun fields => (Assoc.get? "schema" fields, Assoc.get? "type" fields)) =
        some (some (.str "Pet"), some (.str "string")) := by
  decide +kernel

/-- **When a setting counts.** Whatever the name of a parameter, its type and the default location,
the parameter has the value of a setting, unless its type writes another one over it; and a type
writes over a schema, a type and a format only. -/
theorem value_of_setting (format : String → String) (default : Value) (t : Tag) {fields : Fields}
    (h : Parameter.ofTag format default t = .ok fields) :
    ∃ x ref, Settings.extract t.description = .ok x ∧ x.modelRef (x.declared.or t.type) = .ok ref ∧
      ∀ k v, k ≠ "propertyType" → k ≠ "modelName" → Assoc.get? k x.settings = some v →
        (Assoc.get? k fields = some v ↔
          ∀ w, Assoc.get? k (Parameter.imposed (x.declared.or t.type) ref) = some w → w = v) ∧
        (∀ w, Assoc.get? k (Parameter.imposed (x.declared.or t.type) ref) = some w →
          Assoc.get? k fields = some w) ∧
        (k ∉ ["schema", "type", "format"] → Assoc.get? k fields = some v) := by
  obtain ⟨x, ref, hreflects⟩ := Parameter.reflects_of_ofTag h
  obtain ⟨field, -, hvalue⟩ := hreflects.value
  refine ⟨x, ref, hreflects.settings, hreflects.reference, fun k v htype hmodel hv => ?_⟩
  have hsetting : Parameter.setting? x k = some v := by
    rw [Parameter.setting?, if_neg (not_or.mpr ⟨htype, hmodel⟩), hv]
  have hk := hvalue k
  rw [hsetting, Option.some_or] at hk
  cases himposed : Assoc.get? k (Parameter.imposed (x.declared.or t.type) ref) with
  | none =>
    rw [himposed, Option.none_or] at hk
    simp [hk]
  | some w =>
    rw [himposed, Option.some_or] at hk
    refine ⟨by simp [hk], fun w' hw' => hk.trans hw', fun hother => ?_⟩
    rw [Parameter.get?_imposed_of_ne _ _ hother] at himposed
    cases himposed

theorem value_of_setting_required :
    ∃ fields, Parameter.ofTag id Field.defaultLocation
        (bodyTag (some "Pet.model") "required: false\nin: formData") = .ok fields ∧
      Assoc.get? "required" fields = some (.bool false) ∧
      Assoc.get? "in" fields = some (.str "formData") := by
  have hread : Settings.extract
      (bodyTag (some "Pet.model") "required: false\nin: formData").description =
        .ok { settings := [("required", .bool false), ("in", .str "formData")]
              description := "The pet." } :=
    Settings.extract_of_parts rfl (by decide +kernel)
  have hfields : ∃ fields, Parameter.ofTag id Field.defaultLocation
      (bodyTag (some "Pet.model") "required: false\nin: formData") = .ok fields := by
    rw [Parameter.ofTag, hread]
    exact ⟨_, rfl⟩
  obtain ⟨fields, h⟩ := hfields
  obtain ⟨x, ref, hx, -, hvalue⟩ := value_of_setting id _ _ h
  cases hx.symm.trans hread
  exact ⟨fields, h, (hvalue "required" _ (by decide) (by decide) rfl).2.2 (by decide),
    (hvalue "in" _ (by decide) (by decide) rfl).2.2 (by decide)⟩

/-- A simple type is written over the type and the format of the settings, and a reference over
their schema. -/
theorem type_over_setting :
    (Parameter.ofTag id Field.defaultLocation
        (bodyTag (some "string.date") "type: integer\nformat: int64")).toOption.map
      (fun fields => (Assoc.get? "type" fields, Assoc.get? "format" fields)) =
        some (some (.str "string"), some (.str "date")) ∧
    (Parameter.ofTag id Field.defaultLocation
        (bodyTag (some "Pet.model") "schema: Dog")).toOption.map (Assoc.get? "schema") =
      some (some (TypeExpr.refTo "Pet")) := by
  decide +kernel

end AnnotatedApi
