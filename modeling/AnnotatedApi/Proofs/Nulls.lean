/-
  Where a contribution has a null. What an operation, a response or a property has under a key is
  never null, whatever the settings blocks say: a response has only what its annotation came to, and
  a property is rid of nulls at its end. The settings of a parameter are written over its fields as
  they are, and so a parameter has a null exactly where its settings have one and its type writes
  nothing over it (`Parameter.Reflects.get?_eq_null_iff`).

  `nulls_of_block` is the statement, and `null_in_parameter` a block that shows the difference.
-/
import AnnotatedApi.Proofs.Parameters
import AnnotatedApi.Proofs.Routes

namespace AnnotatedApi

/-- The value is an object in which nothing is null. -/
def Value.IsFull (v : Value) : Prop :=
  ∃ fields : Fields, v = .object fields ∧ ∀ e ∈ fields, e.2 ≠ .null

theorem Value.array_ne_null (vs : List Value) : Value.array vs ≠ .null := by
  simp [array]

theorem Value.object_ne_null (fields : Fields) : Value.object fields ≠ .null := by
  simp [object]

/-! ## What is given without a setting -/

/-- What an annotation gives besides its settings: a text, a truth value, or an object with one
entry, which is a reference or a simple type of items. -/
inductive Value.IsGenerated : Value → Prop
  | text (s : String) : IsGenerated (.str s)
  | points (ps : List Nat) : IsGenerated (.illFormed ps)
  | bool (b : Bool) : IsGenerated (.bool b)
  | single (k : String) (v : Value) : IsGenerated (.object [(k, v)])

theorem Value.IsGenerated.ne_null {v : Value} (h : v.IsGenerated) : v ≠ .null := by
  cases h <;> simp [object]

namespace TypeExpr

theorem isGenerated_itemSchema {e : Option TypeExpr} {v : Value} (h : itemSchema e = some v) :
    v.IsGenerated := by
  obtain ⟨key, text, rfl⟩ := itemSchema_eq_some h
  exact .single key _

theorem isGenerated_modelRef {e : Option TypeExpr} {setting : Option Value} {target : Value}
    (h : modelRef e setting = .ok (some target)) : target.IsGenerated := by
  unfold modelRef at h
  split at h
  · next model _ =>
    obtain ⟨v, hv, h⟩ := exists_of_bind_ok h
    cases h
    unfold settingTarget at hv
    split at hv
    · cases hv
      exact .points _
    · split at hv
      · cases hv
        exact .text _
      · cases hv
  · obtain ⟨name, -, rfl⟩ := Option.map_eq_some_iff.mp (Except.ok.inj h)
    exact .text _

end TypeExpr

/-! ## Operations and responses -/

theorem Detail.value_ne_null {format : String → String} {text : String} {d : Detail} {v : Value}
    (h : (d.value format text).result = .ok v) : v ≠ .null := by
  cases d with
  | operationId => cases h; simp
  | summary => cases h; simp
  | produces => cases h; exact Value.array_ne_null _
  | consumes => cases h; exact Value.array_ne_null _
  | security =>
    obtain ⟨vs, -, h⟩ := Report.result_bind_eq_ok.mp h
    cases h
    exact Value.array_ne_null vs

/-- No field of an operation is null. -/
theorem Routes.OperationFields.ne_null {opts : RouteOptions} {block : CommentBlock} {r : Route}
    {fields : Fields} (h : OperationFields opts block r fields) : ∀ e ∈ fields, e.2 ≠ .null := by
  rintro ⟨k, v⟩ he
  have hget := (Assoc.get?_eq_some_iff h.nodup).mpr he
  rcases h.keys k (List.mem_map_of_mem he) with hk | ⟨d, rfl⟩
  · simp only [List.mem_cons, List.not_mem_nil, or_false] at hk
    rcases hk with rfl | rfl | rfl | rfl
    · obtain ⟨ps, -, hparameters⟩ := h.parameters
      cases hget.symm.trans hparameters
      exact Value.array_ne_null _
    · cases hget.symm.trans h.description
      simp
    · cases hget.symm.trans h.tags
      exact Value.array_ne_null _
    · obtain ⟨rs, -, hresponses⟩ := h.responses
      cases hget.symm.trans hresponses
      exact Value.object_ne_null _
  · have hdetail := h.detail d
    cases hlast : lastIn d.name r block.tags with
    | none =>
      rw [hlast] at hdetail
      cases hget.symm.trans hdetail
    | some t =>
      rw [hlast] at hdetail
      obtain ⟨w, hw, hdetail⟩ := hdetail
      obtain rfl := Option.some.inj (hget.symm.trans hdetail)
      exact Detail.value_ne_null hw

/-- No field of a response is null, whatever the response is. -/
theorem Response.isFull_toValue (r : Response) : r.toValue.IsFull := by
  refine ⟨r.fields, rfl, fun e he => ?_⟩
  simp only [fields, List.mem_append, List.mem_singleton, Option.mem_toList] at he
  rcases he with (rfl | he) | he
  · simp
  · obtain ⟨hs, -, rfl⟩ := Option.map_eq_some_iff.mp he
    exact Value.object_ne_null _
  · split at he
    · cases he
    · rw [List.mem_singleton] at he
      rw [he]
      exact Value.object_ne_null _

/-! ## Properties -/

/-- No field of a property is null. -/
theorem Property.isFull_fields {format : String → String} {t : Tag} {p : Property}
    (h : ofTag format t = .ok p) : (Value.object p.fields).IsFull := by
  obtain ⟨x, ref, hreflects⟩ := reflects_of_ofTag h
  refine ⟨p.fields, rfl, ?_⟩
  cases ref with
  | none => exact hreflects.noNull rfl
  | some target =>
    rw [hreflects.alone target rfl]
    intro e he
    rw [List.mem_singleton] at he
    rw [he]
    exact (TypeExpr.isGenerated_modelRef hreflects.reference).ne_null

/-! ## Parameters -/

namespace Parameter

variable {format : String → String} {default : Value} {t : Tag} {x : Extracted}
  {type : Option TypeExpr} {ref : Option Value} {fields : Fields} {k : String}

theorem nodup_withType (name : String) (h : (Assoc.keys fields).Nodup) :
    (Assoc.keys (withType name fields)).Nodup := by
  unfold withType
  dsimp only
  split
  · exact Assoc.nodup_keys_set _ _ h
  · exact Assoc.nodup_keys_set _ _ h
  · exact Assoc.nodup_keys_set _ _ (Assoc.nodup_keys_set _ _ h)

theorem nodup_withItems (items : Option Value) (h : (Assoc.keys fields).Nodup) :
    (Assoc.keys (match items with
      | none => fields
      | some v => if Assoc.contains "items" fields then fields
        else Assoc.set "items" v fields)).Nodup := by
  split
  · exact h
  · split
    · exact h
    · exact Assoc.nodup_keys_set _ _ h

theorem nodup_typed (type : Option TypeExpr) (ref : Option Value) (h : (Assoc.keys fields).Nodup) :
    (Assoc.keys (typed type ref fields)).Nodup := by
  cases ref with
  | some target => exact Assoc.nodup_keys_set _ _ h
  | none =>
    unfold typed withSimpleType
    refine nodup_withItems (TypeExpr.itemSchema type) ?_
    split
    · exact h
    · exact nodup_withType _ h

theorem nodup_baseFields (field : Field) (description : String) (settings : Fields) :
    (Assoc.keys (baseFields field description settings)).Nodup := by
  rw [baseFields]
  exact Assoc.nodup_keys_update (by simp [Assoc.keys]) settings

/-- No key stands twice in a parameter. -/
theorem nodup_of_ofTag (h : ofTag format default t = .ok fields) :
    (Assoc.keys fields).Nodup := by
  obtain ⟨x, field, ref, -, -, -, rfl⟩ := ofTag_eq_ok h
  exact nodup_typed _ _ (nodup_baseFields _ _ _)

theorem isGenerated_imposed (h : Assoc.get? k (imposed type ref) = some v) : v.IsGenerated := by
  have hall : ∀ e ∈ imposed type ref, e.2.IsGenerated := by
    cases ref with
    | some target =>
      intro e he
      rw [imposed, List.mem_singleton] at he
      rw [he]
      exact .single _ _
    | none =>
      cases htype : simpleType? type with
      | none => simp [imposed, htype]
      | some name =>
        simp only [imposed, htype, Option.map_some, Option.getD_some, typeFields]
        split <;> simp [Value.IsGenerated.text]
  exact hall _ (Assoc.mem_of_get? h)

theorem isGenerated_base? {field : Field} {description : String}
    (h : base? field description type ref k = some v) : v.IsGenerated := by
  unfold base? at h
  split at h
  · cases h
    exact .text _
  split at h
  · cases h
    exact .text _
  split at h
  · cases h
    exact .text _
  split at h
  · cases h
    exact .bool _
  split at h
  · exact TypeExpr.isGenerated_itemSchema h
  · cases h

/-- A parameter has a null exactly where its settings have one and its type writes nothing. -/
theorem Reflects.get?_eq_null_iff (h : Reflects format default t x ref fields) :
    Assoc.get? k fields = some .null ↔
      Assoc.get? k (imposed (x.declared.or t.type) ref) = none ∧ setting? x k = some .null := by
  obtain ⟨field, -, hvalue⟩ := h.value
  rw [hvalue]
  cases himposed : Assoc.get? k (imposed (x.declared.or t.type) ref) with
  | some v => simp [(isGenerated_imposed himposed).ne_null]
  | none =>
    cases hsetting : setting? x k with
    | some v => simp
    | none => simpa using fun hbase => (isGenerated_base? hbase).ne_null rfl

/-- The nulls of a parameter are those of its settings, with the keys that speak of a type or a
model apart and those that its type is written over. -/
def NullsFromSettings (t : Tag) (fields : Fields) : Prop :=
  ∃ x ref, Settings.extract t.description = .ok x ∧
    x.modelRef (x.declared.or t.type) = .ok ref ∧
    ∀ k, (k, Value.null) ∈ fields ↔
      k ≠ "propertyType" ∧ k ≠ "modelName" ∧ Assoc.get? k x.settings = some .null ∧
        Assoc.get? k (imposed (x.declared.or t.type) ref) = none

theorem nullsFromSettings_of_ofTag (h : ofTag format default t = .ok fields) :
    NullsFromSettings t fields := by
  obtain ⟨x, ref, hreflects⟩ := reflects_of_ofTag h
  refine ⟨x, ref, hreflects.settings, hreflects.reference, fun k => ?_⟩
  rw [← Assoc.get?_eq_some_iff (nodup_of_ofTag h), hreflects.get?_eq_null_iff, setting?]
  by_cases hk : k = "propertyType" ∨ k = "modelName"
  · rw [if_pos hk]
    rcases hk with rfl | rfl <;> simp
  · rw [if_neg hk]
    rw [not_or] at hk
    simp [hk.1, hk.2, and_comm]

end Parameter

/-! ## Contributions -/

/-- Where an operation has nulls: nowhere in itself and in its responses, and in its parameters
where the settings of the `param` annotations have them. -/
structure Operation.Omits (block : CommentBlock) (r : Route) (v : Value) : Prop where
  full : v.IsFull
  responses : ∃ fields rs : Fields, v = .object fields ∧
    Assoc.get? "responses" fields = some (.object rs) ∧ ∀ e ∈ rs, e.2.IsFull
  parameters : ∃ (fields : Fields) (ps : List Fields), v = .object fields ∧
    Assoc.get? "parameters" fields = some (.array (ps.map .object)) ∧
    List.Forall₂ Parameter.NullsFromSettings ((Routes.heard r block.tags).filter Tag.isParam) ps

theorem Routes.OperationFields.omits {opts : RouteOptions} {block : CommentBlock} {r : Route}
    {fields : Fields} (h : OperationFields opts block r fields) :
    Operation.Omits block r (.object fields) := by
  refine ⟨⟨fields, rfl, h.ne_null⟩, ?_, ?_⟩
  · obtain ⟨rs, -, hget⟩ := h.responses
    refine ⟨fields, _, rfl, hget, fun e he => ?_⟩
    obtain ⟨response, -, rfl⟩ := List.mem_map.mp he
    exact response.2.isFull_toValue
  · obtain ⟨ps, hps, hget⟩ := h.parameters
    refine ⟨fields, ps, rfl, hget, ?_⟩
    exact (forall₂_of_mapM_ok hps).imp fun _ _ => Parameter.nullsFromSettings_of_ofTag

/-- A definition in which no property has a null. -/
def Model.Omits (v : Value) : Prop :=
  ∃ definition properties : Fields, v = .object definition ∧
    Assoc.get? "properties" definition = some (.object properties) ∧
    ∀ e ∈ properties, e.2.IsFull

theorem Model.omits_definition {format : String → String} {tags : List Tag} {m : Model}
    (h : (ofTags format tags).result = .ok m) : Omits (.object m.definition) := by
  cases tags with
  | nil => cases h
  | cons head rest =>
    obtain ⟨hproperties, -, -⟩ := ofTags_eq_ok h
    refine ⟨m.definition, _, rfl, (get?_definition m).2.2, fun e he => ?_⟩
    obtain ⟨listed, hlisted, rfl⟩ := List.mem_map.mp he
    obtain ⟨p, hp, rfl⟩ := List.mem_map.mp (Assoc.mem_ofEntries hlisted)
    obtain ⟨t, -, ht⟩ := (exists_of_mapM_ok hproperties).2 p hp
    exact Property.isFull_fields ht

/-- Every operation of a contribution is that of a route. -/
theorem Routes.omits_of_mem {opts : RouteOptions} {block : CommentBlock} {routes : Routes}
    (h : (ofBlock opts block).result = .ok routes) {uri method : String}
    {item : List (String × Operation)} {o : Operation} (hitem : (uri, item) ∈ routes.paths)
    (ho : (method, o) ∈ item) : Operation.Omits block ⟨method, uri⟩ (.object o.fields) := by
  obtain ⟨p, rfl, hp⟩ := Reads.ofBlock h
  have hget : p.routes.paths.get? ⟨method, uri⟩ = some o := by
    rw [PathMap.get?, (Assoc.get?_eq_some_iff hp.nodup.1).mpr hitem, Option.bind_some,
      (Assoc.get?_eq_some_iff (hp.nodup.2 _ hitem)).mpr ho]
  exact (operationFields_of_reads (hp.kept _ o hget) (hp.fresh _ o hget (by simp))).omits

/-- **Where a contribution has a null.** No operation, no response and no property of a
contribution has a null under one of its keys, whatever the settings blocks of its annotations hold.
A parameter has one exactly where the settings of its annotation do: settings are written over its
fields as they are, and only what its type writes stands over them. -/
theorem nulls_of_block (opts : RouteOptions) (block : CommentBlock) {c : Contribution}
    (h : (Contribution.ofBlock opts block).result = .ok (some c)) :
    (∀ uri item method v, (uri, item) ∈ c.paths → (method, v) ∈ item →
      Operation.Omits block ⟨method, uri⟩ v) ∧
    ∀ name v, (name, v) ∈ c.definitions → Model.Omits v := by
  rcases Contribution.of_ofBlock h with ⟨m, hm, rfl⟩ | ⟨routes, hroutes, rfl⟩
  · refine ⟨fun _ _ _ _ hpath => (List.not_mem_nil hpath).elim, fun name v hdefinition => ?_⟩
    rw [Contribution.ofModel, List.mem_singleton] at hdefinition
    cases hdefinition
    exact Model.omits_definition hm
  · refine ⟨fun uri item method v hpath hitem => ?_,
      fun _ _ hdefinition => (List.not_mem_nil hdefinition).elim⟩
    obtain ⟨⟨uri, operations⟩, hoperations, heq⟩ := List.mem_map.mp hpath
    cases heq
    obtain ⟨⟨method, o⟩, ho, heq⟩ := List.mem_map.mp hitem
    cases heq
    exact Routes.omits_of_mem hroutes hoperations ho

/-- A route with one parameter, whose default is said to be null. -/
def limitBlock : CommentBlock :=
  { tags :=
      [{ title := "route", description := "GET /pets" },
       { title := "param", name := "limit.query"
         description := "```yaml-swagger-settings\ndefault: null\n```" }] }

theorem nulls_of_limitBlock :
    ∃ c, (Contribution.ofBlock {} limitBlock).result = .ok (some c) ∧
      ∀ uri item method v, (uri, item) ∈ c.paths → (method, v) ∈ item →
        Operation.Omits limitBlock ⟨method, uri⟩ v := by
  have hsome : (Contribution.ofBlock {} limitBlock).result.toOption.map Option.isSome =
      some true := by decide +kernel
  obtain ⟨o, h, hsome⟩ := exists_of_toOption_map hsome
  obtain ⟨c, rfl⟩ := Option.isSome_iff_exists.mp hsome
  exact ⟨c, h, (nulls_of_block {} limitBlock h).1⟩

theorem null_in_parameter :
    (Contribution.ofBlock {} limitBlock).result.toOption.join.bind
        (Contribution.operation? "/pets" "get") =
      some (.object
        [("parameters", .array [.object
          [("name", .str "limit"), ("in", .str "query"), ("description", .str ""),
           ("required", .bool false), ("default", .null), ("type", .str "string")]]),
         ("description", .str ""), ("tags", .array [.str "default"]),
         ("responses", .object [])]) := by
  decide +kernel

end AnnotatedApi
