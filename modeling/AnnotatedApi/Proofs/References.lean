/-
  References to models. A type named `m.model` refers to the definition of the model `m`, and it
  does so in the same words wherever an annotation has a type: `modelOf?` takes the suffix off
  (`modelOf?_model`), and properties, parameters, responses and the items of lists all go through
  it or through the first part of the name. `Refers` lists these places, together with the
  definition that the reference resolves to, and `refers_of_model` is the statement.

  The parent of a model is the one place that does not: its name goes into the reference as it is
  written, with the suffix (`allOf_of_parent`), and then nothing defines what it refers to.
-/
import AnnotatedApi.Document.Contribution
import AnnotatedApi.Proofs.Cutting
import AnnotatedApi.Proofs.Formatting
import AnnotatedApi.Proofs.Sections

namespace AnnotatedApi

namespace Assoc

variable {κ α : Type} [DecidableEq κ]

theorem get?_update_of_notMem {k : κ} {m : List (κ × α)} (h : k ∉ keys m) (l : List (κ × α)) :
    get? k (update l m) = get? k l := by
  induction m generalizing l with
  | nil => rfl
  | cons e m ih =>
    simp only [keys, List.map_cons, List.mem_cons, not_or] at h
    have hrest := ih h.2 (set e.1 e.2 l)
    rw [get?_set, if_neg (Ne.symm h.1)] at hrest
    exact hrest

theorem get?_filter_of_get? {p : κ × α → Bool} {k : κ} {a : α} {l : List (κ × α)}
    (h : get? k l = some a) (hp : p (k, a) = true) : get? k (l.filter p) = some a := by
  induction l with
  | nil => cases h
  | cons e l ih =>
    obtain ⟨k', b⟩ := e
    rw [get?_cons] at h
    by_cases hk : k' = k
    · rw [if_pos hk] at h
      cases h
      subst hk
      simp [hp, get?_cons]
    · rw [if_neg hk] at h
      rw [List.filter_cons]
      split
      · rw [get?_cons, if_neg hk, ih h]
      · exact ih h

end Assoc

/-! ## Names of models -/

namespace TypeExpr

/-- The expression is the name of the model `m`, with the suffix that marks a model. -/
def NamesModel (m : String) (e : TypeExpr) : Prop := e.name = some (m ++ ".model")

variable {m : String} {e : TypeExpr}

theorem parts_model (hm : '.' ∉ m.toList) : parts (m ++ ".model") = [m, "model"] := by
  have htext : (m ++ ".model").toList = m.toList ++ '.' :: "model".toList := by simp
  have hrest : Text.splitAt '.' "model".toList = ["model".toList] := by decide
  rw [parts, htext, Text.splitAt_append hm, hrest]
  simp

theorem modelOf?_model (hm : '.' ∉ m.toList) : modelOf? (m ++ ".model") = some m := by
  rw [modelOf?, parts_model hm]
  rfl

theorem typeName_of_namesModel (hm : '.' ∉ m.toList) (he : e.NamesModel m) :
    typeName (some e) = some m := by
  rw [typeName, he]
  simp [modelOf?_model hm]

theorem filter_truthy_eq_none {setting : Option Value} (hs : setting.any Value.truthy = false) :
    setting.filter Value.truthy = none := by
  cases setting with
  | none => rfl
  | some v => simpa [Option.filter] using hs

theorem modelRef_of_namesModel (hm : '.' ∉ m.toList) (he : e.NamesModel m) {setting : Option Value}
    (hs : setting.any Value.truthy = false) :
    modelRef (some e) setting = .ok (some (.str (target m))) := by
  rw [modelRef, filter_truthy_eq_none hs]
  simp only [Option.bind_some]
  rw [he]
  simp [modelOf?_model hm, pure, Except.pure]

theorem itemSchema_of_namesModel (hm : '.' ∉ m.toList) {a : TypeExpr} {rest : List TypeExpr}
    (ha : a.applications = e :: rest) (he : e.NamesModel m) :
    itemSchema (some a) = some (refTo m) := by
  have hprimitive : (m ++ ".model") ∉ primitives := by
    intro hmem
    have hdot : ∀ p ∈ primitives, '.' ∉ p.toList := by decide
    exact hdot _ hmem (by simp)
  simp only [itemSchema, Option.bind_eq_bind, Option.bind_some, ha, List.head?_cons]
  rw [he]
  simp [hprimitive, parts_model hm]

end TypeExpr

/-! ## The places of a type -/

namespace Extracted

/-- No setting takes the place of the model that the type names. -/
def LeavesModel (x : Extracted) : Prop :=
  (Assoc.get? "modelName" x.settings).any Value.truthy = false ∧ x.hasRawType = false

variable {x : Extracted} {m : String} {e : TypeExpr}

theorem modelRef_of_namesModel (hm : '.' ∉ m.toList) (hx : x.LeavesModel) (he : e.NamesModel m) :
    x.modelRef (some e) = .ok (some (.str (TypeExpr.target m))) := by
  have href := TypeExpr.modelRef_of_namesModel hm he hx.1
  simp [modelRef, hx.2, href, AssemblyError.ofRef]

theorem modelRef_of_unnamed (hx : x.LeavesModel) (he : e.name = none) :
    x.modelRef (some e) = .ok none := by
  obtain ⟨hname, hraw⟩ := hx
  have hnone := TypeExpr.filter_truthy_eq_none hname
  rw [modelRef, hraw, TypeExpr.modelRef, hnone]
  simp [he, AssemblyError.ofRef, pure, Except.pure]

end Extracted

namespace Property

variable {x : Extracted} {m : String} {a e : TypeExpr} {rest : List TypeExpr} {t : Tag}

theorem ofTag_of_extract (format : String → String) (hx : Settings.extract t.description = .ok x) :
    ofTag format t = assemble format t.name t.type x := by
  rw [ofTag, hx]
  rfl

theorem fields_of_namesModel (format : String → String) (hm : '.' ∉ m.toList)
    (hx : Settings.extract t.description = .ok x) (hleaves : x.LeavesModel)
    (htype : x.declared.or t.type = some e) (he : e.NamesModel m) :
    ∃ p, ofTag format t = .ok p ∧ Value.object p.fields = TypeExpr.refTo m := by
  rw [ofTag_of_extract format hx]
  simp only [assemble, htype, Extracted.modelRef_of_namesModel hm hleaves he]
  exact ⟨_, rfl, rfl⟩

/-- The items of a property, unless the settings say otherwise. -/
theorem items_of_namesModel (format : String → String) (hm : '.' ∉ m.toList)
    (hx : Settings.extract t.description = .ok x) (hleaves : x.LeavesModel)
    (hitems : "items" ∉ Assoc.keys x.settings)
    (htype : x.declared.or t.type = some a) (ha : a.name = none)
    (hargs : a.applications = e :: rest) (he : e.NamesModel m) :
    ∃ p, ofTag format t = .ok p ∧ Assoc.get? "items" p.fields = some (TypeExpr.refTo m) := by
  have hschema := TypeExpr.itemSchema_of_namesModel hm hargs he
  have hsettings : "items" ∉
      Assoc.keys (Assoc.erase "required" (Assoc.erase "propertyType" x.settings)) := by
    rw [Assoc.mem_keys_erase (by decide), Assoc.mem_keys_erase (by decide)]
    exact hitems
  rw [ofTag_of_extract format hx]
  simp only [assemble, htype, Extracted.modelRef_of_unnamed hleaves ha]
  refine ⟨_, rfl, ?_⟩
  refine Assoc.get?_filter_of_get? ?_ (by simp [TypeExpr.refTo, Value.object])
  rw [Assoc.get?_update_of_notMem hsettings, hschema]
  rfl

end Property

namespace Parameter

variable {x : Extracted} {m : String} {a e : TypeExpr} {rest : List TypeExpr} {t : Tag}

/-- A default location that is a text is enough for every name. -/
theorem field_parse (location name : String) : ∃ f, Field.parse (.str location) name = .ok f := by
  unfold Field.parse
  dsimp only
  split <;> exact ⟨_, rfl⟩

theorem ofTag_of_extract (format : String → String) (location : String)
    (hx : Settings.extract t.description = .ok x) :
    ∃ field, ofTag format (.str location) t =
      (x.modelRef (x.declared.or t.type)).map fun ref =>
        typed (x.declared.or t.type) ref (baseFields field (format x.description)
          (Assoc.erase "modelName" (Assoc.erase "propertyType" x.settings))) := by
  obtain ⟨field, hf⟩ := field_parse location t.name
  refine ⟨field, ?_⟩
  rw [← assemble_of_field hf, ofTag, hx]
  rfl

theorem schema_of_namesModel (format : String → String) (location : String) (hm : '.' ∉ m.toList)
    (hx : Settings.extract t.description = .ok x) (hleaves : x.LeavesModel)
    (htype : x.declared.or t.type = some e) (he : e.NamesModel m) :
    ∃ fields, ofTag format (.str location) t = .ok fields ∧
      Assoc.get? "schema" fields = some (TypeExpr.refTo m) := by
  obtain ⟨field, heq⟩ := ofTag_of_extract format location hx
  rw [heq, htype, Extracted.modelRef_of_namesModel hm hleaves he]
  exact ⟨_, rfl, Assoc.get?_set_self _ _ _⟩

theorem contains_withType (type : String) {fields : Fields}
    (h : Assoc.contains "items" fields = false) :
    Assoc.contains "items" (withType type fields) = false := by
  have hset : ∀ (k : String) (v : Value) (l : Fields), k ≠ "items" →
      Assoc.contains "items" l = false → Assoc.contains "items" (Assoc.set k v l) = false := by
    intro k v l hk hl
    rw [← Bool.not_eq_true, Assoc.contains_iff] at hl ⊢
    rw [Assoc.mem_keys_set]
    exact not_or.mpr ⟨hl, Ne.symm hk⟩
  unfold withType
  dsimp only
  split
  · exact hset _ _ _ (by decide) h
  · exact hset _ _ _ (by decide) h
  · exact hset _ _ _ (by decide) (hset _ _ _ (by decide) h)

theorem items_of_namesModel (format : String → String) (location : String) (hm : '.' ∉ m.toList)
    (hx : Settings.extract t.description = .ok x) (hleaves : x.LeavesModel)
    (hitems : "items" ∉ Assoc.keys x.settings)
    (htype : x.declared.or t.type = some a) (ha : a.name = none)
    (hargs : a.applications = e :: rest) (he : e.NamesModel m) :
    ∃ fields, ofTag format (.str location) t = .ok fields ∧
      Assoc.get? "items" fields = some (TypeExpr.refTo m) := by
  obtain ⟨field, heq⟩ := ofTag_of_extract format location hx
  have hsettings : "items" ∉
      Assoc.keys (Assoc.erase "modelName" (Assoc.erase "propertyType" x.settings)) := by
    rw [Assoc.mem_keys_erase (by decide), Assoc.mem_keys_erase (by decide)]
    exact hitems
  have hbase : Assoc.contains "items" (baseFields field (format x.description)
      (Assoc.erase "modelName" (Assoc.erase "propertyType" x.settings))) = false := by
    rw [← Bool.not_eq_true, Assoc.contains_iff, ← Assoc.isSome_get?_iff, baseFields,
      Assoc.get?_update_of_notMem hsettings]
    simp [Assoc.get?]
  rw [heq, htype, Extracted.modelRef_of_unnamed hleaves ha]
  refine ⟨_, rfl, ?_⟩
  simp only [typed, withSimpleType, TypeExpr.itemSchema_of_namesModel hm hargs he]
  split
  · rw [hbase]
    exact Assoc.get?_set_self _ _ _
  · rw [contains_withType _ hbase]
    exact Assoc.get?_set_self _ _ _

end Parameter

namespace Response

variable {x : Extracted} {m : String} {a e : TypeExpr} {rest : List TypeExpr} {t : Tag}

theorem ofTag_of_extract (format : String → String) (headers : HeaderMap) {s : Schema}
    (hx : Settings.extract (split t.description).2 = .ok x)
    (hs : Schema.ofTag t.type x.settings = .ok s) :
    ofTag format headers t = .ok ((split t.description).1,
      ⟨format x.description, Assoc.get? (split t.description).1 headers, s⟩) := by
  simp only [ofTag, hx, AssemblyError.ofSettings, bind, Except.bind]
  rw [hs]
  rfl

/-- The schema of a response is the reference; only a list type stays beside it, and items that
the settings give. -/
theorem schema_of_namesModel (format : String → String) (headers : HeaderMap)
    (hm : '.' ∉ m.toList) (hx : Settings.extract (split t.description).2 = .ok x)
    (hname : (Assoc.get? "modelName" x.settings).any Value.truthy = false)
    (htype : t.type = some e) (he : e.NamesModel m) :
    ∃ r, ofTag format headers t = .ok ((split t.description).1, r) ∧
      Assoc.get? "$ref" r.schema.fields = some (.str (TypeExpr.target m)) ∧
      (m ≠ "array" → r.schema.items = none →
        Value.object r.schema.fields = TypeExpr.refTo m) := by
  have href := TypeExpr.modelRef_of_namesModel hm he hname
  have hschema : ∃ s, Schema.ofTag t.type x.settings = .ok s ∧
      s.ref = some (.str (TypeExpr.target m)) ∧ s.type = (some m).filter (· = "array") := by
    simp only [Schema.ofTag, htype, href, TypeExpr.typeName_of_namesModel hm he]
    refine ⟨_, rfl, rfl, ?_⟩
    by_cases hmempty : m = ""
    · subst hmempty; rfl
    · simp [Schema.withRef, Option.filter, hmempty]
  obtain ⟨s, hs, hsref, hstype⟩ := hschema
  refine ⟨_, ofTag_of_extract format headers hx hs, ?_, ?_⟩
  · simp only [Schema.fields, hsref, Assoc.get?_append]
    cases s.type <;> cases s.items <;> simp [Assoc.get?]
  · intro harray hitems
    simp only [] at hitems
    simp [Schema.fields, hsref, hstype, hitems, Option.filter, harray, TypeExpr.refTo]

theorem items_of_namesModel (format : String → String) (headers : HeaderMap)
    (hm : '.' ∉ m.toList) (hx : Settings.extract (split t.description).2 = .ok x)
    (hname : (Assoc.get? "modelName" x.settings).any Value.truthy = false)
    (htype : t.type = some a) (ha : a.name = none)
    (hargs : a.applications = e :: rest) (he : e.NamesModel m) :
    ∃ r, ofTag format headers t = .ok ((split t.description).1, r) ∧
      r.schema.items = some (TypeExpr.refTo m) := by
  have hnone := TypeExpr.filter_truthy_eq_none hname
  have hschema : ∃ s, Schema.ofTag t.type x.settings = .ok s ∧
      s.items = some (TypeExpr.refTo m) := by
    simp only [Schema.ofTag, htype, TypeExpr.itemSchema_of_namesModel hm hargs he,
      TypeExpr.modelRef, hnone, Option.bind_some, ha]
    exact ⟨_, rfl, rfl⟩
  obtain ⟨s, hs, hsitems⟩ := hschema
  exact ⟨_, ofTag_of_extract format headers hx hs, hsitems⟩

end Response

/-! ## Types declared by a setting -/

namespace Settings

/-- The entries of settings whose keys are texts. -/
def textEntries (fields : Fields) : List (Value × Value) := fields.map fun f => (.str f.1, f.2)

variable {fields : Fields}

theorem every_map_ok {α β : Type} (f : α → β) (as : List α) :
    Checked.every (as.map fun a => .ok (f a)) = .ok (as.map f) := by
  induction as with
  | nil => rfl
  | cons a as ih =>
    simp only [List.map_cons, Checked.every, ih]
    rfl

theorem textKeyed_textEntries (h : (Assoc.keys fields).Nodup) :
    textKeyed (textEntries fields) = .ok fields := by
  have hkeys : (textEntries fields).map
      (fun e => (Checked.textKey e.1).map fun k => (k, e.2)) = fields.map fun f => .ok f := by
    simp only [textEntries, List.map_map]
    rfl
  rw [textKeyed, hkeys, every_map_ok fun f => f, List.map_id']
  show Except.ok (Assoc.ofEntries fields) = _
  rw [Assoc.ofEntries_of_nodup h]

theorem lastKey?_textEntries {name : String} (h : name ∈ Assoc.keys fields) :
    lastKey? name (textEntries fields) = some (.str name) := by
  obtain ⟨f, hf, rfl⟩ := List.mem_map.mp h
  have hmem : (.str f.1, f.2) ∈ (textEntries fields).reverse :=
    List.mem_reverse.mpr (List.mem_map_of_mem hf)
  have hsome : ((textEntries fields).reverse.find? fun e => hasText f.1 e.1).isSome := by
    rw [List.find?_isSome]
    exact ⟨_, hmem, by simp [hasText, Checked.text]⟩
  obtain ⟨e, he⟩ := Option.isSome_iff_exists.mp hsome
  obtain ⟨g, -, rfl⟩ := List.mem_map.mp (List.mem_reverse.mp (List.mem_of_find?_eq_some he))
  have hname := List.find?_some he
  simp only [hasText, Checked.text, decide_eq_true_eq] at hname
  rw [lastKey?, he, ← hname]
  rfl

/-- A `propertyType` that is the name of a model declares the type of that name. -/
theorem ofEntries_of_propertyType {m : String} (h : (Assoc.keys fields).Nodup)
    (ht : Assoc.get? "propertyType" fields = some (.str (m ++ ".model"))) :
    ofEntries (textEntries fields) =
      .ok (Assoc.erase "propertyType" fields, some { name := some (m ++ ".model") }) := by
  have hget : Assoc.get? (.str "propertyType") (textEntries fields) =
      some (.str (m ++ ".model")) := by
    have := Assoc.get?_map Value.str_injective id "propertyType" fields
    simpa [textEntries, ht] using this
  have hmem : "propertyType" ∈ Assoc.keys fields := by
    rw [← Assoc.isSome_get?_iff, ht]
    rfl
  have htruthy : (Value.str (m ++ ".model")).truthy = true := by simp [Value.truthy]
  simp only [ofEntries, hget, Option.filter, htruthy, if_true, textKeyed_textEntries h,
    lastKey?_textEntries hmem, declaredType, Value.spellable, Value.spelled]
  simp [bind, Except.bind, pure, Except.pure]

end Settings

/-! ## All places -/

/-- A type named `m.model` is a reference to the definition of `m`, wherever it stands. -/
structure Refers (m : String) : Prop where
  property (format : String → String) {t : Tag} {x : Extracted} {e : TypeExpr}
    (hx : Settings.extract t.description = .ok x) (hleaves : x.LeavesModel)
    (htype : x.declared.or t.type = some e) (he : e.NamesModel m) :
    ∃ p, Property.ofTag format t = .ok p ∧ Value.object p.fields = TypeExpr.refTo m
  parameter (format : String → String) (location : String) {t : Tag} {x : Extracted} {e : TypeExpr}
    (hx : Settings.extract t.description = .ok x) (hleaves : x.LeavesModel)
    (htype : x.declared.or t.type = some e) (he : e.NamesModel m) :
    ∃ fields, Parameter.ofTag format (.str location) t = .ok fields ∧
      Assoc.get? "schema" fields = some (TypeExpr.refTo m)
  /-- The type that a setting declares is the one that counts in a property or a parameter. -/
  setting {fields : Fields} (hkeys : (Assoc.keys fields).Nodup)
    (ht : Assoc.get? "propertyType" fields = some (.str (m ++ ".model"))) :
    ∃ e, Settings.ofEntries (Settings.textEntries fields) =
      .ok (Assoc.erase "propertyType" fields, some e) ∧ e.NamesModel m
  response (format : String → String) (headers : HeaderMap) {t : Tag} {x : Extracted} {e : TypeExpr}
    (hx : Settings.extract (Response.split t.description).2 = .ok x)
    (hname : (Assoc.get? "modelName" x.settings).any Value.truthy = false)
    (htype : t.type = some e) (he : e.NamesModel m) :
    ∃ r, Response.ofTag format headers t = .ok ((Response.split t.description).1, r) ∧
      Assoc.get? "$ref" r.schema.fields = some (.str (TypeExpr.target m)) ∧
      (m ≠ "array" → r.schema.items = none → Value.object r.schema.fields = TypeExpr.refTo m)
  propertyItems (format : String → String) {t : Tag} {x : Extracted} {a e : TypeExpr}
    {rest : List TypeExpr} (hx : Settings.extract t.description = .ok x)
    (hleaves : x.LeavesModel) (hitems : "items" ∉ Assoc.keys x.settings)
    (htype : x.declared.or t.type = some a) (ha : a.name = none)
    (hargs : a.applications = e :: rest) (he : e.NamesModel m) :
    ∃ p, Property.ofTag format t = .ok p ∧ Assoc.get? "items" p.fields = some (TypeExpr.refTo m)
  parameterItems (format : String → String) (location : String) {t : Tag} {x : Extracted}
    {a e : TypeExpr} {rest : List TypeExpr} (hx : Settings.extract t.description = .ok x)
    (hleaves : x.LeavesModel) (hitems : "items" ∉ Assoc.keys x.settings)
    (htype : x.declared.or t.type = some a) (ha : a.name = none)
    (hargs : a.applications = e :: rest) (he : e.NamesModel m) :
    ∃ fields, Parameter.ofTag format (.str location) t = .ok fields ∧
      Assoc.get? "items" fields = some (TypeExpr.refTo m)
  responseItems (format : String → String) (headers : HeaderMap) {t : Tag} {x : Extracted}
    {a e : TypeExpr} {rest : List TypeExpr}
    (hx : Settings.extract (Response.split t.description).2 = .ok x)
    (hname : (Assoc.get? "modelName" x.settings).any Value.truthy = false)
    (htype : t.type = some a) (ha : a.name = none) (hargs : a.applications = e :: rest)
    (he : e.NamesModel m) :
    ∃ r, Response.ofTag format headers t = .ok ((Response.split t.description).1, r) ∧
      r.schema.items = some (TypeExpr.refTo m)
  /-- What the reference resolves to: the definition that a model of that name contributes. -/
  definition (opts : RouteOptions) {block : CommentBlock} {head : Tag} {rest : List Tag}
    {c : Option Contribution} (hmodel : block.isModel = true) (htags : block.tags = head :: rest)
    (hhead : head.name = m) (hc : (Contribution.ofBlock opts block).result = .ok c) :
    ∃ d, c = some { definitions := [(m, .object d)] }

theorem Contribution.ofBlock_of_isModel (opts : RouteOptions) {block : CommentBlock} {head : Tag}
    {rest : List Tag} {c : Option Contribution} (hmodel : block.isModel = true)
    (htags : block.tags = head :: rest) (hc : (ofBlock opts block).result = .ok c) :
    ∃ d, c = some { definitions := [(head.name, .object d)] } := by
  rw [ofBlock, hmodel, if_pos rfl] at hc
  obtain ⟨model, hm, hc⟩ := Report.result_bind_eq_ok.mp hc
  rw [htags, Model.ofTags] at hm
  obtain ⟨properties, -, hm⟩ := Report.result_bind_eq_ok.mp hm
  obtain ⟨-, -, hm⟩ := Report.result_bind_eq_ok.mp hm
  cases hm
  cases hc
  exact ⟨_, rfl⟩

/-- **One model, one reference.** For every name `m` without a dot, a type named `m.model` is the
same reference in a property, a parameter, a response and the items of a list, whether it is the
type of the annotation or declared by a setting, and what it refers to is the definition that a
model named `m` contributes. -/
theorem refers_of_model (m : String) (hm : '.' ∉ m.toList) : Refers m where
  property format _ _ _ := Property.fields_of_namesModel format hm
  parameter format location _ _ _ := Parameter.schema_of_namesModel format location hm
  setting hkeys ht := ⟨_, Settings.ofEntries_of_propertyType hkeys ht, rfl⟩
  response format headers _ _ _ := Response.schema_of_namesModel format headers hm
  propertyItems format _ _ _ _ _ := Property.items_of_namesModel format hm
  parameterItems format location _ _ _ _ _ := Parameter.items_of_namesModel format location hm
  responseItems format headers _ _ _ _ _ := Response.items_of_namesModel format headers hm
  definition opts _ _ _ _ hmodel htags hhead hc := by
    obtain ⟨d, rfl⟩ := Contribution.ofBlock_of_isModel opts hmodel htags hc
    exact ⟨d, by rw [hhead]⟩

/-- A property that is a list of owners, by the type of its annotation. -/
def ownersTag : Tag :=
  { title := "property", name := "owners.required", description := "The owners"
    type := some
      { kind := "TypeApplication", expression := some { name := some "Array" }
        applications := [{ name := some "Owner.model" }] } }

theorem refers_of_model_owner :
    '.' ∉ "Owner".toList ∧
      (∃ p, Property.ofTag id ownersTag = .ok p ∧
        Assoc.get? "items" p.fields = some (TypeExpr.refTo "Owner")) ∧
      ∃ e, Settings.ofEntries (Settings.textEntries [("propertyType", .str "Owner.model")]) =
        .ok ([], some e) ∧ e.NamesModel "Owner" := by
  have hm : '.' ∉ "Owner".toList := by decide
  have hx : ∃ x, Settings.extract ownersTag.description = .ok x ∧ x.LeavesModel ∧
      "items" ∉ Assoc.keys x.settings ∧ x.declared = none := by
    refine ⟨_, rfl, ⟨rfl, rfl⟩, ?_, rfl⟩
    decide
  obtain ⟨x, hx, hleaves, hitems, hdeclared⟩ := hx
  have htype : x.declared.or ownersTag.type = ownersTag.type := by rw [hdeclared]; rfl
  have howner := refers_of_model "Owner" hm
  exact ⟨hm, howner.propertyItems id hx hleaves hitems htype rfl rfl rfl,
    howner.setting (by decide) rfl⟩

/-- The parent of a model is referred to by its name as it is written. -/
theorem Model.allOf_of_parent (format : String → String) {head : Tag} {rest : List Tag}
    {e : TypeExpr} {name : String} {model : Model} (htype : head.type = some e)
    (he : e.name = some name) (hname : name ≠ "")
    (hmodel : (ofTags format (head :: rest)).result = .ok model) :
    Assoc.get? "allOf" model.definition = some (.array [TypeExpr.refTo name]) := by
  obtain ⟨properties, -, hmodel⟩ := Report.result_bind_eq_ok.mp hmodel
  obtain ⟨-, -, hmodel⟩ := Report.result_bind_eq_ok.mp hmodel
  cases hmodel
  simp [definition, htype, he, hname, Option.filter, Assoc.get?]

/-- The annotations of a model named `Dog` whose parent is the model `Animal`. -/
def dogTags : List Tag :=
  [{ title := "typedef", name := "Dog", type := some { name := some "Animal.model" } },
   { title := "swaggermodel" }]

/-- The parent `Animal.model` is not the reference that this type is everywhere else. -/
theorem allOf_dogTags :
    "Animal" ≠ "" ∧ '.' ∉ "Animal".toList ∧
      ∃ model, (Model.ofTags id dogTags).result = .ok model ∧
        Assoc.get? "allOf" model.definition =
          some (.array [TypeExpr.refTo "Animal.model"]) ∧
        Assoc.get? "allOf" model.definition ≠ some (.array [TypeExpr.refTo "Animal"]) := by
  have hmodel : ∃ model, (Model.ofTags id dogTags).result = .ok model := ⟨_, rfl⟩
  obtain ⟨model, hmodel⟩ := hmodel
  have hparent := Model.allOf_of_parent id rfl rfl (by decide) hmodel
  refine ⟨by decide, by decide, model, hmodel, hparent, ?_⟩
  rw [hparent]
  decide

end AnnotatedApi
