/-
  Blocks that can be put together, or are refused with a report. An annotation is sound if its
  settings block and its security requirements can be read, apart from what is refused as a whole,
  and if what they hold can be written (`Tag.isSound`). A block of sound annotations contributes
  what can be written, or fails with an error that is reported (`Contribution.ends_ofBlock`).
-/
import AnnotatedApi.Document.Contribution
import AnnotatedApi.Proofs.Responses
import AnnotatedApi.Proofs.Writable

namespace AnnotatedApi

/-! ## Sound annotations -/

namespace Extracted

/-- Whether all settings can be written. -/
def isSound (f : Format) (x : Extracted) : Bool := x.settings.all fun e => e.2.writableIn f

/-- Whether a type among the settings that is no type expression has a model name beside it. -/
def isTyped (x : Extracted) : Bool :=
  !x.hasRawType || (Assoc.get? "modelName" x.settings).any Value.truthy

end Extracted

/-- Whether the settings of a description are as asked, or refused with a report. -/
def Settings.isSound (asked : Extracted → Bool) (description : String) : Bool :=
  match extract description with
  | .ok x => asked x
  | .error e => e.isReported

/-- Whether a parameter or a property can be put together. -/
def Tag.isSoundMember (f : Format) (t : Tag) : Bool :=
  Settings.isSound (fun x => x.isSound f && x.isTyped) t.description

/-- Whether a response can be put together. -/
def Tag.isSoundResponse (f : Format) (t : Tag) : Bool :=
  Settings.isSound (Extracted.isSound f) (Response.split t.description).2

/-- Whether security requirements can be read and written. -/
def Security.isSound (f : Format) (text : String) : Bool :=
  match Json.read text with
  | .ok v => v.writableIn f
  | .error e => e = .malformed

/-- Whether an annotation of a route can be put together. -/
def Tag.isSound (f : Format) (t : Tag) : Bool :=
  if t.title = "param" then t.isSoundMember f
  else if Response.isResponseTag t then t.isSoundResponse f
  else t.title ≠ "security" || Security.isSound f t.description

/-- Whether the annotations that a block is made from are sound. -/
def CommentBlock.isSound (f : Format) (b : CommentBlock) : Bool :=
  if b.isModel then b.tags.all fun t => t.title ≠ "property" || t.isSoundMember f
  else !b.isRoute || b.tags.all (Tag.isSound f)

variable {f : Format}

/-- Settings that are as asked, or a report that they are refused. -/
theorem Settings.ends_extract {asked : Extracted → Bool} {description : String}
    (h : isSound asked description = true) :
    Ends (fun x => asked x = true) (fun e => e.isReported = true)
      (AssemblyError.ofSettings (extract description)) := by
  unfold isSound at h
  split at h
  · next x hx =>
    rw [hx]
    exact .ok h
  · next e he =>
    rw [he]
    exact .error h

/-! ## References and schemas -/

theorem TypeExpr.exists_settingTarget {model : Value} (h : model.writableIn f = true) :
    ∃ v, settingTarget model = .ok v ∧ v.writableIn f = true := by
  unfold settingTarget
  split
  · exact ⟨_, rfl, by simpa only [Value.writableIn] using h⟩
  · rw [if_pos (Value.spellable_of_writableIn model h)]
    exact ⟨_, rfl, Value.writableIn_str f _⟩

/-- A reference is made, if only a model name that is set can be written. -/
theorem TypeExpr.exists_modelRef (e : Option TypeExpr) (setting : Option Value)
    (h : ∀ v, setting = some v → v.writableIn f = true) :
    ∃ ref, modelRef e setting = .ok ref ∧ ∀ v, ref = some v → v.writableIn f = true := by
  unfold modelRef
  cases hs : setting.filter Value.truthy with
  | none =>
    refine ⟨_, rfl, fun v hv => ?_⟩
    obtain ⟨model, -, rfl⟩ := Option.map_eq_some_iff.mp hv
    exact Value.writableIn_str f _
  | some model =>
    obtain ⟨v, hv, hw⟩ := exists_settingTarget (h model (Option.filter_eq_some_iff.mp hs).1)
    refine ⟨some v, by simp only [hv]; rfl, ?_⟩
    rintro _ ⟨⟩
    exact hw

theorem TypeExpr.writableIn_itemSchema {e : Option TypeExpr} {v : Value}
    (h : itemSchema e = some v) : v.writableIn f = true := by
  obtain ⟨key, text, rfl⟩ := itemSchema_eq_some h
  exact Value.writableIn_object (by simp)

theorem TypeExpr.writableIn_optionValue (name : Option String) :
    (optionValue name).writableIn f = true := by
  cases name with
  | none => rw [optionValue, Value.writableIn] <;> simp
  | some name => exact Value.writableIn_str f name

namespace Extracted

variable {x : Extracted}

theorem writableIn_of_get? (h : x.isSound f = true) {key : String} {v : Value}
    (hv : Assoc.get? key x.settings = some v) : v.writableIn f = true :=
  List.all_eq_true.mp h _ (Assoc.mem_of_get? hv)

theorem exists_modelRef (h : x.isSound f = true) (ht : x.isTyped = true)
    (type : Option TypeExpr) :
    ∃ ref, x.modelRef type = .ok ref ∧ ∀ v, ref = some v → v.writableIn f = true := by
  obtain ⟨ref, href, hw⟩ := TypeExpr.exists_modelRef type
    (Assoc.get? "modelName" x.settings) fun v hv => writableIn_of_get? h hv
  refine ⟨ref, ?_, hw⟩
  unfold modelRef
  rw [if_neg, href]
  · rfl
  · rw [isTyped, Bool.or_eq_true, Bool.not_eq_true'] at ht
    rcases ht with hraw | hname
    · simp [hraw]
    · simp [hname]

/-- The items of a list, by its type or by its settings. -/
theorem writableIn_items (h : x.isSound f = true) {type : Option TypeExpr} {v : Value}
    (hv : ((TypeExpr.itemSchema type).or (Assoc.get? "items" x.settings)).filter Value.truthy =
      some v) : v.writableIn f = true := by
  rcases Option.or_eq_some_iff.mp (Option.filter_eq_some_iff.mp hv).1 with hi | ⟨-, hi⟩
  · exact TypeExpr.writableIn_itemSchema hi
  · exact writableIn_of_get? h hi

end Extracted

/-! ## Fields -/

/-- Fields that can be written. -/
def Fields.WritableIn (f : Format) (fields : Fields) : Prop :=
  ∀ e ∈ fields, e.2.writableIn f = true

namespace Fields.WritableIn

variable {fields settings : Fields}

theorem set (h : WritableIn f fields) (key : String) {v : Value} (hv : v.writableIn f = true) :
    WritableIn f (Assoc.set key v fields) := by
  intro e he
  rcases Assoc.mem_set he with rfl | he
  · exact hv
  · exact h e he

theorem update (h : WritableIn f fields) (hs : WritableIn f settings) :
    WritableIn f (Assoc.update fields settings) := fun e he =>
  (Assoc.mem_update he).elim (h e) (hs e)

theorem erase (h : WritableIn f fields) (key : String) : WritableIn f (Assoc.erase key fields) :=
  fun e he => h e (List.mem_filter.mp he).1

theorem object (h : WritableIn f fields) : (Value.object fields).writableIn f = true :=
  Value.writableIn_object h

end Fields.WritableIn

theorem Extracted.writableIn_settings {x : Extracted} (h : x.isSound f = true) :
    Fields.WritableIn f x.settings := List.all_eq_true.mp h

theorem Property.writableIn_plainFields {x : Extracted} (h : x.isSound f = true)
    (type : Option TypeExpr) (description : String) {settings : Fields}
    (hs : Fields.WritableIn f settings)
    (hi : Assoc.get? "items" settings = Assoc.get? "items" x.settings) :
    Fields.WritableIn f (plainFields type description settings) := by
  unfold plainFields
  rw [hi]
  intro e he
  refine Fields.WritableIn.update ?_ hs e (List.mem_filter.mp he).1
  intro e he
  rcases List.mem_append.mp he with he | he
  · rcases List.mem_pair.mp he with rfl | rfl
    · exact TypeExpr.writableIn_optionValue _
    · exact Value.writableIn_str f description
  · rw [Option.mem_toList] at he
    obtain ⟨v, hv, rfl⟩ := Option.map_eq_some_iff.mp he
    exact Extracted.writableIn_items h hv

/-- The members of a document that annotations give: fields that can be written, or a report. -/
theorem Property.ends_ofTag (format : String → String) {t : Tag} (h : t.isSoundMember f = true) :
    Ends (fun p => Fields.WritableIn f p.fields) (fun e => e.isReported = true)
      (ofTag format t) := by
  unfold ofTag
  refine (Settings.ends_extract h).bind fun x hx => ?_
  rw [Bool.and_eq_true] at hx
  obtain ⟨ref, href, hw⟩ := Extracted.exists_modelRef hx.1 hx.2 (x.declared.or t.type)
  unfold assemble
  simp only [href]
  refine .ok ?_
  dsimp only
  cases ref with
  | some target =>
    intro e he
    rw [List.mem_singleton] at he
    subst he
    exact hw target rfl
  | none =>
    have hsettings := Extracted.writableIn_settings hx.1
    refine writableIn_plainFields hx.1 _ _ ((hsettings.erase _).erase _) ?_
    rw [Assoc.get?_erase, Assoc.get?_erase, if_neg (by decide), if_neg (by decide)]

theorem Parameter.writableIn_withType (name : String) {fields : Fields}
    (h : Fields.WritableIn f fields) : Fields.WritableIn f (withType name fields) := by
  unfold withType
  dsimp only
  split
  · exact h.set _ (Value.writableIn_str f _)
  · exact h.set _ (Value.writableIn_str f _)
  · exact (h.set _ (Value.writableIn_str f _)).set _ (Value.writableIn_str f _)

theorem Parameter.writableIn_withSimpleType (type : Option TypeExpr) {fields : Fields}
    (h : Fields.WritableIn f fields) : Fields.WritableIn f (withSimpleType type fields) := by
  have hitems : ∀ {fields : Fields} {items : Value}, Fields.WritableIn f fields →
      TypeExpr.itemSchema type = some items → Fields.WritableIn f
        (if Assoc.contains "items" fields then fields else Assoc.set "items" items fields) := by
    intro fields items h hitems
    split
    · exact h
    · exact h.set _ (TypeExpr.writableIn_itemSchema hitems)
  unfold withSimpleType
  dsimp only
  split
  · split
    · exact h
    · exact writableIn_withType _ h
  · next items hschema =>
    refine hitems ?_ hschema
    split
    · exact h
    · exact writableIn_withType _ h

theorem Parameter.writableIn_baseFields (field : Field) (description : String) {settings : Fields}
    (h : Fields.WritableIn f settings) :
    Fields.WritableIn f (baseFields field description settings) := by
  refine Fields.WritableIn.update ?_ h
  have hrequired : (Value.bool field.required).writableIn f = true := by
    rw [Value.writableIn] <;> simp
  simp [Fields.WritableIn, hrequired]

theorem Parameter.ends_ofTag (format : String → String) (default : Value) {t : Tag}
    (h : t.isSoundMember f = true) :
    Ends (Fields.WritableIn f) (fun e => e.isReported = true) (ofTag format default t) := by
  unfold ofTag
  refine (Settings.ends_extract h).bind fun x hx => ?_
  rw [Bool.and_eq_true] at hx
  obtain ⟨ref, href, hw⟩ := Extracted.exists_modelRef hx.1 hx.2 (x.declared.or t.type)
  unfold assemble
  dsimp only
  cases Field.parse default t.name with
  | error cs => exact .error rfl
  | ok field =>
    simp only [href]
    have hbase := writableIn_baseFields field (format x.description)
      (((Extracted.writableIn_settings hx.1).erase "propertyType").erase "modelName")
    refine .ok ?_
    cases ref with
    | some target =>
      refine hbase.set _ (Value.writableIn_object ?_)
      simpa using hw target rfl
    | none => exact writableIn_withSimpleType _ hbase

/-! ## Responses -/

theorem Schema.writableIn_fields {type : Option String} {items ref : Option Value}
    (hitems : ∀ v, items = some v → v.writableIn f = true)
    (href : ∀ v, ref = some v → v.writableIn f = true) :
    Fields.WritableIn f (fields ⟨type, items, ref⟩) := by
  intro e he
  unfold fields at he
  simp only [List.mem_append, Option.mem_toList, Option.map_eq_some_iff] at he
  rcases he with (⟨name, -, rfl⟩ | ⟨v, hv, rfl⟩) | ⟨v, hv, rfl⟩
  · exact Value.writableIn_str f name
  · exact hitems v hv
  · exact href v hv

theorem Schema.exists_ofTag {x : Extracted} (h : x.isSound f = true) (type : Option TypeExpr) :
    ∃ s, ofTag type x.settings = .ok s ∧ Fields.WritableIn f s.fields := by
  obtain ⟨ref, href, hw⟩ := TypeExpr.exists_modelRef type
    (Assoc.get? "modelName" x.settings) fun v hv => x.writableIn_of_get? h hv
  unfold ofTag
  simp only [href]
  refine ⟨_, rfl, ?_⟩
  unfold withRef
  split
  · exact writableIn_fields (fun v hv => x.writableIn_items h hv) (fun v hv => by cases hv)
  · exact writableIn_fields (fun v hv => x.writableIn_items h hv) hw

theorem Response.writableIn_toValue {r : Response} (h : Fields.WritableIn f r.schema.fields) :
    r.toValue.writableIn f = true := by
  refine Value.writableIn_object fun e he => ?_
  unfold fields at he
  simp only [List.mem_append, List.mem_singleton, Option.mem_toList, Option.map_eq_some_iff] at he
  rcases he with (rfl | ⟨headers, -, rfl⟩) | he
  · exact Value.writableIn_str f _
  · refine Value.writableIn_object fun e he => ?_
    obtain ⟨header, -, rfl⟩ := List.mem_map.mp he
    exact Value.writableIn_object (by simp)
  · split at he
    · cases he
    · rw [List.mem_singleton] at he
      subst he
      exact h.object

theorem Response.ends_ofTag (format : String → String) (headers : HeaderMap) {t : Tag}
    (h : t.isSoundResponse f = true) :
    Ends (fun r : String × Response => r.2.toValue.writableIn f = true)
      (fun e => e.isReported = true) (ofTag format headers t) := by
  unfold ofTag
  refine (Settings.ends_extract h).bind fun x hx => ?_
  obtain ⟨s, hs, hw⟩ := Schema.exists_ofTag hx t.type
  rw [hs]
  exact .ok (writableIn_toValue hw)

theorem Response.ends_ofTags (format : String → String) (policy : HeaderPolicy) {tags : List Tag}
    (h : ∀ t ∈ tags, isResponseTag t = true → t.isSoundResponse f = true) :
    Ends (fun rs => ∀ r ∈ rs, r.2.toValue.writableIn f = true)
      (fun e : AssemblyError => e.isReported = true) (ofTags format policy tags).result := by
  obtain ⟨headers, hheaders⟩ := HeaderMap.exists_collect AssemblyError policy [] tags
  have hsound : ∀ t ∈ tags.filter isResponseTag, t.isSoundResponse f = true := by
    intro t ht
    obtain ⟨ht, htitle⟩ := List.mem_filter.mp ht
    exact h t ht htitle
  have hpairs := ends_mapM fun t ht => ends_ofTag format headers (hsound t ht)
  unfold ofTags
  refine Report.ends_bind (P := fun m => m = headers) ?_ ?_
  · show Ends _ _ (HeaderMap.collect policy [] tags).result
    rw [hheaders]
    exact .ok rfl
  · rintro _ rfl
    refine Report.ends_bind hpairs fun pairs hp => ?_
    exact .ok fun r hr => hp r (Assoc.mem_ofEntries hr)

/-! ## Security requirements -/

theorem Security.ends_parse {text : String} (h : isSound f text = true) :
    Ends (fun vs => ∀ v ∈ vs, v.writableIn f = true) (fun _ => False) (parse text).result := by
  have hnamed : Ends (fun vs => ∀ v ∈ vs, v.writableIn f = true) (fun _ => False)
      (parse.named text).result := by
    refine .ok fun v hv => ?_
    rw [List.mem_singleton] at hv
    subst hv
    exact Value.writableIn_object (by simp [Value.array, Value.writableIn, Value.writableInList])
  unfold isSound at h
  unfold parse
  split at h
  · next v hv =>
    simp only [hv]
    cases hr : requirements? v with
    | none => exact hnamed
    | some vs =>
      unfold requirements? at hr
      split at hr
      · split at hr
        · cases hr
          rw [Value.writableIn, Value.writableInList_iff] at h
          exact .ok h
        · cases hr
      · cases hr
  · next e he =>
    rw [decide_eq_true_eq] at h
    subst h
    simp only [he]
    exact hnamed

/-- A detail of a sound annotation. -/
theorem Detail.ends_value (format : String → String) {text : String} (d : Detail)
    (h : d = .security → Security.isSound f text = true) :
    Ends (fun v => v.writableIn f = true) (fun e => e.isReported = true)
      (d.value format text).result := by
  cases d with
  | operationId => exact .ok (Value.writableIn_str f _)
  | summary => exact .ok (Value.writableIn_str f _)
  | produces | consumes =>
    refine .ok (Value.writableIn_array fun v hv => ?_)
    obtain ⟨s, -, rfl⟩ := List.mem_map.mp hv
    exact Value.writableIn_str f s
  | security =>
    have hparse := Security.ends_parse (h rfl)
    unfold value
    refine Report.ends_bind (P := fun vs => ∀ v ∈ vs, v.writableIn f = true) ?_ fun vs hvs =>
      .ok (Value.writableIn_array hvs)
    unfold Report.mapError
    dsimp only
    generalize (Security.parse text).result = parsed at hparse ⊢
    cases hparse with
    | error h => exact h.elim
    | ok h => exact .ok h

/-! ## Operations -/

/-- An operation that can be written. -/
structure Operation.WritableIn (f : Format) (o : Operation) : Prop where
  parameters : ∀ fields ∈ o.parameters, Fields.WritableIn f fields
  responses : ∀ r ∈ o.responses, r.2.toValue.writableIn f = true
  details : ∀ d ∈ o.details, d.2.writableIn f = true

theorem Operation.WritableIn.fields {o : Operation} (h : o.WritableIn f) :
    Fields.WritableIn f o.fields := by
  intro e he
  rcases List.mem_append.mp he with he | he
  · simp only [List.mem_cons, List.not_mem_nil, or_false] at he
    rcases he with rfl | rfl | rfl | rfl
    · refine Value.writableIn_array fun v hv => ?_
      obtain ⟨fields, hfields, rfl⟩ := List.mem_map.mp hv
      exact (h.parameters fields hfields).object
    · exact Value.writableIn_str f _
    · refine Value.writableIn_array fun v hv => ?_
      obtain ⟨s, -, rfl⟩ := List.mem_map.mp hv
      exact Value.writableIn_str f s
    · refine Value.writableIn_object fun e he => ?_
      obtain ⟨r, hr, rfl⟩ := List.mem_map.mp he
      exact h.responses r hr
  · obtain ⟨d, hd, rfl⟩ := List.mem_map.mp he
    exact h.details d hd

namespace PathMap

/-- Operations that can be written. -/
def WritableIn (f : Format) (paths : PathMap) : Prop :=
  ∀ path ∈ paths, ∀ op ∈ path.2, op.2.WritableIn f

variable {paths : PathMap}

theorem WritableIn.get? (h : WritableIn f paths) {route : Route} {o : Operation}
    (ho : paths.get? route = some o) : o.WritableIn f := by
  obtain ⟨item, hitem, ho⟩ := Option.bind_eq_some_iff.mp ho
  exact h _ (Assoc.mem_of_get? hitem) _ (Assoc.mem_of_get? ho)

theorem WritableIn.set (h : WritableIn f paths) (route : Route) {o : Operation}
    (ho : o.WritableIn f) : WritableIn f (paths.set route o) := by
  intro path hpath op hop
  rcases Assoc.mem_set hpath with rfl | hpath
  · rcases Assoc.mem_set hop with rfl | hop
    · exact ho
    · cases hitem : Assoc.get? route.uri paths with
      | none => simp [hitem] at hop
      | some item =>
        rw [hitem] at hop
        exact h _ (Assoc.mem_of_get? hitem) op hop
  · exact h path hpath op hop

theorem WritableIn.modify (h : WritableIn f paths) (route : Route) {change : Operation → Operation}
    (hchange : ∀ o, o.WritableIn f → (change o).WritableIn f) :
    WritableIn f (paths.modify route change) := by
  unfold PathMap.modify
  split
  · next o ho => exact h.set route (hchange o (h.get? ho))
  · exact h

end PathMap

namespace Routes

/-- Annotations read so far whose operations can be written. -/
structure Progress.WritableIn (f : Format) (p : Progress) : Prop where
  paths : p.routes.paths.WritableIn f
  parameters : ∀ fields ∈ p.parameters, Fields.WritableIn f fields

variable {opts : RouteOptions} {block : CommentBlock} {p : Progress} {t : Tag}

/-- A route that is registered again keeps responses and details that can be written. -/
theorem writableIn_registered (description : String) (groups : List Group) {old : Option Operation}
    (h : ∀ o, old = some o → o.WritableIn f) :
    (registered description groups old).WritableIn f := by
  cases old with
  | none => exact ⟨by simp [registered], by simp [registered], by simp [registered]⟩
  | some o => exact ⟨by simp [registered], (h o rfl).responses, (h o rfl).details⟩

theorem ends_register {routes : Routes} (h : routes.paths.WritableIn f) (route : Route) :
    Ends (fun r : Routes => r.paths.WritableIn f) (fun e : AssemblyError => e.isReported = true)
      (register opts block route routes).result := by
  unfold register
  refine Report.ends_bind (P := fun _ => True) (.ok trivial) fun _ _ => .ok ?_
  exact h.set _ (writableIn_registered _ _ fun o ho => h.get? ho)

theorem ends_read (hp : p.WritableIn f) (ht : t.isSound f = true) :
    Ends (Progress.WritableIn f) (fun e => e.isReported = true) (read opts block p t).result := by
  unfold read
  split
  · exact Report.ends_bind (ends_register hp.paths _) fun r hr => .ok ⟨hr, hp.parameters⟩
  · next hroute =>
    split
    · next hparam =>
      rw [Tag.isSound, if_pos hparam] at ht
      refine Report.ends_bind (Parameter.ends_ofTag opts.format opts.defaultLocation ht)
        fun fields hfields => .ok ⟨hp.paths, ?_⟩
      intro g hg
      rcases List.mem_append.mp hg with hg | hg
      · exact hp.parameters g hg
      · rw [List.mem_singleton] at hg
        exact hg ▸ hfields
    · next hparam =>
      split
      · next route d hcurrent hdetail =>
        have hvalue : Ends (fun v => v.writableIn f = true)
            (fun e : AssemblyError => e.isReported = true)
            (d.value opts.format t.description).result := by
          refine Detail.ends_value opts.format d fun hd => ?_
          have htitle : t.title = "security" := by
            rw [← Detail.ofTitle?_eq_some.mp hdetail, hd]
            rfl
          simpa [Tag.isSound, Response.isResponseTag, htitle] using ht
        refine Report.ends_bind hvalue fun v hv => .ok ⟨?_, hp.parameters⟩
        refine hp.paths.modify route fun o ho => ⟨ho.parameters, ho.responses, ?_⟩
        intro e he
        rcases Assoc.mem_set he with rfl | he
        · exact hv
        · exact ho.details e he
      · exact .ok hp

theorem ends_refresh (hp : p.WritableIn f) (hb : ∀ t ∈ block.tags, t.isSound f = true) :
    Ends (Progress.WritableIn f) (fun e => e.isReported = true)
      (refresh opts block p).result := by
  have hresponse : ∀ t ∈ block.tags, Response.isResponseTag t = true →
      t.isSoundResponse f = true := by
    intro t ht htitle
    have hparam : t.title ≠ "param" := by
      rintro hparam
      simp [Response.isResponseTag, hparam] at htitle
    simpa [Tag.isSound, hparam, htitle] using hb t ht
  unfold refresh
  split
  · exact .ok hp
  · next route hcurrent =>
    refine Report.ends_bind (Response.ends_ofTags opts.format opts.headerPolicy hresponse)
      fun responses hresponses => .ok ⟨?_, hp.parameters⟩
    exact hp.paths.modify route fun o ho => ⟨hp.parameters, hresponses, ho.details⟩

theorem ends_step (hp : p.WritableIn f) (hb : ∀ t ∈ block.tags, t.isSound f = true)
    (ht : t.isSound f = true) :
    Ends (Progress.WritableIn f) (fun e => e.isReported = true) (step opts block p t).result :=
  Report.ends_bind (ends_read hp ht) fun _ hp => ends_refresh hp hb

theorem ends_ofBlock (opts : RouteOptions) (hb : ∀ t ∈ block.tags, t.isSound f = true) :
    Ends (fun r : Routes => r.paths.WritableIn f) (fun e => e.isReported = true)
      (ofBlock opts block).result := by
  unfold ofBlock
  refine Report.ends_bind (P := Progress.WritableIn f) ?_ fun p hp => .ok hp.paths
  rw [Report.result_foldlM]
  refine ends_foldlM (fun p t ht hp => ends_step hp hb (hb t ht)) ⟨?_, ?_⟩
  · intro path hpath
    cases hpath
  · intro fields hfields
    cases hfields

end Routes

/-! ## Models -/

theorem Model.writableIn_definition {m : Model}
    (h : ∀ p ∈ m.properties, Fields.WritableIn f p.fields) : Fields.WritableIn f m.definition := by
  intro e he
  unfold definition at he
  simp only [List.mem_append, Option.mem_toList, Option.map_eq_some_iff, List.mem_singleton] at he
  rcases he with (⟨parent, -, rfl⟩ | he) | rfl
  · refine Value.writableIn_array fun v hv => ?_
    rw [List.mem_singleton] at hv
    subst hv
    exact Value.writableIn_object (by simp)
  · split at he
    · cases he
    · rw [List.mem_singleton] at he
      subst he
      refine Value.writableIn_array fun v hv => ?_
      obtain ⟨name, -, rfl⟩ := List.mem_map.mp hv
      exact Value.writableIn_str f name
  · refine Value.writableIn_object fun e he => ?_
    obtain ⟨property, hproperty, rfl⟩ := List.mem_map.mp he
    obtain ⟨p, hp, rfl⟩ := List.mem_map.mp (Assoc.mem_ofEntries hproperty)
    exact (h p hp).object

theorem Model.ends_ofTags (format : String → String) {tags : List Tag} (hne : tags ≠ [])
    (h : ∀ t ∈ tags, t.title = "property" → t.isSoundMember f = true) :
    Ends (fun m => Fields.WritableIn f m.definition) (fun e : AssemblyError => e.isReported = true)
      (ofTags format tags).result := by
  cases tags with
  | nil => exact absurd rfl hne
  | cons head rest =>
    have hproperty : ∀ t ∈ rest.filter fun t => t.title = "property",
        t.isSoundMember f = true := by
      intro t ht
      rw [List.mem_filter, decide_eq_true_eq] at ht
      exact h t (List.mem_cons_of_mem _ ht.1) ht.2
    exact Report.ends_bind (ends_mapM fun t ht => Property.ends_ofTag format (hproperty t ht))
      fun properties hp => .ok (writableIn_definition hp)

/-! ## Contributions -/

/-- A contribution that can be written. -/
structure Contribution.WritableIn (f : Format) (c : Contribution) : Prop where
  paths : ∀ path ∈ c.paths, ∀ op ∈ path.2, op.2.writableIn f = true
  definitions : ∀ d ∈ c.definitions, d.2.writableIn f = true

/-- A block of sound annotations contributes what can be written, or fails with a report. -/
theorem Contribution.ends_ofBlock (opts : RouteOptions) {block : CommentBlock}
    (h : block.isSound f = true) :
    Ends (fun c => ∀ c', c = some c' → c'.WritableIn f) (fun e => e.isReported = true)
      (ofBlock opts block).result := by
  unfold CommentBlock.isSound at h
  unfold ofBlock
  split
  · next hmodel =>
    rw [if_pos hmodel, List.all_eq_true] at h
    have hne : block.tags ≠ [] := by
      intro hnil
      simp [CommentBlock.isModel, hnil] at hmodel
    have hproperty : ∀ t ∈ block.tags, t.title = "property" → t.isSoundMember f = true := by
      intro t ht htitle
      simpa [htitle] using h t ht
    refine Report.ends_bind (Model.ends_ofTags opts.format hne hproperty) fun m hm => .ok ?_
    rintro _ ⟨⟩
    exact ⟨by simp [ofModel], by simpa [ofModel] using hm.object⟩
  · next hmodel =>
    rw [if_neg hmodel] at h
    split
    · next hroute =>
      simp only [hroute, Bool.not_true, Bool.false_or, List.all_eq_true] at h
      refine Report.ends_bind (Routes.ends_ofBlock opts h) fun r hr => .ok ?_
      rintro _ ⟨⟩
      refine ⟨?_, by simp [ofRoutes]⟩
      intro path hpath op hop
      obtain ⟨item, hitem, rfl⟩ := List.mem_map.mp hpath
      obtain ⟨o, ho, rfl⟩ := List.mem_map.mp hop
      exact (hr item hitem o ho).fields.object
    · refine Report.ends_bind (P := fun _ => True) (.ok trivial) fun _ _ => .ok ?_
      rintro _ ⟨⟩

end AnnotatedApi
