/-
  Types that a setting declares. A parameter or a property whose settings declare a type is the one
  that its annotation gives with this type and the other settings, whatever type it has itself
  (`override_as_type`): two such annotations (`Redeclares`) are refused for the same reason, or they
  are read, and then what they have under each key is the same. Nothing of the declaration is left
  in what comes out (`TypeFree`): no field has the name of the setting, and what an annotation gives
  besides its settings (`Value.IsGenerated`) is never what describes a type expression.

  To take the type out of a settings block and to write it at the annotation is such a change
  (`Settings.extract_untyped`).
-/
import AnnotatedApi.Proofs.Nulls
import AnnotatedApi.Proofs.Required
import AnnotatedApi.Proofs.Validation

namespace AnnotatedApi

/-! ## Blocks without their type -/

namespace Settings

variable {es : List (Value × Value)} {keyed : Fields} {x : Extracted} {e : TypeExpr}

/-- The entries of a block but those that spell `propertyType`. -/
def untyped (es : List (Value × Value)) : List (Value × Value) :=
  es.filter fun e => !hasText "propertyType" e.1

theorem typeValue?_untyped (es : List (Value × Value)) : typeValue? (untyped es) = none := by
  have hnone : Assoc.get? (.str "propertyType") (untyped es) = none := by
    rw [Assoc.get?_eq_none_iff, Assoc.keys, List.mem_map]
    rintro ⟨e, he, hkey⟩
    have hspelled := (List.mem_filter.mp he).2
    rw [hkey] at hspelled
    exact absurd hspelled (by decide)
  rw [typeValue?, hnone]
  rfl

theorem keyed_untyped
    (h : List.Forall₂ (fun e f => Checked.text e.1 = .ok f.1 ∧ e.2 = f.2) es keyed) :
    List.Forall₂ (fun e f => Checked.text e.1 = .ok f.1 ∧ e.2 = f.2) (untyped es)
      (Assoc.erase "propertyType" keyed) := by
  induction h with
  | nil => exact .nil
  | @cons e f es keyed hkey _ ih =>
    have hspelled : hasText "propertyType" e.1 = decide (f.1 = "propertyType") := by
      rw [hasText, hkey.1]
    rw [untyped, List.filter_cons, hspelled, Assoc.erase_cons]
    by_cases hf : f.1 = "propertyType"
    · rw [if_pos hf, if_neg (by simp [hf])]
      exact ih
    · rw [if_neg hf, if_pos (by simp [hf])]
      exact .cons hkey ih

/-- Without the type a block gives the other settings, as before. -/
theorem ofEntries_untyped {settings : Fields} (h : ofEntries es = .ok (settings, some e)) :
    ofEntries (untyped es) = .ok (settings, none) := by
  obtain ⟨⟨keyed, hkeys⟩, htype⟩ := keyed_of_ofEntries h
  obtain ⟨r, hr, hsettles⟩ := ofEntries_of_keyed hkeys htype
  obtain rfl := Except.ok.inj (h.symm.trans hr)
  obtain ⟨⟨settings', declared'⟩, hr', hrest⟩ :=
    ofEntries_of_keyed (keyed_untyped hkeys) fun v hv => by
      rw [typeValue?_untyped] at hv
      cases hv
  -- No key is left that could declare a type.
  have hdeclared : declared' = none := by
    refine Option.eq_none_iff_forall_ne_some.mpr fun e' he' => ?_
    obtain ⟨v, hv, -⟩ := ((hrest "").declared e').mp he'
    rw [typeValue?_untyped] at hv
    cases hv
  subst hdeclared
  have hsettings : settings = Assoc.erase "propertyType" (Assoc.ofEntries keyed) :=
    (hsettles "").settings
  have hsettings' : settings' = Assoc.ofEntries (Assoc.erase "propertyType" keyed) :=
    (hrest "").settings
  have herase : Assoc.erase "propertyType" (Assoc.ofEntries keyed) =
      Assoc.ofEntries (Assoc.erase "propertyType" keyed) := Assoc.erase_update _ [] keyed
  rw [hr', hsettings', hsettings, herase]

/-- The text is `pre`, a settings block with the text `body`, and `post`. -/
structure Framed (text : String) (pre body post : List Char) : Prop where
  opens : Text.FirstAt opener pre (body ++ closer ++ post) text.toList
  closes : Text.FirstAt closer body post (body ++ closer ++ post)
  length : body.length ≠ 1

theorem framed_of_cuts {text : String} {pre body post : List Char}
    (h : ((Text.cut? opener text.toList).bind fun p =>
      (Text.cut? closer p.2).map fun q => (p.1, q)) = some (pre, body, post))
    (hlength : body.length ≠ 1) : Framed text pre body post := by
  obtain ⟨⟨_, rest⟩, hopen, h⟩ := Option.bind_eq_some_iff.mp h
  obtain ⟨_, hclose, h⟩ := Option.map_eq_some_iff.mp h
  cases h
  have hcloses := Text.cut?_eq_some_iff.mp hclose
  obtain rfl : rest = body ++ closer ++ post := hcloses.split
  exact ⟨Text.cut?_eq_some_iff.mp hopen, hcloses, hlength⟩

/-- The type can be taken out of the block of a description: the other settings and the visible text
stay as they are. -/
theorem extract_untyped {text text' : String} {pre body body' post : List Char}
    (h : Framed text pre body post) (h' : Framed text' pre body' post)
    (hgives : Gives (String.ofList body) es) (hgives' : Gives (String.ofList body') (untyped es))
    (hx : extract text = .ok x) (he : x.declared = some e) :
    extract text' = .ok { x with declared := none } := by
  rw [extract_of_block h.opens h.closes h.length, load_eq_ok_iff.mpr hgives, ok_bind] at hx
  obtain ⟨⟨settings, declared⟩, hr, hx⟩ := exists_of_bind_ok hx
  cases hx
  obtain rfl : declared = some e := he
  rw [extract_of_block h'.opens h'.closes h'.length, load_eq_ok_iff.mpr hgives', ok_bind,
    ofEntries_untyped hr]
  rfl

/-- What is read from a text, by the values of its parts: an expression is known by the value that
describes it. -/
theorem extract_of_values {text : String}
    (h : (extract text).toOption.map
        (fun x => (x.settings, x.declared.map TypeExpr.toValue, x.description)) =
      some (x.settings, x.declared.map TypeExpr.toValue, x.description)) :
    extract text = .ok x := by
  have hinjective : Function.Injective TypeExpr.toValue := fun e e' hvalue => by
    have hcheck := congrArg TypeExpr.check hvalue
    rw [TypeExpr.check_toValue, TypeExpr.check_toValue] at hcheck
    exact Except.ok.inj hcheck
  obtain ⟨r, hr, hparts⟩ := exists_of_toOption_map h
  simp only [Prod.mk.injEq] at hparts
  obtain ⟨hsettings, hdeclared, hdescription⟩ := hparts
  rw [hr]
  cases r
  cases x
  simp_all [Option.map_injective hinjective |>.eq_iff]

end Settings

/-! ## What is no type expression -/

theorem Value.IsGenerated.ne_toValue {v : Value} (h : v.IsGenerated) (e : TypeExpr) :
    v ≠ e.toValue := by
  obtain ⟨kind, name, expression, applications, elements⟩ := e
  cases h <;> simp [TypeExpr.toValue, object]

/-- No field is left of a type that settings declare: none has the name of the setting, and none is
the object that describes a type expression, but where a setting itself is such an object. -/
structure TypeFree (settings fields : Fields) : Prop where
  key : "propertyType" ∉ Assoc.keys fields
  value : ∀ k (e : TypeExpr), (k, e.toValue) ∈ fields → (k, e.toValue) ∈ settings

namespace Parameter

variable {format : String → String} {default : Value} {t : Tag} {x : Extracted}
  {ref : Option Value} {fields : Fields} {k : String} {v : Value}

theorem mem_of_setting? (h : setting? x k = some v) : (k, v) ∈ x.settings := by
  rw [setting?] at h
  split at h
  · cases h
  · exact Assoc.mem_of_get? h

theorem Reflects.typeFree (h : Reflects format default t x ref fields)
    (hnodup : (Assoc.keys fields).Nodup) : TypeFree x.settings fields := by
  obtain ⟨field, -, hvalue⟩ := h.value
  constructor
  · rw [← Assoc.get?_eq_none_iff, hvalue, get?_imposed_of_ne _ _ (by decide), Option.none_or]
    rfl
  · intro k e he
    rw [← Assoc.get?_eq_some_iff hnodup, hvalue, Option.or_eq_some_iff, Option.or_eq_some_iff] at he
    rcases he with he | ⟨-, he | ⟨-, he⟩⟩
    · exact absurd rfl ((isGenerated_imposed he).ne_toValue e)
    · exact mem_of_setting? he
    · exact absurd rfl ((isGenerated_base? he).ne_toValue e)

end Parameter

namespace Property

variable {format : String → String} {t : Tag} {x : Extracted} {ref : Option Value} {p : Property}
  {k : String} {v : Value}

theorem mem_of_setting? (h : setting? x k = some v) : (k, v) ∈ x.settings := by
  rw [setting?] at h
  split at h
  · cases h
  · exact Assoc.mem_of_get? h

/-- Items can be those of a setting. -/
theorem isGenerated_or_mem_of_base? (h : base? format t x k = some v) :
    v.IsGenerated ∨ (k, v) ∈ x.settings := by
  unfold base? at h
  split at h
  · -- The type: a string where there is none, else the name of it.
    split at h
    · cases h
      exact .inl (.text _)
    · obtain ⟨name, -, rfl⟩ := Option.map_eq_some_iff.mp h
      exact .inl (.text _)
  split at h
  · cases h
    exact .inl (.text _)
  split at h
  · next hk =>
    subst hk
    rw [Schema.items?, Option.or_eq_some_iff] at h
    rcases h with h | ⟨-, h⟩
    · exact .inl (TypeExpr.isGenerated_itemSchema h)
    · exact .inr (Assoc.mem_of_get? (Option.filter_eq_some_iff.mp h).1)
  · cases h

theorem Reflects.typeFree (h : Reflects format t x ref p) : TypeFree x.settings p.fields := by
  cases ref with
  | some target =>
    rw [h.alone target rfl]
    refine ⟨by simp [Assoc.keys], fun k e he => ?_⟩
    obtain ⟨-, rfl⟩ := Prod.mk.inj (List.mem_singleton.mp he)
    exact absurd rfl ((TypeExpr.isGenerated_modelRef h.reference).ne_toValue e)
  | none =>
    constructor
    · rw [← Assoc.get?_eq_none_iff, h.generated rfl _ rfl]
      rfl
    · intro k e he
      rw [← Assoc.get?_eq_some_iff h.nodup] at he
      cases hk : setting? x k with
      | some v =>
        rw [h.written rfl k v hk, Option.filter_eq_some_iff] at he
        obtain rfl := Option.some.inj he.1
        exact mem_of_setting? hk
      | none =>
        rw [h.generated rfl k hk] at he
        exact (isGenerated_or_mem_of_base? he).resolve_left fun hv => hv.ne_toValue e rfl

end Property

/-! ## A declared type as the type of the annotation -/

/-- Two annotations: the settings of the first declare the type `e`, and the second has this type
and the other settings. -/
structure Redeclares (t t' : Tag) (e : TypeExpr) (x x' : Extracted) : Prop where
  title : t'.title = t.title
  name : t'.name = t.name
  type : t'.type = some e
  extracted : Settings.extract t.description = .ok x
  extracted' : Settings.extract t'.description = .ok x'
  declared : x.declared = some e
  undeclared : x'.declared = none
  description : x'.description = x.description
  settings : Assoc.Alike Eq x.settings x'.settings

namespace Redeclares

variable {t t' : Tag} {e : TypeExpr} {x x' : Extracted}

theorem get? (h : Redeclares t t' e x x') (k : String) :
    Assoc.get? k x'.settings = Assoc.get? k x.settings :=
  (Assoc.eq_of_rel (h.settings.get? k)).symm

/-- The type that counts is the same. -/
theorem counted (h : Redeclares t t' e x x') : x'.declared.or t'.type = x.declared.or t.type := by
  rw [h.undeclared, h.type, h.declared]
  rfl

theorem modelRef (h : Redeclares t t' e x x') :
    x'.modelRef (x'.declared.or t'.type) = x.modelRef (x.declared.or t.type) := by
  rw [h.counted]
  exact Extracted.modelRef_congr (h.get? _) (h.get? _) _

end Redeclares

namespace Parameter

variable {format : String → String} {default : Value} {t t' : Tag} {e : TypeExpr}
  {x x' : Extracted} {ref : Option Value} {fields fields' : Fields}

theorem ofTag_eq_assemble (format : String → String) (default : Value)
    (hx : Settings.extract t.description = .ok x) :
    ofTag format default t = assemble format default t.name t.type x := by
  rw [ofTag, hx]
  rfl

theorem reflects_of_extract (hx : Settings.extract t.description = .ok x)
    (h : ofTag format default t = .ok fields) :
    ∃ ref, x.modelRef (x.declared.or t.type) = .ok ref ∧
      Reflects format default t x ref fields := by
  obtain ⟨x₁, ref, hreflects⟩ := reflects_of_ofTag h
  obtain rfl : x₁ = x := Except.ok.inj (hreflects.settings.symm.trans hx)
  exact ⟨ref, hreflects.reference, hreflects⟩

theorem ofTag_of_redeclares (format : String → String) (default : Value)
    (h : Redeclares t t' e x x') :
    (∃ er, ofTag format default t = .error er ∧ ofTag format default t' = .error er) ∨
      ∃ ref fields fields', ofTag format default t = .ok fields ∧
        ofTag format default t' = .ok fields' ∧ Reflects format default t x ref fields ∧
        Reflects format default t' x' ref fields' := by
  have hofTag := ofTag_eq_assemble format default h.extracted
  have hofTag' := ofTag_eq_assemble format default h.extracted'
  rw [h.name] at hofTag'
  cases hf : Field.parse default t.name with
  | error cs =>
    rw [assemble, hf] at hofTag hofTag'
    exact .inl ⟨_, hofTag, hofTag'⟩
  | ok field =>
    rw [assemble_of_field hf] at hofTag hofTag'
    cases hr : x.modelRef (x.declared.or t.type) with
    | error er =>
      rw [hr] at hofTag
      rw [h.modelRef, hr] at hofTag'
      exact .inl ⟨er, hofTag, hofTag'⟩
    | ok ref =>
      rw [hr] at hofTag
      rw [h.modelRef, hr] at hofTag'
      obtain ⟨ref₁, href₁, hreflects⟩ := reflects_of_extract h.extracted hofTag
      obtain ⟨ref₂, href₂, hreflects'⟩ := reflects_of_extract h.extracted' hofTag'
      obtain rfl : ref₁ = ref₂ := Except.ok.inj (href₁.symm.trans (h.modelRef.symm.trans href₂))
      exact .inr ⟨ref₁, _, _, hofTag, hofTag', hreflects, hreflects'⟩

theorem ofTag_eq_of_redeclares (format : String → String) (default : Value)
    (h : Redeclares t t' e x x') (hsettings : x'.settings = x.settings) :
    ofTag format default t' = ofTag format default t := by
  rw [ofTag_eq_assemble format default h.extracted, ofTag_eq_assemble format default h.extracted',
    assemble, assemble]
  dsimp only
  rw [h.modelRef, h.counted, h.name, h.description, hsettings]

/-- Of each field the two say the same: the type over it, the setting, and the rest. -/
theorem get?_of_redeclares (h : Redeclares t t' e x x')
    (hp : Reflects format default t x ref fields)
    (hp' : Reflects format default t' x' ref fields') (k : String) :
    Assoc.get? k fields = Assoc.get? k fields' := by
  obtain ⟨field, hfield, hvalue⟩ := hp.value
  obtain ⟨field', hfield', hvalue'⟩ := hp'.value
  rw [h.name] at hfield'
  obtain rfl : field = field' := Except.ok.inj (hfield.symm.trans hfield')
  have hsetting : setting? x' k = setting? x k := by
    unfold setting?
    rw [h.get?]
  rw [hvalue, hvalue', h.counted, h.description, hsetting]

end Parameter

namespace Property

variable {format : String → String} {t t' : Tag} {e : TypeExpr} {x x' : Extracted}
  {ref : Option Value} {p p' : Property}

theorem ofTag_eq_of_redeclares (format : String → String) (h : Redeclares t t' e x x')
    (hsettings : x'.settings = x.settings) : ofTag format t' = ofTag format t := by
  rw [ofTag_of_extract format h.extracted, ofTag_of_extract format h.extracted', assemble, assemble,
    h.modelRef, h.counted, h.name, h.description, hsettings]

theorem required_of_redeclares (h : Redeclares t t' e x x') (hp : Reflects format t x ref p)
    (hp' : Reflects format t' x' ref p') : p'.required = p.required := by
  rw [hp.required, hp'.required, h.name, h.get?]

theorem name_of_redeclares (h : Redeclares t t' e x x') (hp : Reflects format t x ref p)
    (hp' : Reflects format t' x' ref p') : p'.name = p.name := by
  rw [hp.name, hp'.name, required_of_redeclares h hp hp', h.name]

theorem alike_of_redeclares (h : Redeclares t t' e x x') (hp : Reflects format t x ref p)
    (hp' : Reflects format t' x' ref p') : Assoc.Alike Eq p.fields p'.fields := by
  refine hp.alike hp' (fun k => ?_) fun k => ?_
  · unfold setting?
    rw [h.get?]
  · have htyped : (typed t' x').type = (typed t x).type := h.counted
    unfold base? Schema.items?
    rw [htyped, h.description, h.get?]

end Property

/-- **A declared type is the type of the annotation.** Of two annotations, let the settings of the
first declare a type, whatever type it has itself, and let the second have this type, the other
settings and the same visible text. As parameters both are refused for the same reason, or both are
read to the same fields; as properties both are refused for the same reason, or both are read to the
same fields under the same name, and behind any other properties the same names are required. If the
settings stand in the same order, so do the fields. A type expression is not a value, and nothing
else is left of the declaration either: no field has the name of the setting, and none is the object
that describes a type expression, but where a setting is. -/
theorem override_as_type (format : String → String) (default : Value) {t t' : Tag} {e : TypeExpr}
    {x x' : Extracted} (h : Redeclares t t' e x x') :
    ((∃ er, Parameter.ofTag format default t = .error er ∧
        Parameter.ofTag format default t' = .error er) ∨
      ∃ fields fields', Parameter.ofTag format default t = .ok fields ∧
        Parameter.ofTag format default t' = .ok fields' ∧ Assoc.Alike Eq fields fields' ∧
        TypeFree x.settings fields ∧ TypeFree x'.settings fields') ∧
    ((∃ er, Property.ofTag format t = .error er ∧ Property.ofTag format t' = .error er) ∨
      ∃ p p', Property.ofTag format t = .ok p ∧ Property.ofTag format t' = .ok p' ∧
        p'.name = p.name ∧
        (∀ ps, Property.requiredNames (ps ++ [p']) = Property.requiredNames (ps ++ [p])) ∧
        Assoc.Alike Eq p.fields p'.fields ∧
        TypeFree x.settings p.fields ∧ TypeFree x'.settings p'.fields) ∧
    (x'.settings = x.settings →
      Parameter.ofTag format default t' = Parameter.ofTag format default t ∧
        Property.ofTag format t' = Property.ofTag format t) := by
  refine ⟨(Parameter.ofTag_of_redeclares format default h).imp_right ?_,
    (Property.ofTag_both format h.extracted h.extracted' h.modelRef).imp_right ?_, ?_⟩
  · rintro ⟨ref, fields, fields', hok, hok', hp, hp'⟩
    -- No key stands twice on either side, so the fields are alike if look-ups give the same.
    have hnodup := Parameter.nodup_of_ofTag hok
    have hnodup' := Parameter.nodup_of_ofTag hok'
    exact ⟨fields, fields', hok, hok',
      .of_nodup hnodup hnodup' (Parameter.get?_of_redeclares h hp hp'), hp.typeFree hnodup,
      hp'.typeFree hnodup'⟩
  · rintro ⟨ref, p, p', hok, hok', hp, hp'⟩
    have hname := Property.name_of_redeclares h hp hp'
    refine ⟨p, p', hok, hok', hname, fun ps => ?_, Property.alike_of_redeclares h hp hp',
      hp.typeFree, hp'.typeFree⟩
    rw [Property.requiredNames_concat, Property.requiredNames_concat,
      Property.required_of_redeclares h hp hp', hname]
  · exact fun hsettings => ⟨Parameter.ofTag_eq_of_redeclares format default h hsettings,
      Property.ofTag_eq_of_redeclares format h hsettings⟩

/-- A list of pets, and a settings block that declares it. -/
def petList : TypeExpr := { name := some "Array", applications := [{ name := some "Pet" }] }

def petListBlock : String :=
  "propertyType: \x7bname: Array, applications: [\x7bname: Pet\x7d]\x7d\nx-rank: 1"

def rankSettings : Fields := [("x-rank", .int 1)]

theorem redeclares_petList :
    Redeclares (bodyTag (some "integer") petListBlock)
      { bodyTag none "x-rank: 1" with type := some petList } petList
      { settings := rankSettings, declared := some petList, description := "The pet." }
      { settings := rankSettings, description := "The pet." } := by
  have hframed : Settings.Framed (bodyTag (some "integer") petListBlock).description
      "The pet.\n".toList ("\n" ++ petListBlock ++ "\n").toList [] :=
    Settings.framed_of_cuts (by decide +kernel) (by decide +kernel)
  have hframed' : Settings.Framed (bodyTag none "x-rank: 1").description
      "The pet.\n".toList "\nx-rank: 1\n".toList [] :=
    Settings.framed_of_cuts (by decide +kernel) (by decide +kernel)
  have hgives : Settings.Gives (String.ofList ("\n" ++ petListBlock ++ "\n").toList)
      [(.str "propertyType", .object [("name", .str "Array"),
        ("applications", .array [.object [("name", .str "Pet")]])]), (.str "x-rank", .int 1)] :=
    .inr ⟨none, by decide +kernel⟩
  have hgives' : Settings.Gives (String.ofList "\nx-rank: 1\n".toList) [(.str "x-rank", .int 1)] :=
    .inr ⟨none, by decide +kernel⟩
  have hx : Settings.extract (bodyTag (some "integer") petListBlock).description = .ok
      { settings := rankSettings, declared := some petList, description := "The pet." } :=
    Settings.extract_of_values (by decide +kernel)
  exact {
    title := rfl
    name := rfl
    type := rfl
    extracted := hx
    extracted' := Settings.extract_untyped hframed hframed' hgives hgives' hx rfl
    declared := rfl
    undeclared := rfl
    description := rfl
    settings := .of_nodup (by decide) (by decide) fun _ => rfl }

/-- The list of pets counts, and not the integer. -/
theorem override_as_type_petList :
    ∃ fields p,
      Parameter.ofTag id Field.defaultLocation (bodyTag (some "integer") petListBlock) =
        .ok fields ∧
      Assoc.get? "items" fields = some (TypeExpr.refTo "Pet") ∧
      "propertyType" ∉ Assoc.keys fields ∧
      Property.ofTag id (bodyTag (some "integer") petListBlock) = .ok p ∧
      Assoc.get? "items" p.fields = some (TypeExpr.refTo "Pet") ∧
      "propertyType" ∉ Assoc.keys p.fields := by
  obtain ⟨hparameter, hproperty, hsame⟩ :=
    override_as_type id Field.defaultLocation redeclares_petList
  obtain ⟨hsameParameter, hsameProperty⟩ := hsame rfl
  have hitems : (Parameter.ofTag id Field.defaultLocation
      { bodyTag none "x-rank: 1" with type := some petList }).toOption.map (Assoc.get? "items") =
        some (some (TypeExpr.refTo "Pet")) := by decide +kernel
  have hitems' : (Property.ofTag id
      { bodyTag none "x-rank: 1" with type := some petList }).toOption.map
        (fun p => Assoc.get? "items" p.fields) = some (some (TypeExpr.refTo "Pet")) := by
    decide +kernel
  rw [hsameParameter] at hitems
  rw [hsameProperty] at hitems'
  obtain ⟨fields, hfields, hget⟩ := exists_of_toOption_map hitems
  obtain ⟨p, hp, hget'⟩ := exists_of_toOption_map hitems'
  refine ⟨fields, p, hfields, hget, ?_, hp, hget', ?_⟩
  · obtain ⟨er, her, -⟩ | ⟨_, _, hok, -, -, hfree, -⟩ := hparameter
    · cases hfields.symm.trans her
    · cases hfields.symm.trans hok
      exact hfree.key
  · obtain ⟨er, her, -⟩ | ⟨_, _, hok, -, -, -, -, hfree, -⟩ := hproperty
    · cases hp.symm.trans her
    · cases hp.symm.trans hok
      exact hfree.key

end AnnotatedApi
