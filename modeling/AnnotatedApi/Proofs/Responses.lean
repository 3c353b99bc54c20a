/-
  The responses of a block. Under each status code stands the response of the last annotation with
  that code (`Response.get?_ofTags`), and nothing of the other annotations shows in it but the
  headers of the code. `Response.Reflects` says what the annotation and the headers make of the
  response: when it has a schema, what the schema holds, and that a reference leaves no type beside
  it but that of a list. `responses_of_tags` is the statement.
-/
import AnnotatedApi.Proofs.Cutting
import AnnotatedApi.Proofs.Routes
import AnnotatedApi.Proofs.Store

namespace AnnotatedApi

/-! ## Entries by their last element -/

/-- The last value under a key, where each entry is made of an element that tells its key. -/
theorem Store.last_of_mapM {ε α κ ν : Type} [DecidableEq κ] {f : α → Except ε (κ × ν)} {key : α → κ}
    (hkey : ∀ a e, f a = .ok e → e.1 = key a) {as : List α} {es : List (κ × ν)}
    (h : as.mapM f = .ok es) (k : κ) :
    last k es = (as.filter fun a => key a = k).getLast?.bind fun a =>
      (f a).toOption.map Prod.snd := by
  induction as generalizing es with
  | nil =>
    cases h
    rfl
  | cons a as ih =>
    obtain ⟨e, rest, he, hrest, rfl⟩ := exists_of_mapM_cons_ok h
    have hk := hkey a e he
    rw [last_cons, ih hrest]
    by_cases hak : key a = k
    · rw [List.filter_cons_of_pos (by simpa using hak), List.getLast?_cons, if_pos (hk.trans hak)]
      cases hlast : (as.filter fun a => key a = k).getLast? with
      | none => simp [he, Except.toOption]
      | some b =>
        -- The later element was read as well, so its value stands in the place of this one.
        have hb : b ∈ as := (List.mem_filter.mp (List.mem_of_getLast? hlast)).1
        obtain ⟨e', -, he'⟩ := (exists_of_mapM_ok hrest).1 b hb
        simp [he', Except.toOption]
    · rw [List.filter_cons_of_neg (by simpa using hak), if_neg (hk ▸ hak), Option.or_none]

namespace AssemblyError

theorem ofSettings_eq_ok {α : Type} {c : Except SettingsError α} {a : α}
    (h : ofSettings c = .ok a) : c = .ok a := by
  cases c with
  | ok b => cases h; rfl
  | error e => cases h

theorem ofRef_eq_ok {α : Type} {c : Except TypeExpr.RefError α} {a : α}
    (h : ofRef c = .ok a) : c = .ok a := by
  cases c with
  | ok b => cases h; rfl
  | error e => cases h

end AssemblyError

/-! ## Schemas -/

/-- The schema of items is an object with one entry, a simple type or a reference. -/
theorem TypeExpr.itemSchema_eq_some {e : Option TypeExpr} {v : Value} (h : itemSchema e = some v) :
    ∃ key text, v = .object [(key, .str text)] := by
  simp only [itemSchema, Option.bind_eq_bind, Option.bind_eq_some_iff] at h
  obtain ⟨e, -, first, -, name, -, h⟩ := h
  split at h
  · cases h
  · split at h
    · cases h
      exact ⟨"type", name, rfl⟩
    · cases h
      exact ⟨"$ref", _, rfl⟩

namespace Schema

/-- The type name of an annotation that has one. -/
def typeName? (t : Tag) : Option String := (TypeExpr.typeName t.type).filter (· ≠ "")

/-- The items of an annotation: those of its type, or else those that its settings give. -/
def items? (t : Tag) (x : Extracted) : Option Value :=
  (TypeExpr.itemSchema t.type).or ((Assoc.get? "items" x.settings).filter Value.truthy)

theorem truthy_itemSchema {e : Option TypeExpr} {v : Value} (h : TypeExpr.itemSchema e = some v) :
    v.truthy = true := by
  obtain ⟨key, text, rfl⟩ := TypeExpr.itemSchema_eq_some h
  rfl

theorem items_eq (t : Tag) (x : Extracted) :
    ((TypeExpr.itemSchema t.type).or (Assoc.get? "items" x.settings)).filter Value.truthy =
      items? t x := by
  unfold items?
  cases h : TypeExpr.itemSchema t.type with
  | none => simp
  | some v => simp [Option.filter, truthy_itemSchema h]

/-- A schema fails with the reference, and is made of it, of the type name and of the items. -/
theorem ofTag_eq_map (t : Tag) (x : Extracted) :
    ofTag t.type x.settings =
      (TypeExpr.modelRef t.type (Assoc.get? "modelName" x.settings)).map fun ref =>
        withRef ref { type := typeName? t, items := items? t x } := by
  unfold ofTag
  rw [items_eq]
  cases TypeExpr.modelRef t.type (Assoc.get? "modelName" x.settings) <;> rfl

/-- The schema of an annotation whose settings and reference are known. -/
theorem ofTag_eq {t : Tag} {x : Extracted} {s : Schema} (h : ofTag t.type x.settings = .ok s) :
    ∃ ref, TypeExpr.modelRef t.type (Assoc.get? "modelName" x.settings) = .ok ref ∧
      s = withRef ref { type := typeName? t, items := items? t x } := by
  rw [ofTag_eq_map] at h
  obtain ⟨ref, href, rfl⟩ := exists_of_map_ok h
  exact ⟨ref, href, rfl⟩

theorem get?_fields (s : Schema) :
    Assoc.get? "type" s.fields = s.type.map .str ∧ Assoc.get? "items" s.fields = s.items ∧
      Assoc.get? "$ref" s.fields = s.ref := by
  obtain ⟨type, items, ref⟩ := s
  cases type <;> cases items <;> cases ref <;> simp [fields, Assoc.get?]

theorem keys_fields (s : Schema) : Assoc.keys s.fields ⊆ ["type", "items", "$ref"] := by
  obtain ⟨type, items, ref⟩ := s
  cases type <;> cases items <;> cases ref <;> simp [fields, Assoc.keys]

theorem fields_eq_nil_iff (s : Schema) :
    s.fields = [] ↔ s.type = none ∧ s.items = none ∧ s.ref = none := by
  simp [fields]

theorem ref_withRef (ref : Option Value) (type : Option String) (items : Option Value) :
    (withRef ref { type := type, items := items }).ref = ref := by
  cases ref <;> rfl

theorem items_withRef (ref : Option Value) (type : Option String) (items : Option Value) :
    (withRef ref { type := type, items := items }).items = items := by
  cases ref <;> rfl

theorem type_withRef (ref : Option Value) (type : Option String) (items : Option Value) :
    (withRef ref { type := type, items := items }).type =
      if ref.isSome then type.filter (· = "array") else type := by
  cases ref <;> rfl

theorem array_or_none (type : Option String) :
    (type.filter (· = "array")).map Value.str = none ∨
      (type.filter (· = "array")).map Value.str = some (.str "array") := by
  cases type with
  | none => exact Or.inl rfl
  | some name =>
    by_cases h : name = "array"
    · exact Or.inr (by simp [Option.filter, h])
    · exact Or.inl (by simp [Option.filter, h])

end Schema

/-! ## Responses -/

namespace Response

/-- The status code of an annotation: its text before the first dash, trimmed. -/
def code (t : Tag) : String :=
  String.ofList (Text.trim (t.description.toList.takeWhile (· ≠ '-')))

/-- The text of an annotation behind the first dash, trimmed. -/
def remainder (t : Tag) : String :=
  String.ofList (Text.trim ((t.description.toList.dropWhile (· ≠ '-')).drop 1))

theorem split_eq (t : Tag) : split t.description = (code t, remainder t) := by
  rw [split, code, remainder, ← Text.fst_cutAt, ← Text.getD_snd_cutAt]

/-- The last annotation that describes the response of a status code. -/
def last? (c : String) (tags : List Tag) : Option Tag :=
  (tags.filter fun t => isResponseTag t && code t = c).getLast?

/-- What an annotation with the settings `x` and the reference `ref`, and the headers of its
status code, make of a response. -/
structure Reflects (format : String → String) (headers : Option (List (String × Header))) (t : Tag)
    (x : Extracted) (ref : Option Value) (r : Fields) : Prop where
  settings : Settings.extract (remainder t) = .ok x
  reference : TypeExpr.modelRef t.type (Assoc.get? "modelName" x.settings) = .ok ref
  keys : Assoc.keys r ⊆ ["description", "headers", "schema"]
  description : Assoc.get? "description" r = some (.str (format x.description))
  headers : Assoc.get? "headers" r = headers.map HeaderMap.codeValue
  /-- There is no schema if there is nothing to say in it. -/
  noSchema : Assoc.get? "schema" r = none ↔
    Schema.typeName? t = none ∧ Schema.items? t x = none ∧ ref = none
  schema : ∀ v, Assoc.get? "schema" r = some v → ∃ s : Fields, v = .object s ∧ s ≠ [] ∧
    Assoc.keys s ⊆ ["type", "items", "$ref"] ∧ Assoc.get? "items" s = Schema.items? t x ∧
    Assoc.get? "$ref" s = ref ∧
    (ref = none → Assoc.get? "type" s = (Schema.typeName? t).map .str)
  /-- A reference leaves no type beside it but that of a list. -/
  besideRef : ∀ s : Fields, Assoc.get? "schema" r = some (.object s) →
    (Assoc.get? "$ref" s).isSome →
      Assoc.get? "type" s = none ∨ Assoc.get? "type" s = some (.str "array")

theorem object_injective {s s' : Fields} (h : Value.object s = Value.object s') : s = s' := by
  have hentries : s.map (fun f => (Value.str f.1, f.2)) = s'.map fun f => (Value.str f.1, f.2) := by
    simpa [Value.object] using h
  refine List.map_injective_iff.mpr ?_ hentries
  rintro ⟨k, v⟩ ⟨k', v'⟩ he
  simpa using he

theorem keys_fields (r : Response) :
    Assoc.keys r.fields ⊆ ["description", "headers", "schema"] := by
  obtain ⟨description, headers, schema⟩ := r
  by_cases h : schema.fields = []
  · cases headers <;> simp [fields, h, Assoc.keys]
  · cases headers <;> simp [fields, h, Assoc.keys]

theorem get?_headers (r : Response) :
    Assoc.get? "headers" r.fields = r.headers.map HeaderMap.codeValue := by
  obtain ⟨description, headers, schema⟩ := r
  by_cases h : schema.fields = []
  · cases headers <;> simp [fields, h, Assoc.get?]
  · cases headers <;> simp [fields, h, Assoc.get?]

theorem get?_schema (r : Response) :
    Assoc.get? "schema" r.fields =
      if r.schema.fields = [] then none else some (.object r.schema.fields) := by
  obtain ⟨description, headers, schema⟩ := r
  by_cases h : schema.fields = []
  · cases headers <;> simp [fields, h, Assoc.get?]
  · cases headers <;> simp [fields, h, Assoc.get?]

/-- An annotation that can be read reflects in the response that is made of it. -/
theorem reflects_of_ofTag {format : String → String} {headers : HeaderMap} {t : Tag} {c : String}
    {r : Response} (h : ofTag format headers t = .ok (c, r)) :
    c = code t ∧ ∃ x ref, Reflects format (Assoc.get? c headers) t x ref r.fields := by
  unfold ofTag at h
  rw [split_eq] at h
  obtain ⟨x, hx, h⟩ := exists_of_bind_ok h
  obtain ⟨s, hs, h⟩ := exists_of_bind_ok h
  cases h
  have hx := AssemblyError.ofSettings_eq_ok hx
  obtain ⟨ref, href, rfl⟩ := Schema.ofTag_eq (AssemblyError.ofRef_eq_ok hs)
  have hfields := Schema.get?_fields
    (Schema.withRef ref { type := Schema.typeName? t, items := Schema.items? t x })
  rw [Schema.type_withRef, Schema.items_withRef, Schema.ref_withRef] at hfields
  have hempty : (Schema.withRef ref
      { type := Schema.typeName? t, items := Schema.items? t x }).fields = [] ↔
      Schema.typeName? t = none ∧ Schema.items? t x = none ∧ ref = none := by
    rw [Schema.fields_eq_nil_iff, Schema.items_withRef, Schema.ref_withRef, Schema.type_withRef]
    constructor
    · rintro ⟨htype, hitems, rfl⟩
      exact ⟨htype, hitems, rfl⟩
    · rintro ⟨htype, hitems, rfl⟩
      exact ⟨htype, hitems, rfl⟩
  refine ⟨rfl, x, ref, hx, href, keys_fields _, rfl, get?_headers _, ?_, ?_, ?_⟩
  · rw [get?_schema, ← hempty]
    simp
  · intro v hv
    rw [get?_schema] at hv
    split at hv
    · cases hv
    · next hne =>
      cases hv
      refine ⟨_, rfl, hne, Schema.keys_fields _, hfields.2.1, hfields.2.2, ?_⟩
      rintro rfl
      exact hfields.1
  · intro s hs hsome
    rw [get?_schema] at hs
    split at hs
    · cases hs
    · obtain rfl := object_injective (Option.some.inj hs)
      rw [hfields.2.2] at hsome
      rw [hfields.1, if_pos hsome]
      exact Schema.array_or_none _

variable {format : String → String} {policy : HeaderPolicy} {tags : List Tag} {headers : HeaderMap}
  {responses : List (String × Response)}

theorem ofTags_eq_ok
    (hh : (HeaderMap.ofTags policy tags : Report AssemblyError HeaderMap).result = .ok headers)
    (h : (ofTags format policy tags).result = .ok responses) :
    ∃ pairs, (tags.filter isResponseTag).mapM (ofTag format headers) = .ok pairs ∧
      responses = Assoc.ofEntries pairs := by
  obtain ⟨headers', hh', h⟩ := Report.result_bind_eq_ok.mp h
  obtain rfl : headers = headers' := Except.ok.inj (hh.symm.trans hh')
  obtain ⟨pairs, hpairs, h⟩ := Report.result_bind_eq_ok.mp h
  exact ⟨pairs, hpairs, (Except.ok.inj h).symm⟩

/-- Under each status code stands the response of the last annotation with that code. -/
theorem get?_ofTags
    (hh : (HeaderMap.ofTags policy tags : Report AssemblyError HeaderMap).result = .ok headers)
    (h : (ofTags format policy tags).result = .ok responses) (c : String) :
    Assoc.get? c responses = (last? c tags).bind fun t =>
      (ofTag format headers t).toOption.map Prod.snd := by
  obtain ⟨pairs, hpairs, rfl⟩ := ofTags_eq_ok hh h
  have hkey : ∀ t e, ofTag format headers t = .ok e → e.1 = code t := fun t e he =>
    (reflects_of_ofTag he).1
  have hrun : Assoc.get? c (Assoc.ofEntries pairs) = (Store.last c pairs).or none :=
    Store.entries.get?_run c pairs []
  rw [hrun, Option.or_none, Store.last_of_mapM hkey hpairs, List.filter_filter, last?]
  simp only [Bool.and_comm]

/-- The annotation that decides a response could be read. -/
theorem read_of_last?
    (hh : (HeaderMap.ofTags policy tags : Report AssemblyError HeaderMap).result = .ok headers)
    (h : (ofTags format policy tags).result = .ok responses) {c : String} {t : Tag}
    (ht : last? c tags = some t) : ∃ r, ofTag format headers t = .ok (c, r) := by
  obtain ⟨hmem, htag⟩ := List.mem_filter.mp (List.mem_of_getLast? ht)
  rw [Bool.and_eq_true, decide_eq_true_eq] at htag
  obtain ⟨pairs, hpairs, -⟩ := ofTags_eq_ok hh h
  obtain ⟨⟨c', r⟩, -, hr⟩ :=
    (exists_of_mapM_ok hpairs).1 t (List.mem_filter.mpr ⟨hmem, htag.1⟩)
  obtain rfl : c' = c := (reflects_of_ofTag hr).1.trans htag.2
  exact ⟨r, hr⟩

theorem isSome_last?_iff (c : String) (tags : List Tag) :
    (last? c tags).isSome ↔ ∃ t ∈ tags, isResponseTag t = true ∧ code t = c := by
  rw [last?, List.getLast?_isSome, ne_eq, List.filter_eq_nil_iff]
  simp

end Response

/-- **Each response is made of its own last annotation and its own headers.** If the responses of a
block can be read, there is one for each status code that an annotation names and no other. It is
what the last annotation with that code and the headers of the code make of it, and it is the same
in every block in which these are the same. -/
theorem responses_of_tags (format : String → String) (policy : HeaderPolicy) (tags : List Tag)
    {responses : List (String × Response)}
    (h : (Response.ofTags format policy tags).result = .ok responses) :
    ∃ headers,
      (HeaderMap.ofTags policy tags : Report AssemblyError HeaderMap).result = .ok headers ∧
      (Assoc.keys responses).Nodup ∧
      (∀ c, c ∈ Assoc.keys responses ↔
        ∃ t ∈ tags, Response.isResponseTag t = true ∧ Response.code t = c) ∧
      (∀ c r, Assoc.get? c responses = some r →
        ∃ t x ref, Response.last? c tags = some t ∧
          Response.Reflects format (Assoc.get? c headers) t x ref r.fields) ∧
      ∀ c tags' responses' headers',
        (Response.ofTags format policy tags').result = .ok responses' →
        (HeaderMap.ofTags policy tags' : Report AssemblyError HeaderMap).result = .ok headers' →
        Response.last? c tags' = Response.last? c tags →
        Assoc.get? c headers' = Assoc.get? c headers →
        Assoc.get? c responses' = Assoc.get? c responses := by
  obtain ⟨headers, hh⟩ := HeaderMap.exists_collect AssemblyError policy [] tags
  refine ⟨headers, hh, ?_, ?_, ?_, ?_⟩
  · obtain ⟨pairs, -, rfl⟩ := Response.ofTags_eq_ok hh h
    exact Assoc.nodup_keys_ofEntries pairs
  · intro c
    rw [← Response.isSome_last?_iff, ← Assoc.isSome_get?_iff, Response.get?_ofTags hh h]
    cases ht : Response.last? c tags with
    | none => rfl
    | some t =>
      obtain ⟨r, hr⟩ := Response.read_of_last? hh h ht
      simp [hr, Except.toOption]
  · intro c r hr
    rw [Response.get?_ofTags hh h] at hr
    obtain ⟨t, ht, hr⟩ := Option.bind_eq_some_iff.mp hr
    obtain ⟨r', hr'⟩ := Response.read_of_last? hh h ht
    obtain rfl : r' = r := by simpa [hr', Except.toOption] using hr
    obtain ⟨-, x, ref, hreflects⟩ := Response.reflects_of_ofTag hr'
    exact ⟨t, x, ref, ht, hreflects⟩
  · intro c tags' responses' headers' h' hh' hlast hheaders
    rw [Response.get?_ofTags hh h, Response.get?_ofTags hh' h', hlast]
    cases ht : Response.last? c tags with
    | none => rw [Option.bind_none, Option.bind_none]
    | some t =>
      have hcode : (Response.split t.description).1 = c := by
        have htag := (List.mem_filter.mp (List.mem_of_getLast? ht)).2
        rw [Bool.and_eq_true, decide_eq_true_eq] at htag
        rw [Response.split_eq]
        exact htag.2
      simp only [Option.bind_some, Response.ofTag, hcode, hheaders]

/-- A response that is described twice, with a header between, and one without a body. -/
def pageTags : List Tag :=
  [{ title := "returns", type := some { name := some "string" }, description := "200 - Old." },
   { title := "headers", description := "200.X-Left - integer - Requests left." },
   { title := "return", type := some { expression := some { name := some "Array" } },
     description := "200 - A page.```yaml-swagger-settings\nmodelName: Page\n```" },
   { title := "returns", type := some { name := some "void" }, description := "404" }]

theorem responses_of_pageTags :
    ∃ responses, (Response.ofTags id .stop pageTags).result = .ok responses ∧
      (∀ c, c ∈ Assoc.keys responses ↔ c = "200" ∨ c = "404") ∧
      ∃ headers, ∀ c r, Assoc.get? c responses = some r →
        ∃ t x ref, Response.last? c pageTags = some t ∧
          Response.Reflects id (Assoc.get? c headers) t x ref r.fields := by
  have hsome : (Response.ofTags id .stop pageTags).result.toOption.isSome = true := by
    decide +kernel
  cases h : (Response.ofTags id .stop pageTags).result with
  | error e => rw [h] at hsome; cases hsome
  | ok responses =>
    obtain ⟨headers, -, -, hkeys, hreflects, -⟩ := responses_of_tags id .stop pageTags h
    refine ⟨responses, rfl, fun c => ?_, headers, hreflects⟩
    have hcodes : ∀ t ∈ pageTags, Response.isResponseTag t = true →
        Response.code t = "200" ∨ Response.code t = "404" := by decide +kernel
    rw [hkeys]
    constructor
    · rintro ⟨t, ht, htag, rfl⟩
      exact hcodes t ht htag
    · rintro (rfl | rfl)
      · exact ⟨pageTags[0], by simp [pageTags], by decide +kernel, by decide +kernel⟩
      · exact ⟨pageTags[3], by simp [pageTags], by decide +kernel, by decide +kernel⟩

end AnnotatedApi
