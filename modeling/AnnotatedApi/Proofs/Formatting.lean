/-
  What the formatting of descriptions bears on. A `Draft` is what a block contributes before any
  text is formatted, with the text that each description is to be formatted from;
  `Draft.contribution` formats every one of them, once, and touches nothing else. The reading of
  a block with a format and the one without are two runs of the same steps, and each step of the
  one is the step of the other on formatted progress (`Routes.step_formatted`). So a block gives
  one draft, or one error, for all formats (`contribution_of_draft`).
-/
import AnnotatedApi.Proofs.Routes

namespace AnnotatedApi

variable {ε σ α β γ : Type}

/-- Two computations that match behind a common part, match. -/
theorem except_bind_map {x : Except ε α} {f : α → Except ε β} {g : α → Except ε γ}
    {ψ : β → γ} (h : ∀ a, g a = (f a).map ψ) : (x >>= g) = (x >>= f).map ψ := by
  cases x with
  | error e => rfl
  | ok a => exact h a

namespace Report

/-- The result of a report seen through a function; what was logged stays. -/
def map (φ : α → β) (r : Report ε α) : Report ε β := ⟨r.log, r.result.map φ⟩

theorem pure_eq_map {φ : α → β} {a : α} {b : β} (h : b = φ a) :
    (pure b : Report ε β) = (pure a : Report ε α).map φ := by
  rw [h]
  rfl

theorem ofExcept_map (φ : α → β) (x : Except ε α) : ofExcept (x.map φ) = (ofExcept x).map φ := rfl

/-- Two computations whose first parts and whose second parts match, match. -/
theorem bind_map {r : Report ε α} {φ : α → β} {f : α → Report ε γ} {g : β → Report ε σ}
    {ψ : γ → σ} (h : ∀ a, r.result = .ok a → g (φ a) = (f a).map ψ) :
    (r.map φ >>= g) = (r >>= f).map ψ := by
  show Report.bind (r.map φ) g = (Report.bind r f).map ψ
  unfold Report.bind map
  cases hr : r.result with
  | error e => rfl
  | ok a =>
    simp only [Except.map, h a hr]
    rfl

/-- The same behind a first part that both have. -/
theorem bind_map_right {r : Report ε α} {f : α → Report ε β} {g : α → Report ε γ} {ψ : β → γ}
    (h : ∀ a, g a = (f a).map ψ) : (r >>= g) = (r >>= f).map ψ := by
  have hr : r = r.map id := by
    obtain ⟨log, result⟩ := r
    cases result <;> rfl
  nth_rewrite 1 [hr]
  exact bind_map fun a _ => h a

/-- Two runs match if each of their steps does. The steps may look at what was read before. -/
theorem foldlM_map {f g : σ → α → Report ε σ} (φ : σ → σ) (P : List α → σ → Prop)
    {xs : List α}
    (hstep : ∀ pre x post s, xs = pre ++ x :: post → P pre s → g (φ s) x = (f s x).map φ)
    (hP : ∀ pre s x s', P pre s → (f s x).result = .ok s' → P (pre ++ [x]) s')
    {s : σ} (h : P [] s) : xs.foldlM g (φ s) = (xs.foldlM f s).map φ := by
  suffices ∀ pre post s, xs = pre ++ post → P pre s →
      post.foldlM g (φ s) = (post.foldlM f s).map φ from this [] xs s rfl h
  intro pre post
  induction post generalizing pre with
  | nil => exact fun s _ _ => rfl
  | cons x post ih =>
    intro s hxs hs
    rw [List.foldlM_cons, List.foldlM_cons, hstep pre x post s hxs hs]
    refine bind_map fun s' hs' => ?_
    exact ih (pre ++ [x]) s' (by simp [hxs]) (hP pre s x s' hs hs')

end Report

/-! ## Mappings through a function of their entries -/

namespace Assoc

variable {κ : Type} [DecidableEq κ]

/-- The values of a mapping, each seen through a function that its key chooses. -/
def mapEntries (f : κ → α → β) (l : List (κ × α)) : List (κ × β) := l.map fun e => (e.1, f e.1 e.2)

theorem get?_mapEntries (f : κ → α → β) (k : κ) (l : List (κ × α)) :
    get? k (mapEntries f l) = (get? k l).map (f k) := by
  induction l with
  | nil => rfl
  | cons e l ih =>
    obtain ⟨k', a⟩ := e
    simp only [mapEntries, List.map_cons, get?_cons] at ih ⊢
    rw [ih]
    by_cases h : k' = k
    · simp [h]
    · simp [h]

theorem set_mapEntries (f : κ → α → β) (k : κ) (a : α) (l : List (κ × α)) :
    set k (f k a) (mapEntries f l) = mapEntries f (set k a l) := by
  induction l with
  | nil => rfl
  | cons e l ih =>
    obtain ⟨k', b⟩ := e
    simp only [mapEntries, List.map_cons, set] at ih ⊢
    by_cases h : k' = k
    · simp [h]
    · simp [h, ih]

theorem ofEntries_mapEntries (f : κ → α → β) (m : List (κ × α)) :
    ofEntries (mapEntries f m) = mapEntries f (ofEntries m) := by
  suffices ∀ l, update (mapEntries f l) (mapEntries f m) = mapEntries f (update l m) from this []
  induction m with
  | nil => exact fun l => rfl
  | cons e m ih =>
    intro l
    have hrest := ih (set e.1 e.2 l)
    rw [← set_mapEntries] at hrest
    exact hrest

/-- The keys of entries put together depend on their keys only. -/
theorem keys_ofEntries_congr {m : List (κ × α)} {m' : List (κ × β)} (h : keys m = keys m') :
    keys (ofEntries m) = keys (ofEntries m') := by
  suffices ∀ (l : List (κ × α)) (l' : List (κ × β)), keys l = keys l' →
      keys (update l m) = keys (update l' m') from this [] [] rfl
  induction m generalizing m' with
  | nil =>
    obtain rfl : m' = [] := by simpa [keys] using h.symm
    exact fun _ _ hl => hl
  | cons e m ih =>
    cases m' with
    | nil => simp [keys] at h
    | cons e' m' =>
      obtain ⟨hk, hm⟩ : e.1 = e'.1 ∧ keys m = keys m' := by simpa [keys] using h
      intro l l' hl
      refine ih hm (set e.1 e.2 l) (set e'.1 e'.2 l') ?_
      rw [keys_set, keys_set, hl, hk]

variable {k : κ} {a : α} {l m : List (κ × α)}

theorem mem_keys_update (h : k ∈ keys l) (m : List (κ × α)) : k ∈ keys (update l m) := by
  unfold update
  induction m generalizing l with
  | nil => exact h
  | cons e m ih => exact ih (mem_keys_set.mpr (Or.inl h))

/-- What is written first and not written over might as well be written last. -/
theorem update_set (h : k ∈ keys l) (hm : k ∉ keys m) :
    update (set k a l) m = set k a (update l m) := by
  induction m generalizing l with
  | nil => rfl
  | cons e m ih =>
    obtain ⟨hne, hm⟩ : k ≠ e.1 ∧ k ∉ keys m := by simpa [keys] using hm
    unfold update at ih ⊢
    rw [List.foldl_cons, List.foldl_cons, set_comm hne a e.2 h]
    exact ih (mem_keys_set.mpr (Or.inl h)) hm

/-- What is written over might as well not be written. -/
theorem update_set_of_mem (h : k ∈ keys l) (hm : k ∈ keys m) :
    update (set k a l) m = update l m := by
  induction m generalizing l with
  | nil => simp [keys] at hm
  | cons e m ih =>
    unfold update at ih ⊢
    rw [List.foldl_cons, List.foldl_cons]
    by_cases hk : k = e.1
    · rw [← hk, set_set]
    · have hm : k ∈ keys m := by
        simp only [keys, List.map_cons, List.mem_cons] at hm
        exact hm.resolve_left hk
      rw [set_comm hk a e.2 h]
      exact ih (mem_keys_set.mpr (Or.inl h)) hm

/-- A test that lets both the old and the new entry pass. -/
theorem filter_set {p : κ × α → Bool} {b : α} (hb : get? k l = some b) (hpb : p (k, b) = true)
    (hpa : p (k, a) = true) : (set k a l).filter p = set k a (l.filter p) := by
  induction l with
  | nil => simp at hb
  | cons e l ih =>
    obtain ⟨k', c⟩ := e
    rw [get?_cons] at hb
    by_cases hk : k' = k
    · subst hk
      rw [if_pos rfl] at hb
      obtain rfl : c = b := Option.some.inj hb
      simp [set, hpa, hpb]
    · rw [if_neg hk] at hb
      by_cases hc : p (k', c) = true
      · simp [set, hk, hc, ih hb]
      · simp [set, hk, hc, ih hb]

theorem contains_iff (k : κ) (l : List (κ × α)) : contains k l = true ↔ k ∈ keys l := by
  simp [contains, keys]

theorem mem_keys_erase {k' : κ} (h : k' ≠ k) : k ∈ keys (erase k' l) ↔ k ∈ keys l := by
  rw [← isSome_get?_iff, ← isSome_get?_iff, get?_erase, if_neg h]

end Assoc

/-! ## Descriptions among the fields of parameters and properties -/

/-- The text that a description is formatted from, unless the settings give the description. -/
def Extracted.raw (e : Extracted) : Option String :=
  if "description" ∈ Assoc.keys e.settings then none else some e.description

/-- The fields with the description formatted from a text, if there is one. -/
def Fields.formatted (format : String → String) (raw : Option String) (fields : Fields) : Fields :=
  match raw with
  | none => fields
  | some text => Assoc.set "description" (.str (format text)) fields

namespace Fields

/-- A description stays formatted behind settings that are written over the fields. -/
theorem update_formatted (format : String → String) (e : Extracted) {fields settings : Fields}
    (h : "description" ∈ Assoc.keys fields)
    (hs : "description" ∈ Assoc.keys settings ↔ "description" ∈ Assoc.keys e.settings) :
    Assoc.update (Assoc.set "description" (.str (format e.description)) fields) settings =
      formatted format e.raw
        (Assoc.update (Assoc.set "description" (.str e.description) fields) settings) := by
  unfold Extracted.raw
  split
  · next hd =>
    rw [Assoc.update_set_of_mem h (hs.mpr hd), Assoc.update_set_of_mem h (hs.mpr hd)]
    rfl
  · next hd =>
    have hd' := fun hm => hd (hs.mp hm)
    rw [Assoc.update_set h hd', Assoc.update_set h hd', formatted, Assoc.set_set]

/-- A change of fields that has nothing to do with the description among them. -/
structure Spares (change : Fields → Fields) : Prop where
  mem : ∀ {fields : Fields},
    "description" ∈ Assoc.keys fields → "description" ∈ Assoc.keys (change fields)
  set : ∀ {fields : Fields}, "description" ∈ Assoc.keys fields → ∀ v,
    change (Assoc.set "description" v fields) = Assoc.set "description" v (change fields)

theorem Spares.refl : Spares fun fields => fields := ⟨fun h => h, fun _ _ => rfl⟩

theorem Spares.of_ne (key : String) (hne : "description" ≠ key) (v : Value) :
    Spares (Assoc.set key v) :=
  ⟨fun h => Assoc.mem_keys_set.mpr (Or.inl h), fun h _ => Assoc.set_comm hne _ _ h⟩

theorem Spares.comp {f g : Fields → Fields} (hg : Spares g) (hf : Spares f) :
    Spares fun fields => g (f fields) := by
  refine ⟨fun h => hg.mem (hf.mem h), fun h v => ?_⟩
  rw [hf.set h, hg.set (hf.mem h)]

theorem Spares.formatted {change : Fields → Fields} (h : Spares change) {fields : Fields}
    (hmem : "description" ∈ Assoc.keys fields) (format : String → String) (raw : Option String) :
    change (formatted format raw fields) = formatted format raw (change fields) := by
  cases raw with
  | none => rfl
  | some text => exact h.set hmem _

end Fields

namespace Parameter

/-- The text that the description of a parameter is formatted from. -/
def raw (t : Tag) : Option String :=
  match Settings.extract t.description with
  | .ok e => e.raw
  | .error _ => none

theorem spares_withType (type : String) : Fields.Spares (withType type) := by
  unfold withType
  obtain ⟨name, format⟩ := Text.cutAt '.' type.toList
  have htype := Fields.Spares.of_ne "type" (by decide) (.str (String.ofList name))
  match format with
  | none => exact htype
  | some [] => exact htype
  | some (c :: cs) => exact (Fields.Spares.of_ne "format" (by decide) _).comp htype

/-- Items are added where there are none yet. -/
theorem spares_items (items : Option Value) : Fields.Spares fun fields =>
    match items with
    | none => fields
    | some v => if Assoc.contains "items" fields then fields else Assoc.set "items" v fields := by
  cases items with
  | none => exact .refl
  | some v =>
    have hset := Fields.Spares.of_ne "items" (by decide) v
    refine ⟨fun h => ?_, fun {fields} h w => ?_⟩
    · simp only
      split
      · exact h
      · exact hset.mem h
    · have hcontains : Assoc.contains "items" (Assoc.set "description" w fields) =
          Assoc.contains "items" fields := by
        rw [Bool.eq_iff_iff, Assoc.contains_iff, Assoc.contains_iff, Assoc.keys_set, if_pos h]
      simp only [hcontains]
      split
      · rfl
      · exact hset.set h w

theorem spares_withSimpleType (type : Option TypeExpr) : Fields.Spares (withSimpleType type) := by
  unfold withSimpleType
  refine (spares_items (TypeExpr.itemSchema type)).comp ?_
  split
  · exact .refl
  · exact spares_withType _

/-- The fields with the type of a parameter, which is a schema if there is a reference. -/
def typed (type : Option TypeExpr) (ref : Option Value) (fields : Fields) : Fields :=
  match ref with
  | some target => Assoc.set "schema" (.object [("$ref", target)]) fields
  | none => withSimpleType type fields

theorem spares_typed (type : Option TypeExpr) (ref : Option Value) :
    Fields.Spares (typed type ref) := by
  cases ref with
  | none => exact spares_withSimpleType type
  | some target => exact .of_ne "schema" (by decide) _

theorem assemble_of_field {default : Value} {name : String} {field : Field}
    (hf : Field.parse default name = .ok field) (format : String → String)
    (type : Option TypeExpr) (e : Extracted) :
    assemble format default name type e =
      (e.modelRef (e.declared.or type)).map fun ref =>
        typed (e.declared.or type) ref (baseFields field (format e.description)
          (Assoc.erase "modelName" (Assoc.erase "propertyType" e.settings))) := by
  unfold assemble
  simp only [hf, pure_bind]
  cases e.modelRef (e.declared.or type) <;> rfl

theorem baseFields_formatted (format : String → String) (field : Field) (e : Extracted)
    {settings : Fields}
    (hs : "description" ∈ Assoc.keys settings ↔ "description" ∈ Assoc.keys e.settings) :
    baseFields field (format e.description) settings =
      Fields.formatted format e.raw (baseFields field e.description settings) := by
  have hmem : "description" ∈ Assoc.keys
      [("name", Value.str field.name), ("in", .str field.location), ("description", .str ""),
        ("required", .bool field.required)] := by
    simp [Assoc.keys]
  exact Fields.update_formatted format e hmem hs

theorem assemble_formatted (format : String → String) (default : Value) (name : String)
    (type : Option TypeExpr) (e : Extracted) :
    assemble format default name type e =
      (assemble id default name type e).map (Fields.formatted format e.raw) := by
  cases hf : Field.parse default name with
  | error cs =>
    unfold assemble
    rw [hf]
    rfl
  | ok field =>
    have hs : "description" ∈ Assoc.keys
        (Assoc.erase "modelName" (Assoc.erase "propertyType" e.settings)) ↔
        "description" ∈ Assoc.keys e.settings := by
      rw [Assoc.mem_keys_erase (by decide), Assoc.mem_keys_erase (by decide)]
    rw [assemble_of_field hf, assemble_of_field hf, baseFields_formatted format field e hs]
    cases e.modelRef (e.declared.or type) with
    | error err => rfl
    | ok ref =>
      refine congrArg Except.ok ((spares_typed _ ref).formatted ?_ format e.raw)
      exact Assoc.mem_keys_update (by simp [Assoc.keys]) _

theorem ofTag_formatted (format : String → String) (default : Value) (t : Tag) :
    ofTag format default t = (ofTag id default t).map (Fields.formatted format (raw t)) := by
  unfold ofTag raw
  cases Settings.extract t.description with
  | error err => rfl
  | ok e => exact assemble_formatted format default t.name t.type e

end Parameter

namespace Property

/-- The text that the description of a property is formatted from; a reference has none. -/
def raw (t : Tag) : Option String :=
  match Settings.extract t.description with
  | .ok e =>
    match e.modelRef (e.declared.or t.type) with
    | .ok none => e.raw
    | _ => none
  | .error _ => none

def formatted (format : String → String) (raw : Option String) (p : Property) : Property :=
  { p with fields := Fields.formatted format raw p.fields }

/-- The description is the second of the fields over which the settings are written. -/
theorem plainFields_eq (type : Option TypeExpr) (settings : Fields) :
    ∃ fields, "description" ∈ Assoc.keys fields ∧ ∀ text, plainFields type text settings =
      (Assoc.update (Assoc.set "description" (.str text) fields) settings).filter
        fun f => f.2 ≠ .null := by
  let name := type.elim (some "string") fun _ => TypeExpr.typeName type
  let items := ((TypeExpr.itemSchema type).or (Assoc.get? "items" settings)).filter Value.truthy
  refine ⟨("type", TypeExpr.optionValue name) :: ("description", .str "") ::
    (items.map fun v => ("items", v)).toList, by simp [Assoc.keys], fun _ => ?_⟩
  cases type <;> rfl

theorem plainFields_formatted (format : String → String) (type : Option TypeExpr) (e : Extracted)
    {settings : Fields}
    (hs : "description" ∈ Assoc.keys settings ↔ "description" ∈ Assoc.keys e.settings) :
    plainFields type (format e.description) settings =
      Fields.formatted format e.raw (plainFields type e.description settings) := by
  obtain ⟨fields, hmem, heq⟩ := plainFields_eq type settings
  rw [heq, heq, Fields.update_formatted format e hmem hs]
  unfold Extracted.raw
  split
  · rfl
  · next hd =>
    refine Assoc.filter_set (b := .str e.description) ?_ (by simp) (by simp)
    rw [Assoc.update_set hmem fun h => hd (hs.mp h), Assoc.get?_set_self]

theorem assemble_formatted (format : String → String) (name : String) (type : Option TypeExpr)
    (e : Extracted) :
    assemble format name type e = (assemble id name type e).map (formatted format
      (match e.modelRef (e.declared.or type) with
        | .ok none => e.raw
        | _ => none)) := by
  have hs : "description" ∈ Assoc.keys
      (Assoc.erase "required" (Assoc.erase "propertyType" e.settings)) ↔
      "description" ∈ Assoc.keys e.settings := by
    rw [Assoc.mem_keys_erase (by decide), Assoc.mem_keys_erase (by decide)]
  unfold assemble
  dsimp only
  rw [plainFields_formatted format _ e hs]
  generalize (markedByName name || (Assoc.get? "required" e.settings).any Value.truthy) = required
  cases e.modelRef (e.declared.or type) with
  | error err => rfl
  | ok ref => cases ref <;> rfl

theorem ofTag_formatted (format : String → String) (t : Tag) :
    ofTag format t = (ofTag id t).map (formatted format (raw t)) := by
  unfold ofTag raw
  cases Settings.extract t.description with
  | error err => rfl
  | ok e => exact assemble_formatted format t.name t.type e

end Property

/-! ## Texts by their places -/

/-- One element more, with what stands at its place. -/
theorem zipWith_concat {f : α → β → γ} {as : List α} {bs : List β} {a : α}
    (ha : as[bs.length]? = some a) (b : β) :
    List.zipWith f as (bs ++ [b]) = List.zipWith f as bs ++ [f a b] := by
  induction bs generalizing as with
  | nil =>
    cases as with
    | nil => simp at ha
    | cons a' as =>
      obtain rfl : a' = a := by simpa using ha
      simp
  | cons b' bs ih =>
    cases as with
    | nil => simp at ha
    | cons a' as =>
      have hrest : as[bs.length]? = some a := by simpa using ha
      simp [ih hrest]

theorem map_zipWith_of_length_eq {f : α → β → β} {g : β → γ} (hg : ∀ a b, g (f a b) = g b)
    {as : List α} {bs : List β} (h : bs.length = as.length) :
    (List.zipWith f as bs).map g = bs.map g := by
  induction bs generalizing as with
  | nil => simp
  | cons b bs ih =>
    cases as with
    | nil => simp at h
    | cons a as =>
      have hrest : bs.length = as.length := by simpa using h
      simp [hg, ih hrest]

theorem length_of_mapM_eq_ok {f : α → Except ε β} {as : List α} {bs : List β}
    (h : as.mapM f = .ok bs) : bs.length = as.length := by
  induction as generalizing bs with
  | nil =>
    obtain rfl : [] = bs := Except.ok.inj h
    rfl
  | cons a as ih =>
    obtain ⟨b, rest, -, hrest, rfl⟩ := exists_of_mapM_cons_ok h
    rw [List.length_cons, List.length_cons, ih hrest]

theorem mapM_zipWith {f : σ → β → γ} {raw : α → σ} {g : α → Except ε γ} {h : α → Except ε β}
    (hg : ∀ a, g a = (h a).map (f (raw a))) (as : List α) :
    as.mapM g = (as.mapM h).map (List.zipWith f (as.map raw)) := by
  induction as with
  | nil => rfl
  | cons a as ih =>
    rw [List.mapM_cons, List.mapM_cons, ih, hg]
    cases h a with
    | error e => rfl
    | ok b => cases as.mapM h <;> rfl

theorem mapM_map_ok {φ : β → γ} {g : α → Except ε γ} {h : α → Except ε β}
    (hg : ∀ a, g a = (h a).map φ) (as : List α) : as.mapM g = (as.mapM h).map (List.map φ) := by
  induction as with
  | nil => rfl
  | cons a as ih =>
    rw [List.mapM_cons, List.mapM_cons, ih, hg]
    cases h a with
    | error e => rfl
    | ok b => cases as.mapM h <;> rfl

/-! ## Responses, details and operations -/

namespace Response

def formatted (format : String → String) (r : Response) : Response :=
  { r with description := format r.description }

theorem ofTag_formatted (format : String → String) (headers : HeaderMap) (t : Tag) :
    ofTag format headers t =
      (ofTag id headers t).map fun e => (e.1, e.2.formatted format) := by
  refine except_bind_map fun e => ?_
  exact except_bind_map fun schema => rfl

theorem ofTags_formatted (format : String → String) (policy : HeaderPolicy) (tags : List Tag) :
    ofTags format policy tags =
      (ofTags id policy tags).map (Assoc.mapEntries fun _ => formatted format) := by
  have hpairs : ∀ headers, (tags.filter isResponseTag).mapM (ofTag format headers) =
      ((tags.filter isResponseTag).mapM (ofTag id headers)).map
        (Assoc.mapEntries fun _ => formatted format) :=
    fun headers => mapM_map_ok (ofTag_formatted format headers) _
  refine Report.bind_map_right fun headers => ?_
  rw [hpairs, Report.ofExcept_map]
  refine Report.bind_map fun pairs _ => ?_
  exact Report.pure_eq_map (Assoc.ofEntries_mapEntries _ pairs)

end Response

namespace Detail

/-- The value of a detail with its text formatted, if it is a summary; a summary is a text. -/
def formatted (format : String → String) (d : Detail) (v : Value) : Value :=
  match d, v with
  | .summary, .str text => .str (format text)
  | .summary, _ => .str (format "")
  | _, v => v

theorem value_formatted (format : String → String) (text : String) (d : Detail) :
    d.value format text = (d.value id text).map (d.formatted format) := by
  cases d with
  | security =>
    exact Report.bind_map_right fun requirements => rfl
  | operationId | summary | produces | consumes => rfl

end Detail

/-- An operation with its texts formatted; the parameters are formatted from `raws`. -/
def Operation.formatted (format : String → String) (raws : List (Option String)) (o : Operation) :
    Operation :=
  { o with
    parameters := List.zipWith (Fields.formatted format) raws o.parameters
    description := format o.description
    responses := Assoc.mapEntries (fun _ => Response.formatted format) o.responses
    details := Assoc.mapEntries (Detail.formatted format) o.details }

namespace PathMap

variable (φ : Operation → Operation)

/-- Each operation seen through a function. -/
def mapOperations (paths : PathMap) : PathMap :=
  Assoc.mapEntries (fun _ => Assoc.mapEntries fun _ => φ) paths

theorem get?_mapOperations (r : Route) (paths : PathMap) :
    (paths.mapOperations φ).get? r = (paths.get? r).map φ := by
  unfold get? mapOperations
  rw [Assoc.get?_mapEntries]
  cases Assoc.get? r.uri paths with
  | none => rfl
  | some item => exact Assoc.get?_mapEntries (fun _ => φ) r.method item

theorem set_mapOperations (r : Route) (o : Operation) (paths : PathMap) :
    (paths.mapOperations φ).set r (φ o) = (paths.set r o).mapOperations φ := by
  have hitem : (Assoc.get? r.uri (paths.mapOperations φ)).getD [] =
      Assoc.mapEntries (fun _ => φ) ((Assoc.get? r.uri paths).getD []) := by
    unfold mapOperations
    rw [Assoc.get?_mapEntries]
    cases Assoc.get? r.uri paths <;> rfl
  unfold set
  rw [hitem, Assoc.set_mapEntries (fun _ => φ)]
  exact Assoc.set_mapEntries (fun _ => Assoc.mapEntries fun _ => φ) r.uri _ paths

variable {φ}

theorem modify_mapOperations {f g : Operation → Operation} (h : ∀ o, g (φ o) = φ (f o))
    (r : Route) (paths : PathMap) :
    (paths.mapOperations φ).modify r g = (paths.modify r f).mapOperations φ := by
  unfold modify
  rw [get?_mapOperations]
  cases paths.get? r with
  | none => rfl
  | some o =>
    simp only [Option.map_some, h]
    exact set_mapOperations φ r (f o) paths

end PathMap

namespace Routes

/-- Operations and groups with their texts formatted. -/
def formatted (format : String → String) (raws : List (Option String)) (r : Routes) : Routes :=
  { paths := r.paths.mapOperations (Operation.formatted format raws)
    groups := r.groups.map fun g => ⟨g.name, format g.description⟩ }

def Progress.formatted (format : String → String) (raws : List (Option String)) (p : Progress) :
    Progress :=
  { routes := p.routes.formatted format raws
    parameters := List.zipWith (Fields.formatted format) raws p.parameters
    current := p.current }

variable (opts : RouteOptions) (block : CommentBlock) (raws : List (Option String))

theorem registered_formatted (format : String → String) (description : String)
    (groups : List Group) (old : Option Operation) :
    registered (format description) groups (old.map (Operation.formatted format raws)) =
      (registered description groups old).formatted format raws := by
  cases old <;> simp [registered, Operation.formatted, Assoc.mapEntries]

theorem register_formatted (route : Route) (r : Routes) :
    register opts block route (r.formatted opts.format raws) =
      (register { opts with format := id } block route r).map (formatted opts.format raws) := by
  refine Report.bind_map_right fun _ => Report.pure_eq_map ?_
  simp only [formatted, PathMap.get?_mapOperations, registered_formatted,
    PathMap.set_mapOperations, List.map_append, List.map_map]
  rfl

theorem read_formatted (p : Progress) (t : Tag)
    (ht : t.isParam = true → raws[p.parameters.length]? = some (Parameter.raw t)) :
    read opts block (p.formatted opts.format raws) t =
      (read { opts with format := id } block p t).map (Progress.formatted opts.format raws) := by
  unfold read
  by_cases hroute : t.title = "route"
  · rw [if_pos hroute, if_pos hroute]
    dsimp only
    rw [show (p.formatted opts.format raws).routes = p.routes.formatted opts.format raws from rfl,
      register_formatted]
    exact Report.bind_map fun r _ => rfl
  rw [if_neg hroute, if_neg hroute]
  by_cases hparam : t.title = "param"
  · rw [if_pos hparam, if_pos hparam, Parameter.ofTag_formatted, Report.ofExcept_map]
    refine Report.bind_map fun fields _ => Report.pure_eq_map ?_
    simp only [Progress.formatted, zipWith_concat (ht (by simpa [Tag.isParam] using hparam))]
  rw [if_neg hparam, if_neg hparam]
  have hcurrent : (p.formatted opts.format raws).current = p.current := rfl
  rw [hcurrent]
  cases p.current with
  | none => rfl
  | some r =>
    cases Detail.ofTitle? t.title with
    | none => rfl
    | some d =>
      dsimp only
      rw [Detail.value_formatted]
      refine Report.bind_map fun v _ => Report.pure_eq_map ?_
      have hpaths := PathMap.modify_mapOperations (φ := Operation.formatted opts.format raws)
        (f := fun o => { o with details := Assoc.set d v o.details })
        (g := fun o => { o with details := Assoc.set d (d.formatted opts.format v) o.details })
        (fun o => by simp only [Operation.formatted, Assoc.set_mapEntries]) r p.routes.paths
      simp only [Progress.formatted, formatted, hpaths]

theorem refresh_formatted (p : Progress) :
    refresh opts block (p.formatted opts.format raws) =
      (refresh { opts with format := id } block p).map (Progress.formatted opts.format raws) := by
  unfold refresh
  have hcurrent : (p.formatted opts.format raws).current = p.current := rfl
  rw [hcurrent]
  cases p.current with
  | none => rfl
  | some r =>
    dsimp only
    rw [Response.ofTags_formatted]
    refine Report.bind_map fun rs _ => Report.pure_eq_map ?_
    have hpaths := PathMap.modify_mapOperations (φ := Operation.formatted opts.format raws)
      (f := fun o => { o with parameters := p.parameters, responses := rs })
      (g := fun o => { o with
        parameters := List.zipWith (Fields.formatted opts.format) raws p.parameters
        responses := Assoc.mapEntries (fun _ => Response.formatted opts.format) rs })
      (fun _ => rfl) r p.routes.paths
    simp only [Progress.formatted, formatted, hpaths]

theorem step_formatted (p : Progress) (t : Tag)
    (ht : t.isParam = true → raws[p.parameters.length]? = some (Parameter.raw t)) :
    step opts block (p.formatted opts.format raws) t =
      (step { opts with format := id } block p t).map (Progress.formatted opts.format raws) := by
  unfold step
  rw [read_formatted opts block raws p t ht]
  exact Report.bind_map fun q _ => refresh_formatted opts block raws q

/-- The text for each `param` of a block. -/
def parameterRaws (tags : List Tag) : List (Option String) :=
  (tags.filter Tag.isParam).map Parameter.raw

theorem getElem?_parameterRaws {pre post : List Tag} {t : Tag} (ht : t.isParam = true) :
    (parameterRaws (pre ++ t :: post))[(pre.filter Tag.isParam).length]? =
      some (Parameter.raw t) := by
  simp [parameterRaws, List.filter_append, ht]

theorem ofBlock_formatted :
    ofBlock opts block = (ofBlock { opts with format := id } block).map
      (formatted opts.format (parameterRaws block.tags)) := by
  have hrun : block.tags.foldlM (step opts block) {} =
      (block.tags.foldlM (step { opts with format := id } block) {}).map
        (Progress.formatted opts.format (parameterRaws block.tags)) := by
    have hstart : {} = Progress.formatted opts.format (parameterRaws block.tags) {} := by
      simp [Progress.formatted, formatted, PathMap.mapOperations, Assoc.mapEntries]
    nth_rewrite 1 [hstart]
    refine Report.foldlM_map (Progress.formatted opts.format (parameterRaws block.tags))
      (fun pre p => Reads { opts with format := id } block pre none p) ?_
      (fun _ _ _ _ h hq => h.step hq) Reads.start
    intro pre t post p htags hp
    refine step_formatted opts block _ p t fun ht => ?_
    rw [length_of_mapM_eq_ok hp.parameters, htags]
    exact getElem?_parameterRaws ht
  unfold ofBlock
  rw [hrun]
  exact Report.bind_map fun p _ => rfl

end Routes

namespace Model

/-- The text for each `property` of a block, in which the first annotation does not count. -/
def propertyRaws (tags : List Tag) : List (Option String) :=
  (tags.tail.filter fun t => t.title = "property").map Property.raw

/-- A model with the descriptions of its properties formatted from `raws`. -/
def formatted (format : String → String) (raws : List (Option String)) (m : Model) : Model :=
  { m with properties := List.zipWith (Property.formatted format) raws m.properties }

/-- Formatting is nothing to the names of properties. -/
theorem length_propertyMap_formatted (format : String → String) {raws : List (Option String)}
    {m : Model} (h : m.properties.length = raws.length) :
    (m.formatted format raws).propertyMap.length = m.propertyMap.length := by
  have hkeys : Assoc.keys (m.formatted format raws).propertyMap = Assoc.keys m.propertyMap := by
    refine Assoc.keys_ofEntries_congr ?_
    simp only [Assoc.keys, formatted, List.map_map]
    exact map_zipWith_of_length_eq (f := Property.formatted format) (fun _ _ => rfl) h
  simpa [Assoc.keys] using congrArg List.length hkeys

theorem ofTags_formatted (format : String → String) (tags : List Tag) :
    ofTags format tags = (ofTags id tags).map (formatted format (propertyRaws tags)) := by
  cases tags with
  | nil => rfl
  | cons head rest =>
    have hproperties := mapM_zipWith (Property.ofTag_formatted format)
      (rest.filter fun t => t.title = "property")
    rw [ofTags, ofTags, hproperties, Report.ofExcept_map]
    refine Report.bind_map fun properties hok => ?_
    have hlength : properties.length = (propertyRaws (head :: rest)).length := by
      rw [length_of_mapM_eq_ok hok]
      simp [propertyRaws]
    have hmap := length_propertyMap_formatted format
      (m := ⟨head.name, (head.type.bind (·.name)).filter (· ≠ ""), properties⟩) hlength
    dsimp only [formatted, propertyRaws, List.tail_cons] at hmap ⊢
    rw [hmap]
    exact Report.bind_map_right fun _ => rfl

end Model

/-! ## Contributions -/

/-- What a block contributes, before any text is formatted. -/
inductive Draft where
  | routes (routes : Routes)
  | model (model : Model)

/-- The contribution of a draft with every text formatted: the descriptions and the summary of
each operation, the descriptions of responses and groups, and those of the parameters and
properties for which the block has a text. -/
def Draft.contribution (format : String → String) (block : CommentBlock) : Draft → Contribution
  | .routes r => .ofRoutes (r.formatted format (Routes.parameterRaws block.tags))
  | .model m => .ofModel (m.formatted format (Model.propertyRaws block.tags))

/-- **Formatting bears on descriptions only, and on each of them once.** What a block logs, and
the draft or the error that it comes to, are the same for all formats; its contribution is the
draft with each text formatted. -/
theorem contribution_of_draft (location : Value) (policy : HeaderPolicy) (block : CommentBlock) :
    ∃ (log : List LogEntry) (outcome : Except AssemblyError (Option Draft)),
      ∀ format : String → String,
        Contribution.ofBlock ⟨format, location, policy⟩ block =
          ⟨log, outcome.map (Option.map (Draft.contribution format block))⟩ := by
  suffices ∃ draft : Report AssemblyError (Option Draft), ∀ format : String → String,
      Contribution.ofBlock ⟨format, location, policy⟩ block =
        draft.map (Option.map (Draft.contribution format block)) from
    this.elim fun draft h => ⟨draft.log, draft.result, h⟩
  by_cases hmodel : block.isModel = true
  · refine ⟨do return some (.model (← Model.ofTags id block.tags)), fun format => ?_⟩
    rw [Contribution.ofBlock, if_pos hmodel, Model.ofTags_formatted]
    exact Report.bind_map fun m _ => Report.pure_eq_map rfl
  by_cases hroute : block.isRoute = true
  · refine ⟨do return some (.routes (← Routes.ofBlock ⟨id, location, policy⟩ block)),
      fun format => ?_⟩
    rw [Contribution.ofBlock, if_neg hmodel, if_pos hroute, Routes.ofBlock_formatted]
    exact Report.bind_map fun r _ => Report.pure_eq_map rfl
  · refine ⟨do
      Report.say .debug .contributions
        "Skipping comment block without route or swagger model tags"
      return none, fun format => ?_⟩
    rw [Contribution.ofBlock, if_neg hmodel, if_neg hroute]
    rfl

end AnnotatedApi
