/-
  When a route block is refused, and with which error. Every annotation has an error of its own or
  none: a parameter (`Parameter.failure?`), a response (`Response.failure?`) or security
  requirements (`Security.failure?`). The reading of a block ends with the error that comes first in
  the order in which it looks at them (`Routes.failure?`): the parameters in front of the first
  `route`, then, at this `route`, all responses of the block, and then the parameters and the
  security requirements behind it. Responses are read again after every annotation, but what could
  be read once is read the same each time (`Routes.endsAs_later`). No other annotation is ever
  refused.

  `failure_of_block` is the statement. A response can fail although its settings can be read: they
  may name a model by an integer that is too long to be written (`failure_of_hugeBlock`).
-/
import AnnotatedApi.Proofs.Excision
import AnnotatedApi.Proofs.Responses
import AnnotatedApi.Proofs.Yaml.Hexadecimal

namespace AnnotatedApi

/-! ## The errors of single annotations -/

theorem TypeExpr.errorOf?_settingTarget (model : Value) :
    errorOf? (settingTarget model) = if model.spellable then none else some .unwritable := by
  unfold settingTarget
  split
  · simp [Value.spellable, errorOf?]
  · split <;> rfl

namespace Extracted

/-- Whether the settings name a model by a value that cannot be written out. -/
def namesUnwritable (x : Extracted) : Bool :=
  (Assoc.get? "modelName" x.settings).any fun v => v.truthy && !v.spellable

theorem errorOf?_reference (x : Extracted) (type : Option TypeExpr) :
    errorOf? (AssemblyError.ofRef (TypeExpr.modelRef type (Assoc.get? "modelName" x.settings))) =
      if x.namesUnwritable then some .unwritableModel else none := by
  unfold namesUnwritable TypeExpr.modelRef
  cases Assoc.get? "modelName" x.settings with
  | none => rfl
  | some v =>
    cases hv : v.truthy with
    | false => simp [Option.filter, hv]; rfl
    | true =>
      have htarget := TypeExpr.errorOf?_settingTarget v
      simp only [Option.filter, hv, if_true, Option.any_some, Bool.true_and]
      cases hs : v.spellable with
      | false =>
        simp only [hs, Bool.false_eq_true, if_false, errorOf?_eq_some_iff] at htarget
        rw [htarget]
        rfl
      | true =>
        cases ht : TypeExpr.settingTarget v with
        | error e => simp [ht, hs, errorOf?] at htarget
        | ok t => rfl

end Extracted

/-- The error of an annotation as a parameter. -/
def Parameter.failure? (opts : RouteOptions) (t : Tag) : Option AssemblyError :=
  if t.isParam then errorOf? (ofTag opts.format opts.defaultLocation t) else none

/-- The error of an annotation as a response. -/
def Response.failure? (t : Tag) : Option AssemblyError :=
  if isResponseTag t then
    match Settings.extract (remainder t) with
    | .error e => some (.settings e)
    | .ok x => if x.namesUnwritable then some .unwritableModel else none
  else none

/-- The error of an annotation as security requirements. -/
def Security.failure? (t : Tag) : Option AssemblyError :=
  if t.title = "security" then
    (errorOf? (parse t.description).result).map fun _ => AssemblyError.securityTooLong
  else none

theorem Parameter.isSome_failure?_iff {opts : RouteOptions} {t : Tag} :
    (failure? opts t).isSome ↔
      t.isParam = true ∧ ∃ e, ofTag opts.format opts.defaultLocation t = .error e := by
  unfold failure?
  cases t.isParam with
  | false => simp
  | true => simp [isSome_errorOf?_iff]

theorem Response.isSome_failure?_iff {t : Tag} :
    (failure? t).isSome ↔
      isResponseTag t = true ∧
        ((∃ e, Settings.extract (remainder t) = .error e) ∨
          ∃ x, Settings.extract (remainder t) = .ok x ∧ x.namesUnwritable = true) := by
  unfold failure?
  cases isResponseTag t with
  | false => simp
  | true => cases Settings.extract (remainder t) <;> simp

theorem Security.isSome_failure?_iff {t : Tag} :
    (failure? t).isSome ↔
      t.title = "security" ∧ ∃ e, (parse t.description).result = .error e := by
  unfold failure?
  by_cases h : t.title = "security" <;> simp [h, isSome_errorOf?_iff]

theorem Schema.errorOf?_ofTag (type : Option TypeExpr) (x : Extracted) :
    errorOf? (AssemblyError.ofRef (ofTag type x.settings)) =
      if x.namesUnwritable then some .unwritableModel else none := by
  rw [← x.errorOf?_reference type]
  unfold ofTag
  cases TypeExpr.modelRef type (Assoc.get? "modelName" x.settings) <;> rfl

theorem Response.errorOf?_ofTag (format : String → String) (headers : HeaderMap) {t : Tag}
    (ht : isResponseTag t = true) :
    errorOf? (ofTag format headers t) = failure? t := by
  unfold ofTag failure?
  rw [if_pos ht, split_eq]
  dsimp only
  cases Settings.extract (remainder t) with
  | error e => rfl
  | ok x =>
    have hschema := Schema.errorOf?_ofTag t.type x
    dsimp only [AssemblyError.ofSettings]
    rw [ok_bind, ← hschema]
    cases AssemblyError.ofRef (Schema.ofTag t.type x.settings) <;> rfl

/-- The responses of a block fail with the first of them that does. -/
theorem Response.endsAs_ofTags (format : String → String) (policy : HeaderPolicy)
    (tags : List Tag) :
    EndsAs (fun _ => True) (tags.findSome? failure?) (ofTags format policy tags).result := by
  obtain ⟨headers, hheaders⟩ := HeaderMap.exists_collect AssemblyError policy [] tags
  have hpairs : EndsAs (fun _ => True) (tags.findSome? failure?)
      ((tags.filter isResponseTag).mapM (ofTag format headers)) := by
    have hother : ∀ t, isResponseTag t = false → failure? t = none := by
      intro t ht
      rw [failure?, ht]
      rfl
    rw [← findSome?_filter hother]
    exact endsAs_mapM fun t ht => errorOf?_ofTag format headers (List.mem_filter.mp ht).2
  unfold ofTags HeaderMap.ofTags
  rw [Report.result_bind, hheaders]
  show EndsAs _ _ (Report.result _)
  rw [Report.result_bind]
  exact hpairs.bind_ok fun pairs _ => ⟨_, rfl, trivial⟩

/-- Of the details only security requirements can fail. -/
theorem Detail.endsAs_value (format : String → String) {d : Detail} {t : Tag}
    (hd : d.name = t.title) :
    EndsAs (fun _ => True) (Security.failure? t) (d.value format t.description).result := by
  unfold Security.failure?
  rw [← hd]
  cases d with
  | security =>
    rw [if_pos (show name .security = "security" from rfl)]
    unfold value Report.mapError
    rw [Report.result_bind]
    dsimp only
    cases (Security.parse t.description).result with
    | ok vs => exact .ok trivial
    | error e => exact .error
  | operationId | summary | produces | consumes => exact .ok trivial

/-! ## Runs of annotations -/

namespace Routes

variable {opts : RouteOptions} {block : CommentBlock} {p : Progress} {t : Tag} {ts : List Tag}

/-- The annotations in front of the first `route`. -/
def beforeRoute (ts : List Tag) : List Tag := ts.takeWhile fun t => !t.isRoute

/-- The annotations behind the first `route`. -/
def afterRoute (ts : List Tag) : List Tag := (ts.dropWhile fun t => !t.isRoute).drop 1

/-- The error of an annotation behind a `route`. -/
def laterFailure? (opts : RouteOptions) (t : Tag) : Option AssemblyError :=
  (Parameter.failure? opts t).or (Security.failure? t)

/-- The first error of a block, in the order in which its annotations are looked at. -/
def failure? (opts : RouteOptions) (block : CommentBlock) : Option AssemblyError :=
  ((beforeRoute block.tags).findSome? (Parameter.failure? opts)).or
    (if block.isRoute then
      (block.tags.findSome? Response.failure?).or
        ((afterRoute block.tags).findSome? (laterFailure? opts))
    else none)

theorem parameterFailure?_of_not (ht : t.isParam = false) : Parameter.failure? opts t = none := by
  rw [Parameter.failure?, ht]
  rfl

theorem securityFailure?_of_isParam (ht : t.isParam = true) : Security.failure? t = none := by
  have h : t.title = "param" := by simpa [Tag.isParam] using ht
  rw [Security.failure?, if_neg (by rw [h]; decide)]

theorem endsAs_read_param (ht : t.isParam = true) (p : Progress) :
    EndsAs (fun q => q.current = p.current) (Parameter.failure? opts t)
      (read opts block p t).result := by
  have h : t.title = "param" := by simpa [Tag.isParam] using ht
  have hr : t.title ≠ "route" := by simp [h]
  unfold read Parameter.failure?
  rw [if_neg hr, if_pos h, if_pos ht, Report.result_bind]
  exact (endsAs_errorOf? _).bind_ok fun fields _ => ⟨_, rfl, rfl⟩

theorem endsAs_read_detail {d : Detail} {r : Route} (hd : d.name = t.title)
    (hc : p.current = some r) :
    EndsAs (fun q => q.current = p.current) (Security.failure? t) (read opts block p t).result := by
  have h₁ : t.title ≠ "route" := by
    rw [← hd]
    cases d <;> decide
  have h₂ : t.title ≠ "param" := by
    rw [← hd]
    cases d <;> decide
  unfold read
  rw [if_neg h₁, if_neg h₂, hc, Detail.ofTitle?_eq_some.mpr hd]
  dsimp only
  rw [Report.result_bind]
  exact (Detail.endsAs_value opts.format hd).bind_ok fun v _ => ⟨_, rfl, rfl⟩

/-- In front of the first `route` only parameters can fail. -/
theorem endsAs_step_before (ht : t.isRoute = false) (hc : p.current = none) :
    EndsAs (fun q => q.current = none) (Parameter.failure? opts t)
      (step opts block p t).result := by
  have hread : EndsAs (fun q => q.current = none) (Parameter.failure? opts t)
      (read opts block p t).result := by
    cases hp : t.isParam with
    | true => exact (endsAs_read_param hp p).mono fun q hq => hq.trans hc
    | false =>
      rw [parameterFailure?_of_not hp, result_read_other ht hp (Or.inl hc)]
      exact .ok hc
  rw [step, Report.result_bind]
  exact hread.bind_ok fun q hq => ⟨q, (refresh_eq_ok_of_none hq).mpr rfl, hq⟩

/-- At the first `route` the responses are read, all of them. -/
theorem endsAs_step_route (ht : t.isRoute = true) (p : Progress) :
    EndsAs (fun q => q.current.isSome ∧
        ∃ rs, (Response.ofTags opts.format opts.headerPolicy block.tags).result = .ok rs)
      (block.tags.findSome? Response.failure?) (step opts block p t).result := by
  rw [step, Report.result_bind, result_read_route ht]
  show EndsAs _ _ (refresh opts block _).result
  unfold refresh
  dsimp only
  rw [Report.result_bind]
  rw [← (Response.endsAs_ofTags opts.format opts.headerPolicy block.tags).errorOf?_eq]
  exact (endsAs_errorOf? _).bind_ok fun rs hrs => ⟨_, rfl, rfl, rs, hrs⟩

/-- Behind a `route` parameters and security requirements can fail. The responses are read once
more, but they have been read before. -/
theorem endsAs_step_later {rs : List (String × Response)}
    (hrs : (Response.ofTags opts.format opts.headerPolicy block.tags).result = .ok rs)
    (hc : p.current.isSome) :
    EndsAs (fun q => q.current.isSome) (laterFailure? opts t) (step opts block p t).result := by
  obtain ⟨r, hr⟩ := Option.isSome_iff_exists.mp hc
  have hread : EndsAs (fun q => q.current.isSome) (laterFailure? opts t)
      (read opts block p t).result := by
    unfold laterFailure?
    cases hp : t.isParam with
    | true =>
      rw [securityFailure?_of_isParam hp, Option.or_none]
      exact (endsAs_read_param hp p).mono fun q hq => hq ▸ hc
    | false =>
      rw [parameterFailure?_of_not hp, Option.none_or]
      by_cases hd : ∃ d : Detail, d.name = t.title
      · obtain ⟨d, hd⟩ := hd
        exact (endsAs_read_detail hd hr).mono fun q hq => hq ▸ hc
      · rw [not_exists] at hd
        rw [Security.failure?, if_neg fun h => hd .security h.symm]
        cases ht : t.isRoute with
        | true =>
          rw [result_read_route ht]
          exact .ok rfl
        | false =>
          rw [result_read_other ht hp (Or.inr hd)]
          exact .ok hc
  rw [step, Report.result_bind]
  refine hread.bind_ok fun q hq => ?_
  obtain ⟨r', hr'⟩ := Option.isSome_iff_exists.mp hq
  exact ⟨_, (refresh_eq_ok_of_some hr').mpr ⟨rs, hrs, rfl⟩, hq⟩

theorem endsAs_before (hts : ∀ t ∈ ts, t.isRoute = false) (hc : p.current = none) :
    EndsAs (fun q => q.current = none) (ts.findSome? (Parameter.failure? opts))
      (ts.foldlM (fun p t => (step opts block p t).result) p) :=
  endsAs_foldlM (fun _ t ht hc => endsAs_step_before (hts t ht) hc) hc

theorem endsAs_later {rs : List (String × Response)}
    (hrs : (Response.ofTags opts.format opts.headerPolicy block.tags).result = .ok rs)
    (ts : List Tag) (hc : p.current.isSome) :
    EndsAs (fun q => q.current.isSome) (ts.findSome? (laterFailure? opts))
      (ts.foldlM (fun p t => (step opts block p t).result) p) :=
  endsAs_foldlM (fun _ _ _ hc => endsAs_step_later hrs hc) hc

theorem beforeRoute_not_isRoute (ts : List Tag) : ∀ t ∈ beforeRoute ts, t.isRoute = false := by
  intro t ht
  simpa using List.mem_takeWhile_imp ht

theorem beforeRoute_eq_self (h : ts.any Tag.isRoute = false) : beforeRoute ts = ts :=
  List.takeWhile_eq_self_iff.mpr fun t ht => by
    simpa using List.any_eq_false.mp h t ht

/-- A block with a `route` is what stands in front of the first one, this one, and the rest. -/
theorem eq_beforeRoute_append (h : ts.any Tag.isRoute = true) :
    ∃ route, route.isRoute = true ∧ ts = beforeRoute ts ++ route :: afterRoute ts := by
  have hsplit : beforeRoute ts ++ ts.dropWhile (fun t => !t.isRoute) = ts :=
    List.takeWhile_append_dropWhile
  cases hrest : ts.dropWhile (fun t => !t.isRoute) with
  | nil =>
    obtain ⟨t, ht, hroute⟩ := List.any_eq_true.mp h
    rw [hrest, List.append_nil] at hsplit
    have hno := beforeRoute_not_isRoute ts t (hsplit.symm ▸ ht)
    rw [hno] at hroute
    cases hroute
  | cons route rest =>
    have hhead := List.head?_dropWhile_not (fun t : Tag => !t.isRoute) ts
    rw [hrest] at hhead
    refine ⟨route, by simpa using hhead, ?_⟩
    rw [afterRoute, hrest, List.drop_one, List.tail_cons, ← hrest]
    exact hsplit.symm

theorem endsAs_ofBlock (opts : RouteOptions) (block : CommentBlock) :
    EndsAs (fun _ => True) (failure? opts block) (ofBlock opts block).result := by
  have hrun : EndsAs (fun _ => True) (failure? opts block)
      (block.tags.foldlM (fun p t => (step opts block p t).result) {}) := by
    cases hroute : block.isRoute with
    | false =>
      have hno : ∀ t ∈ block.tags, t.isRoute = false := by
        intro t ht
        simpa [Tag.isRoute] using List.any_eq_false.mp hroute t ht
      rw [failure?, hroute, if_neg (by decide), Option.or_none, beforeRoute_eq_self hroute]
      exact (endsAs_before hno rfl).mono fun _ _ => trivial
    | true =>
      obtain ⟨route, ht, hsplit⟩ := eq_beforeRoute_append hroute
      rw [failure?, hroute, if_pos rfl]
      conv in block.tags.foldlM _ _ => rw [hsplit]
      rw [List.foldlM_append]
      refine (endsAs_before (beforeRoute_not_isRoute block.tags) rfl).bind fun p _ => ?_
      rw [List.foldlM_cons]
      refine (endsAs_step_route ht p).bind fun q hq => ?_
      obtain ⟨hc, rs, hrs⟩ := hq
      exact (endsAs_later hrs _ hc).mono fun _ _ => trivial
  unfold ofBlock
  rw [Report.result_bind, Report.result_foldlM]
  exact hrun.bind_ok fun p _ => ⟨p.routes, rfl, trivial⟩

/-- A parameter stands in front of the first `route` or behind it. -/
theorem mem_iff_of_isParam (ht : t.isParam = true) :
    t ∈ ts ↔ t ∈ beforeRoute ts ∨ ts.any Tag.isRoute = true ∧ t ∈ afterRoute ts := by
  cases h : ts.any Tag.isRoute with
  | false => simp [beforeRoute_eq_self h]
  | true =>
    obtain ⟨route, hroute, hsplit⟩ := eq_beforeRoute_append h
    have hne : t ≠ route := by
      rintro rfl
      rw [isParam_of_isRoute hroute] at ht
      cases ht
    conv_lhs => rw [hsplit]
    simp [hne]

/-- A block is refused for a parameter, wherever it stands, or for what a `route` lets be read. -/
theorem isSome_failure?_iff :
    (failure? opts block).isSome ↔
      (∃ t ∈ block.tags, (Parameter.failure? opts t).isSome) ∨
      block.isRoute = true ∧
        ((∃ t ∈ block.tags, (Response.failure? t).isSome) ∨
          ∃ t ∈ afterRoute block.tags, (Security.failure? t).isSome) := by
  have hparam : (∃ t ∈ block.tags, (Parameter.failure? opts t).isSome) ↔
      (∃ t ∈ beforeRoute block.tags, (Parameter.failure? opts t).isSome) ∨
        block.isRoute = true ∧
          ∃ t ∈ afterRoute block.tags, (Parameter.failure? opts t).isSome := by
    have hmem : ∀ t, (Parameter.failure? opts t).isSome → (t ∈ block.tags ↔
        t ∈ beforeRoute block.tags ∨ block.isRoute = true ∧ t ∈ afterRoute block.tags) :=
      fun t ht => mem_iff_of_isParam (Parameter.isSome_failure?_iff.mp ht).1
    constructor
    · rintro ⟨t, ht, hfails⟩
      rcases (hmem t hfails).mp ht with ht | ⟨hroute, ht⟩
      · exact Or.inl ⟨t, ht, hfails⟩
      · exact Or.inr ⟨hroute, t, ht, hfails⟩
    · rintro (⟨t, ht, hfails⟩ | ⟨hroute, t, ht, hfails⟩)
      · exact ⟨t, (hmem t hfails).mpr (Or.inl ht), hfails⟩
      · exact ⟨t, (hmem t hfails).mpr (Or.inr ⟨hroute, ht⟩), hfails⟩
  have hlater : ∀ t, (laterFailure? opts t).isSome ↔
      (Parameter.failure? opts t).isSome ∨ (Security.failure? t).isSome := fun t => by
    rw [laterFailure?, Option.isSome_or, Bool.or_eq_true]
  rw [hparam, failure?, Option.isSome_or, Bool.or_eq_true, List.findSome?_isSome_iff]
  cases block.isRoute with
  | false => simp
  | true =>
    simp only [if_true, Option.isSome_or, Bool.or_eq_true, List.findSome?_isSome_iff, hlater,
      true_and, and_or_left, exists_or, or_assoc]
    exact or_congr_right or_left_comm

end Routes

/-- **When a route block is refused, and with which error.** A block is refused if and only if one
of its parameters is, or if it has a `route` and the settings of a response cannot be read or name a
model by a value that cannot be written, or security requirements behind the first `route` cannot be
read. The error is that of the first such parameter in front of the first `route`, or else that of
the first such response of the whole block, or else that of the first such parameter or security
requirements behind the first `route`. -/
theorem failure_of_block (opts : RouteOptions) (block : CommentBlock) :
    (∀ e, (Routes.ofBlock opts block).result = .error e ↔ Routes.failure? opts block = some e) ∧
    ((∃ e, (Routes.ofBlock opts block).result = .error e) ↔
      (∃ t ∈ block.tags, t.isParam = true ∧
        ∃ e, Parameter.ofTag opts.format opts.defaultLocation t = .error e) ∨
      block.isRoute = true ∧
        ((∃ t ∈ block.tags, Response.isResponseTag t = true ∧
            ((∃ e, Settings.extract (Response.remainder t) = .error e) ∨
              ∃ x, Settings.extract (Response.remainder t) = .ok x ∧ x.namesUnwritable = true)) ∨
          ∃ t ∈ Routes.afterRoute block.tags, t.title = "security" ∧
            ∃ e, (Security.parse t.description).result = .error e)) := by
  have herror := (Routes.endsAs_ofBlock opts block).errorOf?_eq
  refine ⟨fun e => by rw [← herror, errorOf?_eq_some_iff], ?_⟩
  rw [← isSome_errorOf?_iff, herror, Routes.isSome_failure?_iff]
  simp only [Parameter.isSome_failure?_iff, Response.isSome_failure?_iff,
    Security.isSome_failure?_iff]

/-! ## A model that is named by an integer -/

/-- A settings block that names a model by an integer to base sixteen. -/
def numberedModel (ds : List Char) : List Char :=
  Settings.opener ++ ("modelName".toList ++ ':' :: ' ' :: '0' :: 'x' :: ds ++ ['\n']) ++
    Settings.closer

theorem extract_numberedModel {ds : List Char} (hds : ∀ c ∈ ds, isHexDigit c = true)
    (hne : ds ≠ []) :
    Settings.extract (String.ofList (numberedModel ds)) =
      .ok { settings := [("modelName", .int (hexNumber ds))] } := by
  have hread := Yaml.read_hexadecimal hds hne
    (List.all_eq_true.mp (show "modelName".toList.all Char.isAlphanum = true by decide))
    (by decide +kernel) (by decide)
  have hmark : '`' ∉ "modelName".toList ++ ':' :: ' ' :: '0' :: 'x' :: ds ++ ['\n'] := by
    have hdigits : '`' ∉ ds := fun h => ne_of_isHexDigit hds '`' (by decide) _ h rfl
    simpa using hdigits
  have hlen : ("modelName".toList ++ ':' :: ' ' :: '0' :: 'x' :: ds ++ ['\n']).length ≠ 1 := by simp
  rw [numberedModel]
  generalize "modelName".toList ++ ':' :: ' ' :: '0' :: 'x' :: ds ++ ['\n'] = body at *
  have hclose : Text.FirstAt Settings.closer (String.ofList body).toList []
      ((String.ofList body).toList ++ Settings.closer) := by
    have hfirst := Text.firstAt_of_notMem hmark ['`', '`'] []
    rw [List.append_nil] at hfirst
    rwa [String.toList_ofList]
  rw [String.ofList_append, String.ofList_append, ← Settings.block,
    Settings.extract_block hclose (by rwa [String.length_ofList]),
    Settings.load_eq_ok_iff.mpr (Or.inr ⟨none, hread⟩)]
  rfl

theorem Extracted.namesUnwritable_of_int {n : Int} (hn : Value.writable n = false) :
    ({ settings := [("modelName", .int n)] } : Extracted).namesUnwritable = true := by
  have hne : n ≠ 0 := by
    rintro rfl
    have hzero := (Value.writable_iff 0).mpr (Nat.pow_pos (show 0 < 10 by decide))
    rw [hzero] at hn
    cases hn
  simp [namesUnwritable, Assoc.get?, Value.truthy, Value.spellable, hn, hne]

/-- The numeral of `16 ^ 3600`. -/
def hugeNumeral : List Char := '1' :: List.replicate 3600 '0'

/-- A response whose model is named by an integer of more than 4300 digits. -/
def hugeResponse : Tag :=
  { title := "returns"
    description := String.ofList ("200 - ".toList ++ numberedModel hugeNumeral) }

def hugeBlock : CommentBlock :=
  { tags := [{ title := "route", description := "GET /pets" }, hugeResponse] }

theorem isHexDigit_hugeNumeral : ∀ c ∈ hugeNumeral, isHexDigit c = true := by
  intro c hc
  rcases List.mem_cons.mp hc with rfl | hc
  · decide
  · rw [List.eq_of_mem_replicate hc]
    decide

theorem remainder_hugeResponse :
    Response.remainder hugeResponse = String.ofList (numberedModel hugeNumeral) := by
  have htrim : Text.trim (' ' :: numberedModel hugeNumeral) = numberedModel hugeNumeral := by
    rw [Text.trim_cons_blank (by decide), numberedModel, List.append_assoc,
      Text.trim_eq_self (Text.trimmed_between (by decide +kernel) (by decide +kernel) _)]
  unfold Response.remainder hugeResponse
  rw [String.toList_ofList]
  exact congrArg String.ofList htrim

/-- There the settings of the response can be read and nothing else can fail, and yet the block is
refused. -/
theorem failure_of_hugeBlock :
    hugeBlock.isRoute = true ∧
      (∀ t ∈ hugeBlock.tags, t.isParam = false ∧ t.title ≠ "security" ∧
        (Response.isResponseTag t = true →
          ∃ x, Settings.extract (Response.remainder t) = .ok x)) ∧
      (Routes.ofBlock {} hugeBlock).result = .error .unwritableModel := by
  have hextract := extract_numberedModel isHexDigit_hugeNumeral (List.cons_ne_nil _ _)
  rw [← remainder_hugeResponse] at hextract
  refine ⟨rfl, ?_, ?_⟩
  · rintro t (_ | ⟨_, _ | ⟨_, h⟩⟩)
    · exact ⟨rfl, by decide, fun h => by cases h⟩
    · exact ⟨rfl, by decide, fun _ => ⟨_, hextract⟩⟩
    · cases h
  · have hunwritable : Value.writable (hexNumber hugeNumeral : Nat) = false := by
      rw [hugeNumeral, hexNumber_power]
      exact Value.writable_power (Nat.le_refl 3600)
    have hresponse : Response.failure? hugeResponse = some .unwritableModel := by
      rw [Response.failure?, if_pos (show Response.isResponseTag hugeResponse = true from rfl),
        hextract]
      dsimp only
      rw [if_pos (Extracted.namesUnwritable_of_int hunwritable)]
    have hresponses : hugeBlock.tags.findSome? Response.failure? = some .unwritableModel := by
      rw [hugeBlock, findSome?_cons_or, findSome?_cons_or, hresponse]
      rfl
    have hfailure : Routes.failure? {} hugeBlock = some .unwritableModel := by
      rw [Routes.failure?, hresponses]
      rfl
    rw [← errorOf?_eq_some_iff, (Routes.endsAs_ofBlock {} hugeBlock).errorOf?_eq, hfailure]

end AnnotatedApi
