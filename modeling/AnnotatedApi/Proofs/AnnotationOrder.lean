/-
  The order of annotations behind a single `route`. The route stays current to the end, so the
  block has one operation from then on (`Single`), which each annotation may change but none can
  move. Whether an annotation can be read is a matter of the annotation and its kind
  (`read_isOk_iff`), so a block can be put together if and only if the annotations of each kind
  can be (`ofBlock_isOk_iff`). What they say is then read off kind by kind
  (`Reads.ofBlock`); only the order of the details in the operation is left to the order of the
  annotations (`operation_alike`).
-/
import AnnotatedApi.Proofs.Alike
import AnnotatedApi.Proofs.Kinds
import AnnotatedApi.Proofs.Routes
import AnnotatedApi.Proofs.Sections

namespace AnnotatedApi

theorem Tag.isOf_of_isRoute {t : Tag} (h : t.isRoute = true) (k : Kind) : t.isOf k = false := by
  have htitle : t.title = "route" := by simpa [isRoute] using h
  cases k with
  | param => simp [isOf, isParam, htitle]
  | group => simp [isOf, htitle]
  | response => simp [isOf, Response.isResponseTag, htitle]
  | header => simp [isOf, Header.isHeaderTag, htitle]
  | detail d => simp [isOf, (Routes.name_ne_of_isRoute h d).symm]

namespace Routes

variable {opts : RouteOptions} {block block' : CommentBlock} {p q : Progress} {t : Tag}
  {r : Route} {ts : List Tag}

/-- The paths of a single operation. -/
def single (r : Route) (o : Operation) : PathMap := [(r.uri, [(r.method, o)])]

theorem get?_single (r : Route) (o : Operation) : (single r o).get? r = some o := by
  simp [single, PathMap.get?, Assoc.get?_cons]

theorem modify_single (r : Route) (o : Operation) (f : Operation → Operation) :
    (single r o).modify r f = single r (f o) := by
  unfold PathMap.modify
  rw [get?_single]
  simp [single, PathMap.set, Assoc.set, Assoc.get?_cons]

/-- Progress behind a `route` that is the only one: it is current, and it has the only
operation. -/
structure Single (r : Route) (p : Progress) : Prop where
  current : p.current = some r
  paths : ∃ o, p.routes.paths = single r o

theorem Single.modify (h : Single r p) (f : Operation → Operation) :
    ∃ o, p.routes.paths.modify r f = single r o := by
  obtain ⟨o, ho⟩ := h.paths
  exact ⟨f o, by rw [ho, modify_single]⟩

theorem Single.read (h : Single r p) (ht : t.isRoute = false)
    (hq : (read opts block p t).result = .ok q) : Single r q := by
  by_cases hp : t.isParam = true
  · obtain ⟨fields, -, rfl⟩ := (read_param_eq_ok hp).mp hq
    exact ⟨h.current, h.paths⟩
  by_cases hd : ∃ d : Detail, d.name = t.title
  · obtain ⟨d, hd⟩ := hd
    obtain ⟨v, -, rfl⟩ := (read_detail_eq_ok hd h.current).mp hq
    exact ⟨h.current, h.modify _⟩
  · rw [result_read_other ht (by simpa using hp) (Or.inr (not_exists.mp hd)),
      Except.ok.injEq] at hq
    exact hq ▸ h

theorem Single.refresh (h : Single r p) (hq : (refresh opts block p).result = .ok q) :
    Single r q := by
  obtain ⟨rs, -, rfl⟩ := (refresh_eq_ok_of_some h.current).mp hq
  exact ⟨h.current, h.modify _⟩

theorem Single.step (h : Single r p) (ht : t.isRoute = false)
    (hq : (step opts block p t).result = .ok q) : Single r q := by
  obtain ⟨p', hp', hq⟩ := Report.result_bind_eq_ok.mp hq
  exact (h.read ht hp').refresh hq

theorem Single.foldlM (h : Single r p) (hts : ∀ t ∈ ts, t.isRoute = false)
    (hq : (ts.foldlM (Routes.step opts block) p).result = .ok q) : Single r q := by
  induction ts generalizing p with
  | nil => exact Except.ok.inj hq ▸ h
  | cons t ts ih =>
    obtain ⟨p', hp', hq⟩ := Report.foldlM_cons_eq_ok.mp hq
    exact ih (h.step (hts t List.mem_cons_self) hp')
      (fun s hs => hts s (List.mem_cons_of_mem t hs)) hq

/-! ## Which blocks can be put together -/

/-- Whether what an annotation says, as one of a kind, can be read. -/
def Readable (opts : RouteOptions) (t : Tag) : Tag.Kind → Prop
  | .param => ∃ fields, Parameter.ofTag opts.format opts.defaultLocation t = .ok fields
  | .detail d => ∃ v, (d.value opts.format t.description).result = .ok v
  | .group | .response | .header => True

theorem read_isOk_iff (hc : p.current = some r) (ht : t.isRoute = false) :
    (∃ q, (read opts block p t).result = .ok q) ↔ ∀ k, t.isOf k = true → Readable opts t k := by
  by_cases hp : t.isParam = true
  · have hread : (∃ q, (read opts block p t).result = .ok q) ↔ Readable opts t .param := by
      simp [read_param_eq_ok hp, Readable]
    rw [hread]
    refine ⟨fun h k hk => ?_, fun h => h .param hp⟩
    cases k with
    | param => exact h
    | detail d =>
      have hname : t.title = d.name := by simpa [Tag.isOf] using hk
      exact absurd hname.symm (name_ne_of_isParam hp d)
    | group | response | header => trivial
  by_cases hd : ∃ d : Detail, d.name = t.title
  · obtain ⟨d, hd⟩ := hd
    have hread : (∃ q, (read opts block p t).result = .ok q) ↔ Readable opts t (.detail d) := by
      simp [read_detail_eq_ok hd hc, Readable]
    rw [hread]
    refine ⟨fun h k hk => ?_, fun h => h (.detail d) (by simp [Tag.isOf, hd])⟩
    cases k with
    | param => exact absurd hk hp
    | detail d' =>
      have hname : t.title = d'.name := by simpa [Tag.isOf] using hk
      rw [← Detail.name_injective (hd.trans hname)]
      exact h
    | group | response | header => trivial
  · have hread : (read opts block p t).result = .ok p :=
      result_read_other ht (by simpa using hp) (Or.inr (not_exists.mp hd))
    refine ⟨fun _ k hk => ?_, fun _ => ⟨p, hread⟩⟩
    cases k with
    | param => exact absurd hk hp
    | detail d =>
      have hname : t.title = d.name := by simpa [Tag.isOf] using hk
      exact absurd ⟨d, hname.symm⟩ hd
    | group | response | header => trivial

theorem step_isOk_iff {rs : List (String × Response)}
    (hrs : (Response.ofTags opts.format opts.headerPolicy block.tags).result = .ok rs)
    (h : Single r p) (ht : t.isRoute = false) :
    (∃ q, (step opts block p t).result = .ok q) ↔ ∀ k, t.isOf k = true → Readable opts t k := by
  have hread : (∃ q, (read opts block p t).result = .ok q) ↔
      ∀ k, t.isOf k = true → Readable opts t k := read_isOk_iff h.current ht
  rw [← hread]
  constructor
  · rintro ⟨q, hq⟩
    obtain ⟨p', hp', -⟩ := Report.result_bind_eq_ok.mp hq
    exact ⟨p', hp'⟩
  · rintro ⟨p', hp'⟩
    have hcurrent := (h.read ht hp').current
    exact ⟨_, Report.result_bind_eq_ok.mpr
      ⟨p', hp', (refresh_eq_ok_of_some hcurrent).mpr ⟨rs, hrs, rfl⟩⟩⟩

/-- Annotations behind a single `route` can all be read if each of them can. -/
theorem foldlM_isOk_iff {rs : List (String × Response)}
    (hrs : (Response.ofTags opts.format opts.headerPolicy block.tags).result = .ok rs)
    (h : Single r p) (hts : ∀ t ∈ ts, t.isRoute = false) :
    (∃ q, (ts.foldlM (step opts block) p).result = .ok q) ↔
      ∀ t ∈ ts, ∀ k, t.isOf k = true → Readable opts t k := by
  induction ts generalizing p with
  | nil => simp
  | cons t ts ih =>
    have ht := hts t List.mem_cons_self
    have hts' := fun s hs => hts s (List.mem_cons_of_mem t hs)
    rw [List.forall_mem_cons, ← step_isOk_iff hrs h ht]
    constructor
    · rintro ⟨q, hq⟩
      obtain ⟨p', hp', hq⟩ := Report.foldlM_cons_eq_ok.mp hq
      exact ⟨⟨p', hp'⟩, (ih (h.step ht hp') hts').mp ⟨q, hq⟩⟩
    · rintro ⟨⟨p', hp'⟩, hread⟩
      obtain ⟨q, hq⟩ := (ih (h.step ht hp') hts').mpr hread
      exact ⟨q, Report.foldlM_cons_eq_ok.mpr ⟨p', hp', hq⟩⟩

/-! ## Blocks of one route -/

/-- Whether a `route` stands first in a block and no other follows. -/
def HasOneRoute (route : Tag) (block : CommentBlock) : Prop :=
  ∃ ts, block.tags = route :: ts ∧ route.isRoute = true ∧ ∀ t ∈ ts, t.isRoute = false

theorem step_first_eq_ok (hr : t.isRoute = true) (hq : (step opts block {} t).result = .ok q) :
    Single (Route.parse t.description) q := by
  obtain ⟨p, hp, hq⟩ := Report.result_bind_eq_ok.mp hq
  rw [result_read_route hr, Except.ok.injEq] at hp
  subst hp
  exact Single.refresh ⟨rfl, _, rfl⟩ hq

theorem step_first_isOk_iff (hr : t.isRoute = true) :
    (∃ q, (step opts block {} t).result = .ok q) ↔
      ∃ rs, (Response.ofTags opts.format opts.headerPolicy block.tags).result = .ok rs := by
  constructor
  · rintro ⟨q, hq⟩
    obtain ⟨p, hp, hq⟩ := Report.result_bind_eq_ok.mp hq
    rw [result_read_route hr, Except.ok.injEq] at hp
    obtain ⟨rs, hrs, -⟩ := (refresh_eq_ok_of_some (by rw [← hp])).mp hq
    exact ⟨rs, hrs⟩
  · rintro ⟨rs, hrs⟩
    exact ⟨_, Report.result_bind_eq_ok.mpr
      ⟨_, result_read_route hr {}, (refresh_eq_ok_of_some rfl).mpr ⟨rs, hrs, rfl⟩⟩⟩

theorem ofBlock_eq_ok {routes : Routes} :
    (ofBlock opts block).result = .ok routes ↔
      ∃ p, (block.tags.foldlM (step opts block) {}).result = .ok p ∧ p.routes = routes := by
  unfold ofBlock
  rw [Report.result_bind_eq_ok]
  simp

/-- A block of one route can be put together if its responses can, and what stands in each kind
can be read. -/
theorem ofBlock_isOk_iff {route : Tag} (h : HasOneRoute route block) :
    (∃ routes, (ofBlock opts block).result = .ok routes) ↔
      (∃ rs, (Response.ofTags opts.format opts.headerPolicy block.tags).result = .ok rs) ∧
        ∀ k, ∀ t ∈ block.tags.filter (Tag.isOf k), Readable opts t k := by
  obtain ⟨ts, htags, hroute, hts⟩ := h
  have hkinds : (∀ k, ∀ t ∈ block.tags.filter (Tag.isOf k), Readable opts t k) ↔
      ∀ t ∈ ts, ∀ k, t.isOf k = true → Readable opts t k := by
    have hfilter : ∀ k, block.tags.filter (Tag.isOf k) = ts.filter (Tag.isOf k) := by
      intro k
      rw [htags, List.filter_cons_of_neg (by simp [Tag.isOf_of_isRoute hroute k])]
    simp only [hfilter, List.mem_filter, and_imp]
    exact forall_comm.trans (forall_congr' fun _ => forall_comm)
  have hrun : (∃ routes, (ofBlock opts block).result = .ok routes) ↔
      ∃ p, ((route :: ts).foldlM (step opts block) {}).result = .ok p := by
    simp only [ofBlock_eq_ok, htags]
    exact ⟨fun ⟨_, p, hp, _⟩ => ⟨p, hp⟩, fun ⟨p, hp⟩ => ⟨_, p, hp, rfl⟩⟩
  rw [hrun, hkinds, ← step_first_isOk_iff hroute]
  constructor
  · rintro ⟨p, hp⟩
    obtain ⟨q, hq, hp⟩ := Report.foldlM_cons_eq_ok.mp hp
    obtain ⟨rs, hrs⟩ := (step_first_isOk_iff hroute).mp ⟨q, hq⟩
    exact ⟨⟨q, hq⟩, (foldlM_isOk_iff hrs (step_first_eq_ok hroute hq) hts).mp ⟨p, hp⟩⟩
  · rintro ⟨⟨q, hq⟩, hread⟩
    obtain ⟨rs, hrs⟩ := (step_first_isOk_iff hroute).mp ⟨q, hq⟩
    obtain ⟨p, hp⟩ := (foldlM_isOk_iff hrs (step_first_eq_ok hroute hq) hts).mpr hread
    exact ⟨p, Report.foldlM_cons_eq_ok.mpr ⟨q, hq, hp⟩⟩

/-- All behind a single `route` is one stretch of it. -/
theorem stretches_of_current (r : Route) (hts : ∀ t ∈ ts, t.isRoute = false) :
    stretches r (some r) ts = ts := by
  induction ts with
  | nil => rfl
  | cons t ts ih =>
    have ht := hts t List.mem_cons_self
    rw [stretches, if_neg (by simp [ht]), if_pos rfl,
      ih fun s hs => hts s (List.mem_cons_of_mem t hs)]

/-- What a block of one route gives: a single operation, each part of which is read from the
annotations of its kind. -/
structure Sole (opts : RouteOptions) (block : CommentBlock) (o : Operation) : Prop where
  description : o.description = opts.format block.description
  tags : o.tags = Group.tagNames (Group.ofTags block.tags)
  parameters : (block.tags.filter (Tag.isOf .param)).mapM
    (Parameter.ofTag opts.format opts.defaultLocation) = .ok o.parameters
  responses : (Response.ofTags opts.format opts.headerPolicy block.tags).result = .ok o.responses
  detail : ∀ d : Detail,
    (block.tags.filter (Tag.isOf (.detail d))).getLast?.mapM
      (fun t => (d.value opts.format t.description).result) = .ok (Assoc.get? d o.details)
  details : (Assoc.keys o.details).Nodup

theorem paths_eq_single {route : Tag} (h : HasOneRoute route block) {routes : Routes}
    (hok : (ofBlock opts block).result = .ok routes) :
    ∃ o, routes.paths = single (Route.parse route.description) o := by
  obtain ⟨ts, htags, hroute, hts⟩ := h
  obtain ⟨p, hp, rfl⟩ := ofBlock_eq_ok.mp hok
  rw [htags] at hp
  obtain ⟨q, hq, hp⟩ := Report.foldlM_cons_eq_ok.mp hp
  exact ((step_first_eq_ok hroute hq).foldlM hts hp).paths

theorem Sole.ofBlock {route : Tag} (h : HasOneRoute route block) {routes : Routes}
    (hok : (ofBlock opts block).result = .ok routes) :
    ∃ o, routes = ⟨single (Route.parse route.description) o, describedGroups opts block⟩ ∧
      Sole opts block o := by
  obtain ⟨o, ho⟩ := paths_eq_single h hok
  obtain ⟨ts, htags, hroute, hts⟩ := h
  obtain ⟨p, rfl, hp⟩ := Reads.ofBlock hok
  have hget : p.routes.paths.get? (Route.parse route.description) = some o := by
    rw [ho, get?_single]
  have hcurrent : currentFrom none block.tags = some (Route.parse route.description) := by
    rw [htags, currentFrom, if_pos hroute, currentFrom_of_no_route _ hts]
  have hgroups : p.routes.groups = describedGroups opts block := by
    have hno : ts.filter Tag.isRoute = [] := List.filter_eq_nil_iff.mpr (by simpa using hts)
    rw [hp.groups, htags, List.filter_cons_of_pos hroute, hno]
    exact List.append_nil _
  have hkept := hp.kept _ _ hget
  have hfresh := hp.fresh _ _ hget (by simp)
  refine ⟨o, by rw [← ho, ← hgroups], hkept.description, hkept.tags, ?_, hfresh.responses, ?_,
    hkept.details⟩
  · have hheard := hfresh.parameters
    rw [heard_of_current hcurrent] at hheard
    exact hheard
  · intro d
    have hlast : lastIn d.name (Route.parse route.description) block.tags =
        (block.tags.filter (Tag.isOf (.detail d))).getLast? := by
      rw [lastIn, htags, stretches, if_pos hroute, stretches_of_current _ hts,
        List.filter_cons_of_neg (by simp [Tag.isOf_of_isRoute hroute])]
      rfl
    rw [← hlast]
    exact hkept.detail d

/-- Operations of blocks that agree in each kind differ at most in the order of their details. -/
theorem operation_alike {o o' : Operation} (h : Sole opts block o) (h' : Sole opts block' o')
    (hd : block.description = block'.description)
    (hk : ∀ k, block.tags.filter (Tag.isOf k) = block'.tags.filter (Tag.isOf k)) :
    Assoc.Alike Eq o.fields o'.fields := by
  have hdescription : o.description = o'.description := by
    rw [h.description, h'.description, hd]
  have htags : o.tags = o'.tags := by
    rw [h.tags, h'.tags, Group.ofTags_congr (hk .group)]
  have hparameters : o.parameters = o'.parameters := by
    have hps := h.parameters
    rw [hk .param, h'.parameters] at hps
    exact (Except.ok.inj hps).symm
  have hresponses : o.responses = o'.responses := by
    have hrs := h.responses
    rw [Response.ofTags_congr _ _ (hk .header) (hk .response), h'.responses] at hrs
    exact (Except.ok.inj hrs).symm
  have hdetail : ∀ d, Assoc.get? d o.details = Assoc.get? d o'.details := by
    intro d
    have hv := h.detail d
    rw [hk (.detail d), h'.detail d] at hv
    exact (Except.ok.inj hv).symm
  unfold Operation.fields
  rw [hdescription, htags, hparameters, hresponses]
  exact ((Assoc.Alike.of_nodup h.details h'.details hdetail).mapKeys
    Detail.name_injective).append_left _

end Routes

/-- Two blocks of the same route, which is the only one and stands first, that agree in each kind
of annotation. Annotations of no kind may stand anywhere. -/
structure CommentBlock.SameByKind (b b' : CommentBlock) : Prop where
  description : b.description = b'.description
  route : ∃ route, Routes.HasOneRoute route b ∧ Routes.HasOneRoute route b'
  kinds : ∀ k, b.tags.filter (Tag.isOf k) = b'.tags.filter (Tag.isOf k)

/-- One contribution, in whatever order the keys of its mappings stand. -/
structure Contribution.Alike (c c' : Contribution) : Prop where
  paths : Assoc.Alike (Assoc.Alike (Value.Reordered Eq)) c.paths c'.paths
  tags : c.tags = c'.tags
  definitions : c.definitions = c'.definitions

/-- **The order of annotations counts only within a kind.** Behind a single `route`, annotations
of different kinds may stand in any order, and those of no kind anywhere: the block can be put
together or not, and contributes the same, up to the order of keys. -/
theorem routes_of_sameByKind (opts : RouteOptions) {b b' : CommentBlock} (h : b.SameByKind b') :
    ((∃ routes, (Routes.ofBlock opts b).result = .ok routes) ↔
      ∃ routes, (Routes.ofBlock opts b').result = .ok routes) ∧
    ∀ routes routes', (Routes.ofBlock opts b).result = .ok routes →
      (Routes.ofBlock opts b').result = .ok routes' →
      (Contribution.ofRoutes routes).Alike (Contribution.ofRoutes routes') := by
  obtain ⟨route, hb, hb'⟩ := h.route
  constructor
  · rw [Routes.ofBlock_isOk_iff hb, Routes.ofBlock_isOk_iff hb',
      Response.ofTags_congr _ _ (h.kinds .header) (h.kinds .response)]
    simp only [h.kinds]
  · intro routes routes' hok hok'
    obtain ⟨o, rfl, ho⟩ := Routes.Sole.ofBlock hb hok
    obtain ⟨o', rfl, ho'⟩ := Routes.Sole.ofBlock hb' hok'
    have hgroups : Routes.describedGroups opts b = Routes.describedGroups opts b' := by
      unfold Routes.describedGroups
      rw [Group.ofTags_congr (h.kinds .group)]
    have hfields := Routes.operation_alike ho ho' h.description h.kinds
    refine ⟨?_, by rw [Contribution.ofRoutes, Contribution.ofRoutes, hgroups], rfl⟩
    exact .single (.single (.map none (hfields.mapKeys Value.str_injective)) _) _

/-- A block in a tidy order. -/
def listBlock : CommentBlock :=
  { description := "Pets."
    tags :=
      [{ title := "route", description := "GET /pets" },
       { title := "operationId", description := "listPets" },
       { title := "summary", description := "List" },
       { title := "param", name := "limit.query" },
       { title := "param", name := "page.query" },
       { title := "returns", description := "200 - All pets" },
       { title := "headers", description := "200.X-Total - integer - How many" }] }

/-- The same with the header in front, the details the other way round and a remark. -/
def shuffledListBlock : CommentBlock :=
  { description := "Pets."
    tags :=
      [{ title := "route", description := "GET /pets" },
       { title := "headers", description := "200.X-Total - integer - How many" },
       { title := "param", name := "limit.query" },
       { title := "summary", description := "List" },
       { title := "see", description := "the manual" },
       { title := "returns", description := "200 - All pets" },
       { title := "param", name := "page.query" },
       { title := "operationId", description := "listPets" }] }

theorem routes_of_shuffledListBlock : listBlock.SameByKind shuffledListBlock ∧
    ∃ routes routes', (Routes.ofBlock {} listBlock).result = .ok routes ∧
      (Routes.ofBlock {} shuffledListBlock).result = .ok routes' ∧
      (Contribution.ofRoutes routes).Alike (Contribution.ofRoutes routes') := by
  have hsame : listBlock.SameByKind shuffledListBlock := by
    refine ⟨rfl, ⟨_, ⟨_, rfl, rfl, by decide⟩, ⟨_, rfl, rfl, by decide⟩⟩, fun k => ?_⟩
    cases k with
    | detail d => cases d <;> rfl
    | param | group | response | header => rfl
  obtain ⟨routes, hok⟩ : ∃ routes, (Routes.ofBlock {} listBlock).result = .ok routes := ⟨_, rfl⟩
  have h := routes_of_sameByKind {} hsame
  obtain ⟨routes', hok'⟩ := h.1.mp ⟨routes, hok⟩
  exact ⟨hsame, routes, routes', hok, hok', h.2 routes routes' hok hok'⟩

end AnnotatedApi
