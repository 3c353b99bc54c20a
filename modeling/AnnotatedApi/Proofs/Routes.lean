/-
  What the annotations of a route block come to. The annotations are read one after the other,
  and each one may rewrite the operation of the current route; `Reads` says what holds of the
  operations when the annotations `pre` have been read, for every `pre`. It holds at the start,
  every step keeps it (`Reads.step`), and so it holds of the whole block (`Reads.ofBlock`).
-/
import AnnotatedApi.Document.Contribution
import AnnotatedApi.Proofs.HeaderPolicies
import AnnotatedApi.Proofs.Run
import AnnotatedApi.Proofs.Stretches

namespace AnnotatedApi

namespace PathMap

theorem get?_set (r r' : Route) (o : Operation) (paths : PathMap) :
    (paths.set r o).get? r' = if r = r' then some o else paths.get? r' := by
  unfold get? set
  rw [Assoc.get?_set_inner]
  obtain ⟨method, uri⟩ := r
  obtain ⟨method', uri'⟩ := r'
  simp only [Route.mk.injEq, and_comm]

theorem get?_modify (r r' : Route) (f : Operation → Operation) (paths : PathMap) :
    (paths.modify r f).get? r' = if r = r' then (paths.get? r').map f else paths.get? r' := by
  unfold modify
  cases h : paths.get? r with
  | none =>
    by_cases hr : r = r'
    · subst hr
      simp [h]
    · simp [hr]
  | some o =>
    by_cases hr : r = r'
    · subst hr
      simp [get?_set, h]
    · simp [get?_set, hr]

theorem isSome_get?_modify (r r' : Route) (f : Operation → Operation) (paths : PathMap) :
    ((paths.modify r f).get? r').isSome = (paths.get? r').isSome := by
  rw [get?_modify]
  split
  · exact Option.isSome_map
  · rfl

theorem nestedNodup_set {paths : PathMap} (h : Assoc.NestedNodup paths) (r : Route)
    (o : Operation) : Assoc.NestedNodup (paths.set r o) :=
  h.set_inner r.uri r.method o

theorem nestedNodup_modify {paths : PathMap} (h : Assoc.NestedNodup paths) (r : Route)
    (f : Operation → Operation) : Assoc.NestedNodup (paths.modify r f) := by
  unfold modify
  split
  · exact nestedNodup_set h _ _
  · exact h

end PathMap

theorem Detail.ofTitle?_eq_some {title : String} {d : Detail} :
    Detail.ofTitle? title = some d ↔ d.name = title := by
  unfold Detail.ofTitle?
  constructor
  · intro h
    simpa using List.find?_some h
  · rintro rfl
    cases d <;> decide

namespace Routes

variable {opts : RouteOptions} {block : CommentBlock}

/-- What an operation of `r` keeps of the annotations `pre`: the description and the groups of
its block, and the last of each detail in the stretches of `r`. -/
structure Kept (opts : RouteOptions) (block : CommentBlock) (pre : List Tag) (r : Route)
    (o : Operation) : Prop where
  description : o.description = opts.format block.description
  tags : o.tags = Group.tagNames (Group.ofTags block.tags)
  detail : ∀ d : Detail,
    (lastIn d.name r pre).mapM (fun t => (d.value opts.format t.description).result) =
      .ok (Assoc.get? d o.details)
  details : (Assoc.keys o.details).Nodup

/-- What an operation of `r` is given anew as long as `r` is current: the parameters that `r` has
heard, and the responses of the block. -/
structure Fresh (opts : RouteOptions) (block : CommentBlock) (pre : List Tag) (r : Route)
    (o : Operation) : Prop where
  parameters : ((heard r pre).filter Tag.isParam).mapM
    (Parameter.ofTag opts.format opts.defaultLocation) = .ok o.parameters
  responses : (Response.ofTags opts.format opts.headerPolicy block.tags).result = .ok o.responses

/-- The groups that one `route` of a block asks to be described. -/
def describedGroups (opts : RouteOptions) (block : CommentBlock) : List Group :=
  (Group.described (Group.ofTags block.tags)).map fun g => ⟨g.name, opts.format g.description⟩

/-- Progress after the annotations `pre`. The operation of the route `stale`, if there is one, has
still to be given its parameters and responses. -/
structure Reads (opts : RouteOptions) (block : CommentBlock) (pre : List Tag)
    (stale : Option Route) (p : Progress) : Prop where
  current : p.current = currentFrom none pre
  parameters : (pre.filter Tag.isParam).mapM
    (Parameter.ofTag opts.format opts.defaultLocation) = .ok p.parameters
  named : ∀ r, (p.routes.paths.get? r).isSome = pre.any (Tag.names r)
  kept : ∀ r o, p.routes.paths.get? r = some o → Kept opts block pre r o
  fresh : ∀ r o, p.routes.paths.get? r = some o → stale ≠ some r → Fresh opts block pre r o
  groups : p.routes.groups = (pre.filter Tag.isRoute).flatMap fun _ => describedGroups opts block
  nodup : Assoc.NestedNodup p.routes.paths

/-! ## The steps -/

theorem result_read_route {t : Tag} (ht : t.isRoute = true) (p : Progress) :
    (read opts block p t).result = .ok
      { p with
        routes :=
          { paths := p.routes.paths.set (Route.parse t.description)
              (registered (opts.format block.description) (Group.ofTags block.tags)
                (p.routes.paths.get? (Route.parse t.description)))
            groups := p.routes.groups ++ describedGroups opts block }
        current := some (Route.parse t.description) } := by
  have h : t.title = "route" := by simpa [Tag.isRoute] using ht
  unfold read
  rw [if_pos h]
  rfl

theorem read_param_eq_ok {t : Tag} (ht : t.isParam = true) {p q : Progress} :
    (read opts block p t).result = .ok q ↔
      ∃ fields, Parameter.ofTag opts.format opts.defaultLocation t = .ok fields ∧
        q = { p with parameters := p.parameters ++ [fields] } := by
  have h : t.title = "param" := by simpa [Tag.isParam] using ht
  have hr : t.title ≠ "route" := by simp [h]
  unfold read
  rw [if_neg hr, if_pos h, Report.result_bind_eq_ok]
  simp [eq_comm]

theorem read_detail_eq_ok {t : Tag} {d : Detail} (ht : d.name = t.title) {p q : Progress}
    {r : Route} (hr : p.current = some r) :
    (read opts block p t).result = .ok q ↔
      ∃ v, (d.value opts.format t.description).result = .ok v ∧
        q = { p with
          routes := { p.routes with
            paths := p.routes.paths.modify r
              fun o => { o with details := Assoc.set d v o.details } } } := by
  have h₁ : t.title ≠ "route" := by
    rw [← ht]
    cases d <;> decide
  have h₂ : t.title ≠ "param" := by
    rw [← ht]
    cases d <;> decide
  unfold read
  rw [if_neg h₁, if_neg h₂, hr, Detail.ofTitle?_eq_some.mpr ht]
  simp only [Report.result_bind_eq_ok]
  simp [eq_comm]

/-- Other annotations, and details before the first `route`, do nothing. -/
theorem result_read_other {t : Tag} (hr : t.isRoute = false) (hp : t.isParam = false)
    {p : Progress} (h : p.current = none ∨ ∀ d : Detail, d.name ≠ t.title) :
    (read opts block p t).result = .ok p := by
  have h₁ : t.title ≠ "route" := by simpa [Tag.isRoute] using hr
  have h₂ : t.title ≠ "param" := by simpa [Tag.isParam] using hp
  unfold read
  rw [if_neg h₁, if_neg h₂]
  rcases h with h | h
  · rw [h]
    rfl
  · have hnone : Detail.ofTitle? t.title = none := by
      rw [Option.eq_none_iff_forall_ne_some]
      intro d hd
      exact h d (Detail.ofTitle?_eq_some.mp hd)
    rw [hnone]
    cases p.current <;> rfl

theorem refresh_eq_ok_of_none {p q : Progress} (hc : p.current = none) :
    (refresh opts block p).result = .ok q ↔ q = p := by
  unfold refresh
  rw [hc]
  simp [eq_comm]

theorem refresh_eq_ok_of_some {p q : Progress} {r : Route} (hc : p.current = some r) :
    (refresh opts block p).result = .ok q ↔
      ∃ rs, (Response.ofTags opts.format opts.headerPolicy block.tags).result = .ok rs ∧
        q = { p with
          routes := { p.routes with
            paths := p.routes.paths.modify r
              fun o => { o with parameters := p.parameters, responses := rs } } } := by
  unfold refresh
  rw [hc]
  simp only [Report.result_bind_eq_ok]
  simp [eq_comm]

/-! ## What the steps keep -/

variable {pre : List Tag} {p q : Progress} {t : Tag} {r : Route} {o : Operation}

theorem Kept.concat (h : Kept opts block pre r o)
    (hl : ∀ d : Detail, lastIn d.name r (pre ++ [t]) = lastIn d.name r pre) :
    Kept opts block (pre ++ [t]) r o :=
  { h with detail := fun d => by rw [hl]; exact h.detail d }

theorem Fresh.concat (h : Fresh opts block pre r o)
    (hc : currentFrom none (pre ++ [t]) ≠ some r) : Fresh opts block (pre ++ [t]) r o :=
  { h with parameters := by rw [heard_concat_of_not_current hc]; exact h.parameters }

theorem lastIn_concat_of_no_detail (ht : ∀ d : Detail, d.name ≠ t.title) (d : Detail) :
    lastIn d.name r (pre ++ [t]) = lastIn d.name r pre := by
  rw [lastIn_concat, if_neg]
  exact fun h => ht d h.2.2.symm

/-- Neither `route` nor `param` is a detail. -/
theorem name_ne_of_isRoute (ht : t.isRoute = true) (d : Detail) : d.name ≠ t.title := by
  have h : t.title = "route" := by simpa [Tag.isRoute] using ht
  rw [h]
  cases d <;> decide

theorem name_ne_of_isParam (ht : t.isParam = true) (d : Detail) : d.name ≠ t.title := by
  have h : t.title = "param" := by simpa [Tag.isParam] using ht
  rw [h]
  cases d <;> decide

theorem isParam_of_isRoute (ht : t.isRoute = true) : t.isParam = false := by
  have h : t.title = "route" := by simpa [Tag.isRoute] using ht
  simp [Tag.isParam, h]

theorem mapM_filter_concat {f : Tag → Except AssemblyError Fields} {ps : List Fields}
    (h : (pre.filter Tag.isParam).mapM f = .ok ps) (ht : t.isParam = false) :
    ((pre ++ [t]).filter Tag.isParam).mapM f = .ok ps := by
  simpa [List.filter_append, ht] using h

/-- A registered operation keeps the details of an earlier registration. -/
theorem registered_kept (ht : t.isRoute = true)
    (old : ∀ o, p.routes.paths.get? r = some o → Kept opts block pre r o)
    (new : p.routes.paths.get? r = none → ∀ d : Detail, lastIn d.name r pre = none) :
    Kept opts block (pre ++ [t]) r
      (registered (opts.format block.description) (Group.ofTags block.tags)
        (p.routes.paths.get? r)) := by
  refine ⟨rfl, rfl, ?_, ?_⟩
  · intro d
    rw [lastIn_concat_of_no_detail (name_ne_of_isRoute ht)]
    cases ho : p.routes.paths.get? r with
    | none => rw [new ho d]; rfl
    | some o => exact (old o ho).detail d
  · cases ho : p.routes.paths.get? r with
    | none => exact List.nodup_nil
    | some o => exact (old o ho).details

/-- Without a `route` that names it, a route has no stretch. -/
theorem stretches_eq_nil {ts : List Tag} {cur : Option Route} (hc : cur ≠ some r)
    (h : ts.any (Tag.names r) = false) : stretches r cur ts = [] := by
  induction ts generalizing cur with
  | nil => rfl
  | cons t ts ih =>
    simp only [List.any_cons, Bool.or_eq_false_iff] at h
    unfold stretches
    by_cases ht : t.isRoute = true
    · rw [if_pos ht]
      refine ih ?_ h.2
      intro hr
      rw [(Tag.names_of_isRoute ht r).mpr (Option.some.inj hr)] at h
      simp at h
    · rw [if_neg ht, if_neg hc]
      exact ih hc h.2

theorem Reads.route (h : Reads opts block pre none p) (ht : t.isRoute = true)
    (hq : (read opts block p t).result = .ok q) : Reads opts block (pre ++ [t]) q.current q := by
  rw [result_read_route ht, Except.ok.injEq] at hq
  subst hq
  have hcur : currentFrom none (pre ++ [t]) = some (Route.parse t.description) := by
    rw [currentFrom_concat, if_pos ht]
  refine ⟨hcur.symm, mapM_filter_concat h.parameters (isParam_of_isRoute ht), ?_, ?_, ?_, ?_,
    PathMap.nestedNodup_set h.nodup _ _⟩
  · intro r
    rw [PathMap.get?_set, List.any_append, ← h.named r]
    by_cases hr : Route.parse t.description = r
    · simp [hr, (Tag.names_of_isRoute ht r).mpr hr]
    · have hn : t.names r = false := by
        rw [Bool.eq_false_iff]
        exact fun hn => hr ((Tag.names_of_isRoute ht r).mp hn)
      simp [hr, hn]
  · intro r o ho
    rw [PathMap.get?_set] at ho
    split at ho
    · next hr =>
      subst hr
      rw [← Option.some.inj ho]
      refine registered_kept ht (h.kept _) ?_
      intro hnone d
      have hany : pre.any (Tag.names (Route.parse t.description)) = false := by
        rw [← h.named, hnone]
        rfl
      rw [lastIn, stretches_eq_nil (by simp) hany]
      rfl
    · exact (h.kept r o ho).concat (lastIn_concat_of_no_detail (name_ne_of_isRoute ht))
  · intro r o ho hne
    rw [PathMap.get?_set] at ho
    split at ho
    · next hr => exact absurd (congrArg some hr) hne
    · exact (h.fresh r o ho (by simp)).concat (hcur ▸ hne)
  · simp [h.groups, List.filter_append, ht]

theorem Reads.param (h : Reads opts block pre none p) (ht : t.isParam = true)
    (hq : (read opts block p t).result = .ok q) : Reads opts block (pre ++ [t]) q.current q := by
  obtain ⟨fields, hf, rfl⟩ := (read_param_eq_ok ht).mp hq
  have hr : t.isRoute = false := by
    rw [Bool.eq_false_iff]
    intro hr
    simp [isParam_of_isRoute hr] at ht
  have hcur : currentFrom none (pre ++ [t]) = currentFrom none pre := by
    simp [currentFrom_concat, hr]
  have hn : ∀ r, t.names r = false := fun r => by simp [Tag.names, hr]
  refine ⟨by rw [hcur]; exact h.current, ?_, ?_, ?_, ?_, ?_, h.nodup⟩
  · rw [List.filter_append, List.mapM_append, h.parameters]
    simp [ht, hf]
    rfl
  · intro r
    rw [List.any_append, ← h.named r]
    simp [hn]
  · intro r o ho
    exact (h.kept r o ho).concat (lastIn_concat_of_no_detail (name_ne_of_isParam ht))
  · intro r o ho hne
    refine (h.fresh r o ho (by simp)).concat ?_
    rw [hcur, ← h.current]
    exact hne
  · simp [h.groups, List.filter_append, hr]

/-- An annotation that is neither `route` nor `param` leaves all but the operation of the current
route as it was. -/
theorem Reads.other (h : Reads opts block pre none p) (hr : t.isRoute = false)
    (hp : t.isParam = false) {paths : PathMap}
    (hnamed : ∀ r, (PathMap.get? r paths).isSome = (PathMap.get? r p.routes.paths).isSome)
    (hkept : ∀ r o, PathMap.get? r paths = some o → Kept opts block (pre ++ [t]) r o)
    (hsame : ∀ r, p.current ≠ some r → PathMap.get? r paths = PathMap.get? r p.routes.paths)
    (hnodup : Assoc.NestedNodup paths) :
    Reads opts block (pre ++ [t]) p.current
      { p with routes := { p.routes with paths := paths } } := by
  have hcur : currentFrom none (pre ++ [t]) = currentFrom none pre := by
    simp [currentFrom_concat, hr]
  refine ⟨by rw [hcur]; exact h.current, mapM_filter_concat h.parameters hp, ?_, hkept, ?_, ?_,
    hnodup⟩
  · intro r
    have hn : t.names r = false := by simp [Tag.names, hr]
    rw [hnamed, List.any_append, ← h.named r]
    simp [hn]
  · intro r o ho hne
    rw [hsame r hne] at ho
    refine (h.fresh r o ho (by simp)).concat ?_
    rw [hcur, ← h.current]
    exact hne
  · simp [h.groups, List.filter_append, hr]

theorem Reads.detail (h : Reads opts block pre none p) {d : Detail} (ht : d.name = t.title)
    (hc : p.current = some r) (hq : (read opts block p t).result = .ok q) :
    Reads opts block (pre ++ [t]) q.current q := by
  have hr : t.isRoute = false := by
    rw [Bool.eq_false_iff]
    exact fun hr => name_ne_of_isRoute hr d ht
  have hp : t.isParam = false := by
    rw [Bool.eq_false_iff]
    exact fun hp => name_ne_of_isParam hp d ht
  obtain ⟨v, hv, rfl⟩ := (read_detail_eq_ok ht hc).mp hq
  refine h.other hr hp (fun r' => PathMap.isSome_get?_modify _ r' _ _) ?_ ?_
    (PathMap.nestedNodup_modify h.nodup _ _)
  · intro r' o ho
    rw [PathMap.get?_modify] at ho
    split at ho
    · next hr' =>
      subst hr'
      obtain ⟨o', ho', rfl⟩ := Option.map_eq_some_iff.mp ho
      have hk := h.kept r o' ho'
      refine ⟨hk.description, hk.tags, ?_, Assoc.nodup_keys_set _ _ hk.details⟩
      intro d'
      rw [lastIn_concat, Assoc.get?_set]
      by_cases hd : d = d'
      · subst hd
        rw [if_pos ⟨hr, h.current ▸ hc, ht.symm⟩, if_pos rfl]
        simp only [Option.mapM_some, hv]
        rfl
      · have hne : t.title ≠ d'.name := by
          rw [← ht]
          revert hd
          cases d <;> cases d' <;> decide
        rw [if_neg fun hh => hne hh.2.2, if_neg hd]
        exact hk.detail d'
    · next hr' =>
      refine (h.kept r' o ho).concat ?_
      intro d'
      rw [lastIn_concat, if_neg]
      intro hh
      rw [← h.current, hc] at hh
      exact hr' (Option.some.inj hh.2.1)
  · intro r' hne
    rw [PathMap.get?_modify, if_neg]
    exact fun hr' => hne (hr' ▸ hc)

theorem Reads.read (h : Reads opts block pre none p)
    (hq : (read opts block p t).result = .ok q) : Reads opts block (pre ++ [t]) q.current q := by
  by_cases hr : t.isRoute = true
  · exact h.route hr hq
  by_cases hp : t.isParam = true
  · exact h.param hp hq
  rw [Bool.not_eq_true] at hr hp
  by_cases hd : ∃ d : Detail, d.name = t.title
  · obtain ⟨d, hd⟩ := hd
    cases hc : p.current with
    | some r => exact h.detail hd hc hq
    | none =>
      rw [result_read_other hr hp (Or.inl hc), Except.ok.injEq] at hq
      subst hq
      refine h.other hr hp (fun _ => rfl) ?_ (fun _ _ => rfl) h.nodup
      intro r o ho
      refine (h.kept r o ho).concat ?_
      intro d'
      rw [lastIn_concat, if_neg]
      intro hh
      rw [← h.current, hc] at hh
      cases hh.2.1
  · rw [not_exists] at hd
    rw [result_read_other hr hp (Or.inr hd), Except.ok.injEq] at hq
    subst hq
    refine h.other hr hp (fun _ => rfl) ?_ (fun _ _ => rfl) h.nodup
    intro r o ho
    exact (h.kept r o ho).concat (lastIn_concat_of_no_detail hd)

theorem Reads.refresh (h : Reads opts block pre p.current p)
    (hq : (refresh opts block p).result = .ok q) : Reads opts block pre none q := by
  cases hc : p.current with
  | none =>
    rw [refresh_eq_ok_of_none hc] at hq
    subst hq
    exact hc ▸ h
  | some r =>
    obtain ⟨rs, hrs, rfl⟩ := (refresh_eq_ok_of_some hc).mp hq
    refine ⟨h.current, h.parameters, ?_, ?_, ?_, h.groups, PathMap.nestedNodup_modify h.nodup _ _⟩
    · intro r'
      rw [PathMap.isSome_get?_modify, h.named r']
    · intro r' o ho
      rw [PathMap.get?_modify] at ho
      split at ho
      · obtain ⟨o', ho', rfl⟩ := Option.map_eq_some_iff.mp ho
        have hk := h.kept r' o' ho'
        exact ⟨hk.description, hk.tags, hk.detail, hk.details⟩
      · exact h.kept r' o ho
    · intro r' o ho _
      rw [PathMap.get?_modify] at ho
      split at ho
      · next hr' =>
        subst hr'
        obtain ⟨o', ho', rfl⟩ := Option.map_eq_some_iff.mp ho
        refine ⟨?_, hrs⟩
        rw [heard_of_current (h.current ▸ hc)]
        exact h.parameters
      · next hr' =>
        refine h.fresh r' o ho ?_
        rw [hc]
        exact fun e => hr' (Option.some.inj e)

/-- One annotation more. -/
theorem Reads.step (h : Reads opts block pre none p)
    (hq : (step opts block p t).result = .ok q) : Reads opts block (pre ++ [t]) none q := by
  obtain ⟨p', hp', hq⟩ := Report.result_bind_eq_ok.mp hq
  exact (h.read hp').refresh hq

theorem Reads.start : Reads opts block [] none {} := by
  refine ⟨rfl, rfl, fun _ => rfl, ?_, ?_, rfl, List.nodup_nil, by simp⟩
  · intro r o ho
    cases ho
  · intro r o ho
    cases ho

/-- The progress of a whole block. -/
theorem Reads.ofBlock {routes : Routes} (h : (ofBlock opts block).result = .ok routes) :
    ∃ p : Progress, p.routes = routes ∧ Reads opts block block.tags none p := by
  obtain ⟨p, hp, hr⟩ := Report.result_bind_eq_ok.mp h
  simp only [Report.result_pure, Except.ok.injEq] at hr
  exact ⟨p, hr, Report.foldlM_invariant (fun pre p => Reads opts block pre none p)
    (fun _ _ _ _ h hq => h.step hq) Reads.start hp⟩

/-! ## The fields of an operation -/

/-- The groups that an operation carries: the names of several, or the parts of a single one. -/
def operationGroups (tags : List Tag) : List String :=
  if 1 < (Group.named tags).length then (Group.named tags).map (·.name)
  else ((Group.named tags).headD Group.default).segments

theorem tagNames_ofTags (tags : List Tag) :
    Group.tagNames (Group.ofTags tags) = operationGroups tags := by
  unfold Group.ofTags operationGroups
  match Group.named tags with
  | [] => rfl
  | [_] => rfl
  | _ :: _ :: _ => simp [Group.tagNames]

/-- The fields that a block gives the operation of the route `r`. -/
structure OperationFields (opts : RouteOptions) (block : CommentBlock) (r : Route)
    (fields : Fields) : Prop where
  description : Assoc.get? "description" fields = some (.str (opts.format block.description))
  tags : Assoc.get? "tags" fields = some (.array ((operationGroups block.tags).map .str))
  responses : ∃ rs, (Response.ofTags opts.format opts.headerPolicy block.tags).result = .ok rs ∧
    Assoc.get? "responses" fields = some (.object (rs.map fun e => (e.1, e.2.toValue)))
  parameters : ∃ ps, ((heard r block.tags).filter Tag.isParam).mapM
      (Parameter.ofTag opts.format opts.defaultLocation) = .ok ps ∧
    Assoc.get? "parameters" fields = some (.array (ps.map .object))
  detail : ∀ d : Detail,
    match lastIn d.name r block.tags with
    | none => Assoc.get? d.name fields = none
    | some t => ∃ v, (d.value opts.format t.description).result = .ok v ∧
        Assoc.get? d.name fields = some v
  keys : ∀ k ∈ Assoc.keys fields,
    k ∈ ["parameters", "description", "tags", "responses"] ∨ ∃ d : Detail, k = d.name
  nodup : (Assoc.keys fields).Nodup

theorem Detail.name_injective : Function.Injective Detail.name := by
  intro d d' h
  cases d <;> cases d' <;> first | rfl | exact absurd h (by decide)

theorem get?_fields_detail (o : Operation) (d : Detail) :
    Assoc.get? d.name o.fields = Assoc.get? d o.details := by
  have h : Assoc.get? d.name o.fields =
      Assoc.get? d.name (o.details.map fun e => (e.1.name, e.2)) := by
    unfold Operation.fields
    cases d <;> rfl
  rw [h]
  exact (Assoc.get?_map Detail.name_injective id d o.details).trans (by simp)

theorem keys_fields (o : Operation) :
    Assoc.keys o.fields = ["parameters", "description", "tags", "responses"] ++
      (Assoc.keys o.details).map Detail.name := by
  simp [Assoc.keys, Operation.fields]

theorem operationFields_of_reads {r : Route} {o : Operation}
    (hk : Kept opts block block.tags r o) (hf : Fresh opts block block.tags r o) :
    OperationFields opts block r o.fields := by
  refine ⟨?_, ?_, ⟨o.responses, hf.responses, rfl⟩, ⟨o.parameters, hf.parameters, rfl⟩, ?_, ?_, ?_⟩
  · rw [← hk.description]
    rfl
  · rw [← tagNames_ofTags, ← hk.tags]
    rfl
  · intro d
    have hd := hk.detail d
    rw [get?_fields_detail]
    cases hl : lastIn d.name r block.tags with
    | none =>
      rw [hl] at hd
      exact (Except.ok.inj hd).symm
    | some t =>
      rw [hl] at hd
      simp only [Option.mapM_some] at hd
      obtain ⟨v, hv, hd⟩ := exists_of_map_ok hd
      exact ⟨v, hv, hd.symm⟩
  · intro k hk
    rw [keys_fields, List.mem_append, List.mem_map] at hk
    refine hk.imp_right ?_
    rintro ⟨d, -, hd⟩
    exact ⟨d, hd.symm⟩
  · rw [keys_fields, List.nodup_append]
    refine ⟨by decide, hk.details.map Detail.name_injective, ?_⟩
    intro a ha b hb
    obtain ⟨d, -, rfl⟩ := List.mem_map.mp hb
    rintro rfl
    revert ha
    cases d <;> decide

end Routes

namespace Contribution

/-- The operation that a contribution has for a uri and a method. -/
def operation? (uri method : String) (c : Contribution) : Option Value :=
  (Assoc.get? uri c.paths).bind (Assoc.get? method)

theorem paths_ofRoutes (routes : Routes) :
    (ofRoutes routes).paths =
      routes.paths.map fun e => (e.1, e.2.map fun o => (o.1, Value.object o.2.fields)) := rfl

theorem operation?_ofRoutes (routes : Routes) (r : Route) :
    (ofRoutes routes).operation? r.uri r.method =
      (routes.paths.get? r).map fun o => .object o.fields := by
  unfold operation? PathMap.get?
  rw [paths_ofRoutes, Assoc.get?_mapValues]
  cases Assoc.get? r.uri routes.paths with
  | none => rfl
  | some item => exact Assoc.get?_mapValues (fun o : Operation => Value.object o.fields) _ _

theorem nestedNodup_ofRoutes {routes : Routes} (h : Assoc.NestedNodup routes.paths) :
    Assoc.NestedNodup (ofRoutes routes).paths := by
  rw [paths_ofRoutes]
  refine ⟨?_, ?_⟩
  · rw [Assoc.keys_mapValues]
    exact h.1
  · intro e he
    obtain ⟨⟨uri, item⟩, hitem, rfl⟩ := List.mem_map.mp he
    have hkeys := Assoc.keys_mapValues (fun o : Operation => Value.object o.fields) item
    exact hkeys ▸ h.2 _ hitem

/-- A contribution is a model's or that of routes. -/
theorem of_ofBlock {opts : RouteOptions} {block : CommentBlock} {c : Contribution}
    (h : (ofBlock opts block).result = .ok (some c)) :
    (∃ m, (Model.ofTags opts.format block.tags).result = .ok m ∧ c = ofModel m) ∨
      ∃ routes, (Routes.ofBlock opts block).result = .ok routes ∧ c = ofRoutes routes := by
  unfold ofBlock at h
  split at h
  · obtain ⟨m, hm, hc⟩ := Report.result_bind_eq_ok.mp h
    simp only [Report.result_pure, Except.ok.injEq, Option.some.injEq] at hc
    exact Or.inl ⟨m, hm, hc.symm⟩
  · split at h
    · obtain ⟨routes, hr, hc⟩ := Report.result_bind_eq_ok.mp h
      simp only [Report.result_pure, Except.ok.injEq, Option.some.injEq] at hc
      exact Or.inr ⟨routes, hr, hc.symm⟩
    · obtain ⟨-, -, hc⟩ := Report.result_bind_eq_ok.mp h
      simp at hc

end Contribution

/-- **What a route block contributes.** If its annotations can be put together, there is one
operation for each route that a `route` annotation names and no other. Its parameters are those
heard up to the end of the last stretch of the route, each detail is the last one in its
stretches, and all else is the block's. Each `route` asks for the groups to be described. -/
theorem routes_of_block (opts : RouteOptions) (block : CommentBlock) {routes : Routes}
    (h : (Routes.ofBlock opts block).result = .ok routes) :
    (∀ uri method, ((Contribution.ofRoutes routes).operation? uri method).isSome ↔
      ∃ t ∈ block.tags, t.isRoute = true ∧ Route.parse t.description = ⟨method, uri⟩) ∧
    (∀ r o, (Contribution.ofRoutes routes).operation? r.uri r.method = some o →
      ∃ fields, o = .object fields ∧ Routes.OperationFields opts block r fields) ∧
    Assoc.NestedNodup (Contribution.ofRoutes routes).paths ∧
    (Contribution.ofRoutes routes).tags =
      ((block.tags.filter Tag.isRoute).flatMap fun _ => Routes.describedGroups opts block).map
        (fun g => [("name", g.name), ("description", g.description)]) ∧
    (Contribution.ofRoutes routes).definitions = [] := by
  obtain ⟨p, rfl, hp⟩ := Routes.Reads.ofBlock h
  refine ⟨?_, ?_, Contribution.nestedNodup_ofRoutes hp.nodup, ?_, rfl⟩
  · intro uri method
    rw [Contribution.operation?_ofRoutes p.routes ⟨method, uri⟩, Option.isSome_map, hp.named,
      List.any_eq_true]
    simp [Tag.names]
  · intro r o ho
    rw [Contribution.operation?_ofRoutes] at ho
    obtain ⟨o', ho', rfl⟩ := Option.map_eq_some_iff.mp ho
    exact ⟨o'.fields, rfl,
      Routes.operationFields_of_reads (hp.kept r o' ho') (hp.fresh r o' ho' (by simp))⟩
  · rw [← hp.groups]
    rfl

/-- A block that comes back to its first route after another one. -/
def petBlock : CommentBlock :=
  { description := "Pets."
    tags :=
      [{ title := "param", name := "limit.query" },
       { title := "route", description := "GET /pets" },
       { title := "summary", description := "List" },
       { title := "route", description := "POST /pets" },
       { title := "param", name := "pet.body.required" },
       { title := "route", description := "GET /pets" },
       { title := "operationId", description := "listPets" }] }

theorem routes_of_petBlock :
    ∃ routes, (Routes.ofBlock {} petBlock).result = .ok routes ∧
      ∃ fields, (Contribution.ofRoutes routes).operation? "/pets" "get" = some (.object fields) ∧
        Routes.OperationFields {} petBlock ⟨"get", "/pets"⟩ fields := by
  obtain ⟨routes, h⟩ : ∃ routes, (Routes.ofBlock {} petBlock).result = .ok routes := ⟨_, rfl⟩
  have hc := routes_of_block {} petBlock h
  have hsome := (hc.1 "/pets" "get").mpr
    ⟨{ title := "route", description := "GET /pets" }, by simp [petBlock], rfl, rfl⟩
  obtain ⟨o, ho⟩ := Option.isSome_iff_exists.mp hsome
  obtain ⟨fields, rfl, hf⟩ := hc.2.1 ⟨"get", "/pets"⟩ o ho
  exact ⟨routes, h, fields, ho, hf⟩

end AnnotatedApi
