/-
  Documents that take any contribution and can be written when they have. The sections of such a
  document take any contribution, and all that stands in it can be written (`Entries.Ready`). A
  contribution that can be written leaves what can be written (`Merge.writable_entries`), so a block
  of sound annotations leaves a document that takes any contribution again, unless it is refused
  with a report. At last the groups are sorted. So a base definition whose skeleton is ready comes
  to a document that can be written, or to a report (`Generator.ends_generateStamped`).
-/
import AnnotatedApi.Proofs.Assembly
import AnnotatedApi.Proofs.Sharing

namespace AnnotatedApi

variable {f : Format}

/-- Entries that can be written. -/
def Entries.WritableIn (f : Format) (d : Entries) : Prop := Value.writableInEntries f d = true

/-- A document that takes any contribution and can be written when it has. -/
structure Entries.Ready (f : Format) (d : Entries) : Prop where
  sections : (Sections.of d).Open
  writable : d.WritableIn f

/-! ## What is written into a document -/

namespace Entries

variable {d : Entries} {key : String} {v : Value}

theorem writable_set (h : d.WritableIn f) (hv : v.writableIn f = true) :
    (d.set key v).WritableIn f :=
  Value.writableInEntries_settle
    (Value.writableInEntries_set h (Value.keyWritableIn_str f key) hv) hv

/-- A value in which an object has taken a new state everywhere. -/
theorem writable_settle_set (h : d.WritableIn f) (hv : v.writableIn f = true) {item : Value}
    (hitem : item.writableIn f = true) :
    Entries.WritableIn f (Value.settle item (d.set key v)) :=
  Value.writableInEntries_settle (writable_set h hv) hitem

/-- What stands under a key is written back. -/
theorem writable_writtenBack (h : d.WritableIn f) (hv : d.get? key = some v) :
    (d.set key v).WritableIn f :=
  writable_set h (Value.writableIn_of_get? h hv)

theorem writableIn_empty :
    (Value.map none []).writableIn f = true ∧ (Value.list none []).writableIn f = true := by
  rw [Value.writableIn, Value.writableIn]
  exact ⟨rfl, rfl⟩

theorem writable_ensure (h : d.WritableIn f) (hv : v.writableIn f = true) :
    (d.ensure key v).WritableIn f := by
  unfold ensure
  split
  · exact h
  · exact writable_set h hv

end Entries

namespace Merge

variable {d : Entries}

theorem writable_setItem (h : d.WritableIn f) (uri : String) {item : Value}
    (hitem : item.writableIn f = true) :
    Entries.WritableIn f (setItem uri item d) := by
  unfold setItem
  split
  · next l paths hpaths =>
    have hp := Value.writableIn_of_get? h hpaths
    rw [Value.writableIn] at hp
    have hset : Entries.WritableIn f (Value.settle item
        (d.set "paths" (.map l (Assoc.set (.str uri) item paths)))) := by
      refine Entries.writable_settle_set h ?_ hitem
      rw [Value.writableIn]
      exact Value.writableInEntries_set hp (Value.keyWritableIn_str f uri) hitem
    dsimp only
    split
    · next v hv => exact Entries.writable_writtenBack hset hv
    · exact hset
  · exact h

theorem writable_addOperation (uri : String) {op : String × Value}
    (h : d.WritableIn f) (hop : op.2.writableIn f = true) :
    Entries.WritableIn f (addOperation uri d op).state := by
  unfold addOperation
  split
  · exact h
  · next existing hexisting =>
    split
    · exact h
    · dsimp only
      split
      · next l item =>
        refine writable_setItem h uri ?_
        unfold item? at hexisting
        split at hexisting
        · next l' paths hpaths =>
          have hp := Value.writableIn_of_get? h hpaths
          rw [Value.writableIn] at hp
          have hi := Value.writableIn_of_get? hp hexisting
          rw [Value.writableIn] at hi ⊢
          exact Value.writableInEntries_set hi (Value.keyWritableIn_str f op.1) hop
        · cases hexisting
      · exact h

theorem writable_addPath {path : String × List (String × Value)}
    (h : d.WritableIn f) (hops : ∀ op ∈ path.2, op.2.writableIn f = true) :
    Entries.WritableIn f (addPath d path).state := by
  unfold addPath
  split
  · dsimp only
    refine Edit.each_keeps (P := Entries.WritableIn f)
      (fun d op hop h => writable_addOperation path.1 h (hops op hop)) ?_
    split
    · exact h
    · exact writable_setItem h path.1 rfl
  · exact h

theorem writableIn_tagValue (tag : List (String × String)) :
    (tagValue tag).writableIn f = true := by
  refine Value.writableIn_object fun e he => ?_
  obtain ⟨field, -, rfl⟩ := List.mem_map.mp he
  exact Value.writableIn_str f field.2

theorem writable_describe (tag : List (String × String)) (l : Option Label) (i : Nat)
    {tags : List Value} (h : d.WritableIn f)
    (ht : ∀ t ∈ tags, t.writableIn f = true) :
    Entries.WritableIn f (describe tag l i tags d).state := by
  unfold describe
  split
  · next m es hi =>
    split
    · exact h
    · split
      · exact h
      · next text htext =>
        have hentry : (Value.map m (Assoc.set (.str "description") (.str text) es)).writableIn f =
            true := by
          have hes := ht _ (List.mem_of_getElem? hi)
          rw [Value.writableIn] at hes ⊢
          exact Value.writableInEntries_set hes (Value.keyWritableIn_str f _)
            (Value.writableIn_str f _)
        have hset : Entries.WritableIn f (Value.settle
            (.map m (Assoc.set (.str "description") (.str text) es))
            (setTags (.list l (tags.set i
              (.map m (Assoc.set (.str "description") (.str text) es)))) d)) := by
          refine Entries.writable_settle_set h ?_ hentry
          rw [Value.writableIn, Value.writableInList_iff]
          intro t hmem
          rcases List.mem_or_eq_of_mem_set hmem with hmem | rfl
          · exact ht t hmem
          · exact hentry
        dsimp only
        split
        · next v hv => exact Entries.writable_writtenBack hset hv
        · exact hset
  · exact h

theorem writable_addTag (dedupe : Bool) (tag : List (String × String))
    (h : d.WritableIn f) :
    Entries.WritableIn f (addTag dedupe d tag).state := by
  unfold addTag
  split
  · next l tags htags =>
    have ht := Value.writableIn_of_get? h htags
    rw [Value.writableIn, Value.writableInList_iff] at ht
    have happended : Entries.WritableIn f (setTags (.list l (tags ++ [tagValue tag])) d) := by
      refine Entries.writable_set h ?_
      rw [Value.writableIn, Value.writableInList_iff]
      intro t hmem
      rcases List.mem_append.mp hmem with hmem | hmem
      · exact ht t hmem
      · rw [List.mem_singleton.mp hmem]
        exact writableIn_tagValue tag
    dsimp only
    split
    · split
      · exact h
      · exact writable_describe tag l _ h ht
      · exact happended
    · exact happended
  · exact h
  · exact h

theorem writable_addDefinitions {definitions : List (String × Value)}
    (h : d.WritableIn f)
    (hdefs : ∀ e ∈ definitions, e.2.writableIn f = true) :
    Entries.WritableIn f (addDefinitions definitions d).state := by
  unfold addDefinitions
  split
  · next l es hes =>
    have he := Value.writableIn_of_get? h hes
    rw [Value.writableIn] at he
    refine Entries.writable_set h ?_
    rw [Value.writableIn]
    exact List.foldlRecOn (motive := Entries.WritableIn f) definitions _ he fun es hes e hmem =>
      Value.writableInEntries_set hes (Value.keyWritableIn_str f e.1) (hdefs e hmem)
  · next l vs hvs =>
    have hv := Value.writableIn_of_get? h hvs
    rw [Value.writableIn] at hv
    refine Entries.writable_set h ?_
    rw [Value.writableIn]
    refine List.foldlRecOn (motive := fun vs => Value.spellableList vs = true) definitions _ hv ?_
    intro vs hvs e _
    split
    · exact hvs
    · exact Value.spellableList_append hvs rfl
  · exact h

/-- A contribution that can be written leaves what can be written. -/
theorem writable_entries (dedupe : Bool) {c : Contribution}
    (h : d.WritableIn f) (hc : c.WritableIn f) :
    Entries.WritableIn f (entries dedupe c d).state := by
  unfold entries
  refine Edit.andThen_keeps (P := Entries.WritableIn f)
    (Edit.andThen_keeps (P := Entries.WritableIn f) ?_ fun d h => ?_) fun d h => ?_
  · exact Edit.each_keeps (fun d path hpath h => writable_addPath h (hc.paths path hpath))
      (Entries.writable_ensure h Entries.writableIn_empty.1)
  · exact Edit.each_keeps (fun d tag _ h => writable_addTag dedupe tag h)
      (Entries.writable_ensure h Entries.writableIn_empty.2)
  · exact writable_addDefinitions (Entries.writable_ensure h Entries.writableIn_empty.1)
      hc.definitions

end Merge

/-! ## Contributions -/

namespace Contribution

theorem writableIn_inEntry {key : String} {change : Value → Value}
    (hchange : ∀ v, v.writableIn f = true → (change v).writableIn f = true) {v : Value}
    (h : v.writableIn f = true) : (inEntry key change v).writableIn f = true := by
  cases v with
  | map l es =>
    rw [inEntry]
    rw [Value.writableIn, Value.writableInEntries_iff] at h ⊢
    intro e he
    obtain ⟨e', he', rfl⟩ := List.mem_map.mp he
    refine ⟨(h e' he').1, ?_⟩
    dsimp only
    split
    · exact hchange _ (h e' he').2
    · exact (h e' he').2
  | _ => exact h

theorem writableIn_stampList (label : Nat → Label) {v : Value} (h : v.writableIn f = true) :
    (stampList label v).writableIn f = true := by
  cases v with
  | list l vs =>
    rw [stampList]
    rw [Value.writableIn, Value.writableInList_iff] at h ⊢
    intro w hw
    obtain ⟨⟨v, i⟩, hv, rfl⟩ := List.mem_map.mp hw
    dsimp only
    rw [Value.writableIn_named, Value.writableIn_relabel]
    exact h v (List.fst_mem_of_mem_zipIdx hv)
  | _ => exact h

theorem writableIn_stampEntries (label : Nat → Label) {v : Value} (h : v.writableIn f = true) :
    (stampEntries label v).writableIn f = true := by
  cases v with
  | map l es =>
    rw [stampEntries]
    rw [Value.writableIn, Value.writableInEntries_iff] at h ⊢
    intro e he
    obtain ⟨⟨e', i⟩, he', rfl⟩ := List.mem_map.mp he
    have hmem := h e' (List.fst_mem_of_mem_zipIdx he')
    exact ⟨hmem.1, by rw [Value.writableIn_relabel]; exact hmem.2⟩
  | _ => exact h

/-- Labels do not bear on what can be written. -/
theorem WritableIn.stamp {c : Contribution} (h : c.WritableIn f) (n : Nat) :
    (c.stamp n).WritableIn f := by
  refine ⟨?_, ?_⟩
  · intro path hpath op hop
    obtain ⟨⟨⟨uri, item⟩, i⟩, hitem, rfl⟩ := List.mem_map.mp hpath
    obtain ⟨⟨⟨method, o⟩, j⟩, ho, rfl⟩ := List.mem_map.mp hop
    have hw := h.paths _ (List.fst_mem_of_mem_zipIdx hitem) _ (List.fst_mem_of_mem_zipIdx ho)
    exact writableIn_inEntry (fun v => writableIn_stampEntries _)
      (writableIn_inEntry (fun v => writableIn_stampList _) hw)
  · intro e he
    obtain ⟨⟨name, d⟩, hd, rfl⟩ := List.mem_map.mp he
    exact writableIn_inEntry (fun v => writableIn_stampEntries _) (h.definitions _ hd)

/-- The definitions of a block are mappings of their own, also with labels for what is in them. -/
theorem isOwnMap_ofBlock {opts : RouteOptions} {block : CommentBlock} {c : Contribution}
    (h : (ofBlock opts block).result = .ok (some c)) (n : Nat) :
    ∀ e ∈ (c.stamp n).definitions, e.2.IsOwnMap := by
  intro e he
  obtain ⟨x, hx, rfl⟩ := List.mem_map.mp he
  rcases of_ofBlock h with ⟨m, -, rfl⟩ | ⟨routes, -, rfl⟩
  · obtain rfl := List.mem_singleton.mp hx
    exact ⟨_, rfl⟩
  · cases hx

end Contribution

/-! ## Documents -/

namespace Generator

/-- A document that fits its roles and can be written. -/
def Fitting (r : Roles) (f : Format) (v : Value) : Prop :=
  ∃ (l : Option Label) (d : Entries), v = .map l d ∧ d.Fits r ∧ d.WritableIn f

variable {r : Roles}

/-- Such a document takes a block of sound annotations, or refuses it with a report. -/
theorem ends_addPrepared (ha : r.Apart) (opts : GenerateOptions) {block : CommentBlock} (n : Nat)
    (hb : block.isSound f = true) {v : Value} (hv : Fitting r f v) :
    Ends (Fitting r f) (fun e => e.isReported = true)
      (addPrepared (Contribution.stamp n) opts v block).toReport.result := by
  have hblock := Contribution.ends_ofBlock opts.toRouteOptions hb
  unfold addPrepared
  dsimp only
  split
  · next e he =>
    rw [he, ends_error] at hblock
    exact .error hblock
  · exact .ok hv
  · next c hc =>
    rw [hc, ends_ok] at hblock
    obtain ⟨l, d, rfl, hfits, hwritable⟩ := hv
    have hdesc : ∀ t ∈ (c.stamp n).tags, Groups.Described t := fun t ht =>
      Contribution.described_ofBlock hc t ht
    obtain ⟨herr, hfits⟩ :=
      hfits.entries ha hdesc (Contribution.isOwnMap_ofBlock hc n) opts.dedupe
    unfold Edit.toReport merge
    simp only [herr, Option.map_none]
    exact .ok ⟨l, _, rfl, hfits,
      Merge.writable_entries opts.dedupe hwritable ((hblock c rfl).stamp n)⟩

theorem exists_finalize {v : Value} (h : Fitting r f v) :
    ∃ doc, finalize v = .ok doc ∧ doc.writableIn f = true := by
  obtain ⟨l, d, rfl, hfits, hwritable⟩ := h
  obtain ⟨v, hv, ts, rfl, hgroups⟩ := hfits.tags
  obtain ⟨us, hsorted, hperm⟩ := Finish.exists_sorted fun t ht => (hgroups t ht).sortable
  have hitems : Finish.items? (Sections.of d).tags = some ts := by
    rw [Sections.tags_of hv]
    rfl
  have hentries : Finish.entries d = .ok (d.put "tags" (.list none us)) :=
    Finish.entries_eq_ok.mpr ⟨ts, us, hitems, hsorted, rfl⟩
  refine ⟨_, finalize_eq_ok.mpr ⟨_, hentries, rfl⟩, ?_⟩
  rw [Value.writableIn]
  refine Value.writableInEntries_set hwritable (Value.keyWritableIn_str f _) ?_
  have htags := Value.writableIn_of_get? hwritable hv
  rw [Value.writableIn, Value.writableInList_iff] at htags ⊢
  exact fun t ht => htags t (hperm.subset ht)

/-- Paths and definitions of a document have a size if those of the skeleton take contributions. -/
theorem isSizedAt_of_open {opts : GenerateOptions} {l : Option Label} {d : Entries}
    (hd : (Sections.of (Skeleton.entries d)).Open) {blocks : List CommentBlock} {doc : Value}
    (h : (generateStamped opts (.map l d) blocks).result = .ok doc) {key : String}
    (hkey : key ∈ ["paths", "definitions"]) : IsSizedAt key doc := by
  refine isSizedAt_of_skeleton (fun v hv => ?_) h
  cases hv
  rcases List.mem_pair.mp hkey with rfl | rfl
  · obtain ⟨v, hv, -⟩ := (Skeleton.skeletal_entries d).sections "paths" (by decide)
    obtain ⟨m, ps, hps⟩ := hd.paths
    refine ⟨l, _, rfl, v, hv, ?_⟩
    rw [← Sections.paths_of hv, hps]
    rfl
  · obtain ⟨v, hv, -⟩ := (Skeleton.skeletal_entries d).sections "definitions" (by decide)
    refine ⟨l, _, rfl, v, hv, ?_⟩
    rw [← Sections.definitions_of hv]
    rcases hd.definitions with ⟨m, es, hes⟩ | ⟨m, vs, hvs⟩
    · rw [hes]
      rfl
    · rw [hvs]
      rfl

/-- A base definition whose skeleton is ready and blocks of sound annotations come to a document
that can be written and counted, or to a report. -/
theorem ends_generateStamped (opts : GenerateOptions) {l : Option Label} {d : Entries}
    (hd : (Skeleton.entries d).Ready f) (hc : (Value.map l d).Coherent) {blocks : List CommentBlock}
    (hb : ∀ b ∈ blocks, b.isSound f = true) :
    Ends (fun doc => doc.writableIn f = true ∧
        ∀ key ∈ ["paths", "definitions"], IsSizedAt key doc)
      (fun e => e.isReported = true) (generateStamped opts (.map l d) blocks).result := by
  have hcoherent := Sections.coherent_of_get? hc fun key => Skeleton.get?_entries key d
  have ha := hd.sections.apart_roles hcoherent
  have hfits := hd.sections.fits hcoherent (Skeleton.skeletal_entries d)
  have hend : Ends (fun doc => doc.writableIn f = true) (fun e => e.isReported = true)
      (generateStamped opts (.map l d) blocks).result := by
    unfold generateStamped produce
    refine Report.ends_bind (P := Fitting (Sections.of (Skeleton.entries d)).roles f)
      (.ok ⟨l, _, rfl, hfits, hd.writable⟩) fun v hv => ?_
    refine Report.ends_bind (P := Fitting (Sections.of (Skeleton.entries d)).roles f) ?_
      fun v hv => ?_
    · rw [Edit.result_each]
      refine ends_foldlM (fun v b hmem hv => ?_) hv
      have hblock := (List.mem_filter.mp (List.fst_mem_of_mem_zipIdx hmem)).1
      exact ends_addPrepared ha opts b.2 (hb b.1 hblock) hv
    · obtain ⟨doc, hdoc, hw⟩ := exists_finalize hv
      rw [hdoc]
      exact .ok hw
  cases hdoc : (generateStamped opts (.map l d) blocks).result with
  | error e =>
    rw [hdoc, ends_error] at hend
    exact .error hend
  | ok doc =>
    rw [hdoc, ends_ok] at hend
    exact .ok ⟨hend, fun key hkey => isSizedAt_of_open hd.sections hdoc hkey⟩

end Generator

end AnnotatedApi
