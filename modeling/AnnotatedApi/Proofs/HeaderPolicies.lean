/-
  The headers of a block under either policy. Of the annotations of a block some count
  (`HeaderPolicy.heeded`): with `stop` those in front of the first malformed header, with `skip` all
  that are no malformed header. Step by step the headers that count are written one after another
  (`HeaderMap.result_collect`), so nothing else of a policy shows in the result, and where nothing
  is malformed the two policies do the same. Under each status code and name stands the header that
  was written last (`HeaderMap.get?_insertAll`), and no code stands there without a header, because
  a code comes with its first one (`HeaderMap.filled_insertAll`).

  `headers_by_policy` is the statement.
-/
import AnnotatedApi.Annotation.Header
import AnnotatedApi.Proofs.Assoc

namespace AnnotatedApi

namespace Header

/-- The header of an annotation that is meant to describe one and does. -/
def ofTag? (t : Tag) : Option Header :=
  if isHeaderTag t then (parse (some t.description)).toOption else none

/-- Whether an annotation is meant to describe a header and describes none. -/
def isMalformed (t : Tag) : Bool := isHeaderTag t && (parse (some t.description)).toOption.isNone

/-- The last header with the given code and name that annotations describe. -/
def last? (code name : String) (ts : List Tag) : Option Header :=
  ((ts.filterMap ofTag?).filter fun h => h.code = code && h.name = name).getLast?

end Header

/-! ## The annotations that count -/

namespace HeaderPolicy

/-- The annotations that count. -/
def heeded : HeaderPolicy → List Tag → List Tag
  | .stop, ts => ts.takeWhile fun t => !Header.isMalformed t
  | .skip, ts => ts.filter fun t => !Header.isMalformed t

theorem heeded_nil (policy : HeaderPolicy) : policy.heeded [] = [] := by
  cases policy <;> rfl

theorem heeded_cons {t : Tag} (ht : Header.isMalformed t = false) (policy : HeaderPolicy)
    (ts : List Tag) : policy.heeded (t :: ts) = t :: policy.heeded ts := by
  cases policy with
  | stop => rw [heeded, List.takeWhile_cons_of_pos (by simp [ht]), heeded]
  | skip => rw [heeded, List.filter_cons_of_pos (by simp [ht]), heeded]

theorem stop_heeded_cons {t : Tag} (ht : Header.isMalformed t = true) (ts : List Tag) :
    heeded .stop (t :: ts) = [] := by
  rw [heeded, List.takeWhile_cons_of_neg (by simp [ht])]

theorem skip_heeded_cons {t : Tag} (ht : Header.isMalformed t = true) (ts : List Tag) :
    heeded .skip (t :: ts) = heeded .skip ts := by
  rw [heeded, List.filter_cons_of_neg (by simp [ht]), heeded]

/-- No malformed header counts. -/
theorem not_isMalformed_of_mem_heeded {policy : HeaderPolicy} {ts : List Tag} {t : Tag}
    (ht : t ∈ policy.heeded ts) : Header.isMalformed t = false := by
  cases policy with
  | stop => simpa using List.all_eq_true.mp List.all_takeWhile t ht
  | skip => simpa using (List.mem_filter.mp ht).2

/-- Where no header is malformed all annotations count. -/
theorem heeded_eq_self {ts : List Tag} (h : ∀ t ∈ ts, Header.isMalformed t = false)
    (policy : HeaderPolicy) : policy.heeded ts = ts := by
  induction ts with
  | nil => exact heeded_nil policy
  | cons t ts ih =>
    rw [List.forall_mem_cons] at h
    rw [heeded_cons h.1, ih h.2]

/-- What counts for one policy counts for the other as well. -/
theorem heeded_heeded (policy policy' : HeaderPolicy) (ts : List Tag) :
    policy'.heeded (policy.heeded ts) = policy.heeded ts :=
  heeded_eq_self (fun _ ht => not_isMalformed_of_mem_heeded ht) policy'

end HeaderPolicy

/-! ## Headers written one after another -/

namespace HeaderMap

variable {code name : String}

/-- The header under a code and a name. -/
def get? (code name : String) (m : HeaderMap) : Option Header :=
  (Assoc.get? code m).bind (Assoc.get? name)

theorem get?_insert (h : Header) (m : HeaderMap) :
    get? code name (m.insert h) =
      if h.code = code ∧ h.name = name then some h else get? code name m :=
  Assoc.get?_set_inner h.code code h.name name h m

/-- Headers written one after another. -/
def insertAll (hs : List Header) (m : HeaderMap) : HeaderMap := hs.foldl (fun m h => m.insert h) m

theorem insertAll_cons (h : Header) (hs : List Header) (m : HeaderMap) :
    insertAll (h :: hs) m = insertAll hs (m.insert h) := rfl

/-- The header that was written last stands there, or else the one that stood there before. -/
theorem get?_insertAll (hs : List Header) (m : HeaderMap) :
    get? code name (insertAll hs m) =
      ((hs.filter fun h => h.code = code && h.name = name).getLast?).or (get? code name m) := by
  induction hs generalizing m with
  | nil => rfl
  | cons h hs ih =>
    rw [insertAll_cons, ih, get?_insert]
    by_cases hkey : h.code = code ∧ h.name = name
    · rw [if_pos hkey, List.filter_cons_of_pos (by simpa using hkey), List.getLast?_cons]
      cases (hs.filter fun h => h.code = code && h.name = name).getLast? <;> rfl
    · rw [if_neg hkey, List.filter_cons_of_neg (by simpa using hkey)]

/-- A mapping in which each code has headers, and each of them a name of its own. -/
structure Filled (m : HeaderMap) : Prop where
  headers : ∀ e ∈ m, e.2 ≠ []
  nodup : Assoc.NestedNodup m

theorem Filled.insert {m : HeaderMap} (hm : Filled m) (h : Header) : Filled (m.insert h) := by
  refine ⟨fun e he => ?_, hm.nodup.set_inner h.code h.name h⟩
  obtain rfl | he := Assoc.mem_set he
  · intro hnil
    have hget := Assoc.get?_set_self h.name h ((Assoc.get? h.code m).getD [])
    dsimp only at hnil
    rw [hnil] at hget
    cases hget
  · exact hm.headers e he

theorem filled_insertAll (hs : List Header) : Filled (insertAll hs []) := by
  have hstart : Filled [] := ⟨fun e he => (List.not_mem_nil he).elim, List.nodup_nil,
    fun e he => (List.not_mem_nil he).elim⟩
  exact List.foldlRecOn (motive := Filled) hs _ hstart fun _ hm h _ => hm.insert h

/-! ## What is collected -/

/-- The headers of the annotations that count are collected, whatever the annotations are. -/
theorem result_collect (ε : Type) (policy : HeaderPolicy) (m : HeaderMap) (ts : List Tag) :
    (collect policy m ts : Report ε HeaderMap).result =
      .ok (insertAll ((policy.heeded ts).filterMap Header.ofTag?) m) := by
  induction ts generalizing m with
  | nil =>
    rw [HeaderPolicy.heeded_nil]
    rfl
  | cons t ts ih =>
    rw [collect]
    by_cases htag : Header.isHeaderTag t = true
    · rw [if_pos htag]
      cases hparse : Header.parse (some t.description) with
      | ok h =>
        have ht : Header.isMalformed t = false := by
          rw [Header.isMalformed, hparse, htag]
          rfl
        have hsome : Header.ofTag? t = some h := by
          rw [Header.ofTag?, if_pos htag, hparse]
          rfl
        rw [HeaderPolicy.heeded_cons ht, List.filterMap_cons_some hsome]
        exact ih (m.insert h)
      | error e =>
        have ht : Header.isMalformed t = true := by
          rw [Header.isMalformed, hparse, htag]
          rfl
        cases policy with
        | stop =>
          rw [HeaderPolicy.stop_heeded_cons ht]
          rfl
        | skip =>
          rw [HeaderPolicy.skip_heeded_cons ht, ← ih m, Report.result_bind]
          rfl
    · have ht : Header.isMalformed t = false := by simp [Header.isMalformed, htag]
      have hnone : Header.ofTag? t = none := if_neg htag
      rw [if_neg htag, HeaderPolicy.heeded_cons ht, List.filterMap_cons_none hnone]
      exact ih m

/-- Headers are read whatever the annotations are. -/
theorem exists_collect (ε : Type) (policy : HeaderPolicy) (m : HeaderMap) (ts : List Tag) :
    ∃ headers, (collect policy m ts : Report ε HeaderMap).result = .ok headers :=
  ⟨_, result_collect ε policy m ts⟩

/-- To read the annotations that count is to read them all, and either policy will do. -/
theorem result_ofTags_heeded (ε : Type) (policy policy' : HeaderPolicy) (ts : List Tag) :
    (ofTags policy' (policy.heeded ts) : Report ε HeaderMap).result =
      (ofTags policy ts : Report ε HeaderMap).result := by
  rw [ofTags, ofTags, result_collect, result_collect, HeaderPolicy.heeded_heeded]

end HeaderMap

/-- **The policies differ in what they drop, and in nothing else.** To stop at the first malformed
header is to skip them in what stands before it, and to skip them is to stop in what is left without
them. Neither policy fails on any annotations. With either, under each status code and name stands
the last header with this code and name of the annotations that count, and nothing if there is none;
no code stands there without a header, and none, nor a name under one code, stands there twice. -/
theorem headers_by_policy (ε : Type) (tags : List Tag) :
    (HeaderMap.ofTags .stop tags : Report ε HeaderMap).result =
      (HeaderMap.ofTags .skip (tags.takeWhile fun t => !Header.isMalformed t) :
        Report ε HeaderMap).result ∧
    (HeaderMap.ofTags .skip tags : Report ε HeaderMap).result =
      (HeaderMap.ofTags .stop (tags.filter fun t => !Header.isMalformed t) :
        Report ε HeaderMap).result ∧
    ∀ policy : HeaderPolicy, ∃ m,
      (HeaderMap.ofTags policy tags : Report ε HeaderMap).result = .ok m ∧
      (∀ code name, HeaderMap.get? code name m = Header.last? code name (policy.heeded tags)) ∧
      (∀ code headers, (code, headers) ∈ m → headers ≠ []) ∧ Assoc.NestedNodup m := by
  refine ⟨?_, ?_, fun policy => ?_⟩
  · exact (HeaderMap.result_ofTags_heeded ε .stop .skip tags).symm
  · exact (HeaderMap.result_ofTags_heeded ε .skip .stop tags).symm
  · have hfilled := HeaderMap.filled_insertAll ((policy.heeded tags).filterMap Header.ofTag?)
    refine ⟨_, HeaderMap.result_collect ε policy [] tags, fun code name => ?_,
      fun code headers hmem => hfilled.headers (code, headers) hmem, hfilled.nodup⟩
    rw [HeaderMap.get?_insertAll, Header.last?]
    exact Option.or_none

/-- Headers with one code on both sides of a malformed one. -/
example :
    ((HeaderMap.ofTags .stop
        [{ title := "header", description := "200.A - integer" },
         { title := "headers", description := "200" },
         { title := "header", description := "200.A - string" }] :
      Report Unit HeaderMap).result.toOption.bind (HeaderMap.get? "200" "A")).map (·.type) =
        some "integer" := by
  decide +kernel

end AnnotatedApi
