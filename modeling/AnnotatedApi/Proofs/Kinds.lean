/-
  Kinds of annotations. The groups, the headers and the responses of a block are read from all of
  its annotations, but each looks only at those of its own kind, in their order
  (`Group.ofTags_congr`, `HeaderMap.ofTags_filter`, `Response.ofTags_congr`). Of all the rest
  neither the number nor the place counts.
-/
import AnnotatedApi.Proofs.Stretches

namespace AnnotatedApi

/-- The kinds of annotations that say something about the operation of a route. -/
inductive Tag.Kind where
  | param
  | group
  | response
  | header
  | detail (d : Detail)
deriving DecidableEq

/-- Whether an annotation is of a kind. -/
def Tag.isOf (k : Tag.Kind) (t : Tag) : Bool :=
  match k with
  | .param => t.isParam
  | .group => t.title = "group"
  | .response => Response.isResponseTag t
  | .header => Header.isHeaderTag t
  | .detail d => t.title = d.name

variable {ts us : List Tag}

theorem Group.ofTags_congr (h : ts.filter (Tag.isOf .group) = us.filter (Tag.isOf .group)) :
    Group.ofTags ts = Group.ofTags us := by
  have hgroups : (ts.filter fun t => t.title = "group") = us.filter fun t => t.title = "group" := h
  unfold Group.ofTags Group.named
  rw [hgroups]

theorem HeaderMap.collect_filter {ε : Type} (policy : HeaderPolicy) (m : HeaderMap)
    (ts : List Tag) :
    (collect policy m (ts.filter Header.isHeaderTag) : Report ε HeaderMap) =
      collect policy m ts := by
  induction ts generalizing m with
  | nil => rfl
  | cons t ts ih =>
    by_cases ht : Header.isHeaderTag t = true
    · rw [List.filter_cons_of_pos ht, collect, collect, if_pos ht, if_pos ht]
      cases Header.parse (some t.description) with
      | ok h => exact ih (m.insert h)
      | error e =>
        cases policy with
        | skip => simp only [ih]
        | stop => rfl
    · rw [List.filter_cons_of_neg ht, collect, if_neg ht]
      exact ih m

theorem HeaderMap.ofTags_filter {ε : Type} (policy : HeaderPolicy) (ts : List Tag) :
    (ofTags policy (ts.filter Header.isHeaderTag) : Report ε HeaderMap) = ofTags policy ts :=
  collect_filter policy [] ts

/-- Headers are found wherever they stand among the responses. -/
theorem Response.ofTags_congr (format : String → String) (policy : HeaderPolicy)
    (hh : ts.filter (Tag.isOf .header) = us.filter (Tag.isOf .header))
    (hr : ts.filter (Tag.isOf .response) = us.filter (Tag.isOf .response)) :
    Response.ofTags format policy ts = Response.ofTags format policy us := by
  have hheaders : (HeaderMap.ofTags policy ts : Report AssemblyError HeaderMap) =
      HeaderMap.ofTags policy us := by
    rw [← HeaderMap.ofTags_filter policy ts, ← HeaderMap.ofTags_filter policy us]
    exact congrArg (HeaderMap.ofTags policy) hh
  have hresponses : ts.filter isResponseTag = us.filter isResponseTag := hr
  unfold Response.ofTags
  rw [hheaders, hresponses]

end AnnotatedApi
