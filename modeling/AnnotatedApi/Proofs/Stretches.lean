/-
  The annotations of a block as its routes see them. A `route` annotation starts a stretch of
  the route it names, which goes on to the next `route`. For a route `r` two parts of a block
  count: the annotations in its stretches (`stretches`), and all annotations up to the end of its
  last stretch (`heard`). What one more annotation does to these parts depends on the route that
  is current behind it (`currentFrom`): a current route has heard all annotations
  (`heard_of_current`), and one that is not current hears no more (`heard_concat_of_not_current`).
-/
import AnnotatedApi.Annotation.Operation
import Mathlib.Data.List.Induction
import Mathlib.Data.List.TakeWhile

namespace AnnotatedApi

namespace Tag

def isRoute (t : Tag) : Bool := t.title = "route"

def isParam (t : Tag) : Bool := t.title = "param"

/-- Whether the annotation is a `route` that names `r`. -/
def names (r : Route) (t : Tag) : Bool := t.isRoute && decide (Route.parse t.description = r)

theorem names_of_isRoute {t : Tag} (h : t.isRoute = true) (r : Route) :
    t.names r = true ↔ Route.parse t.description = r := by
  simp [names, h]

theorem isRoute_of_names {r : Route} {t : Tag} (h : t.names r = true) : t.isRoute = true := by
  simp only [names, Bool.and_eq_true] at h
  exact h.1

end Tag

namespace Routes

/-- The route that is current behind the annotations, if `cur` is current before them. -/
def currentFrom (cur : Option Route) : List Tag → Option Route
  | [] => cur
  | t :: ts => currentFrom (if t.isRoute then some (Route.parse t.description) else cur) ts

/-- The annotations in the stretches of `r`: those after a `route` that names it and before the
next `route`. -/
def stretches (r : Route) (cur : Option Route) : List Tag → List Tag
  | [] => []
  | t :: ts =>
    if t.isRoute then stretches r (some (Route.parse t.description)) ts
    else if cur = some r then t :: stretches r cur ts
    else stretches r cur ts

/-- The annotations before the first `route` that follows the last one naming `r`; all of them if
none follows. -/
def heard (r : Route) : List Tag → List Tag
  | [] => []
  | t :: ts =>
    if ts.any (Tag.names r) then t :: heard r ts
    else if t.names r then t :: ts.takeWhile fun s => !s.isRoute
    else []

theorem currentFrom_concat (cur : Option Route) (ts : List Tag) (t : Tag) :
    currentFrom cur (ts ++ [t]) =
      if t.isRoute then some (Route.parse t.description) else currentFrom cur ts := by
  induction ts generalizing cur with
  | nil => rfl
  | cons s ts ih => exact ih _

theorem stretches_concat (r : Route) (cur : Option Route) (ts : List Tag) (t : Tag) :
    stretches r cur (ts ++ [t]) =
      stretches r cur ts ++
        if !t.isRoute && decide (currentFrom cur ts = some r) then [t] else [] := by
  induction ts generalizing cur with
  | nil =>
    simp only [List.nil_append, stretches, currentFrom]
    by_cases ht : t.isRoute = true <;> by_cases hc : cur = some r <;> simp [ht, hc]
  | cons s ts ih =>
    simp only [List.cons_append, stretches, currentFrom, ih]
    by_cases hs : s.isRoute = true
    · simp [hs]
    · by_cases hc : cur = some r <;> simp [hs, hc]

/-- Without a `route` the current one stays. -/
theorem currentFrom_of_no_route (cur : Option Route) {ts : List Tag}
    (h : ∀ t ∈ ts, t.isRoute = false) : currentFrom cur ts = cur := by
  induction ts with
  | nil => rfl
  | cons t ts ih =>
    have ht : t.isRoute = false := h t List.mem_cons_self
    rw [currentFrom, ht]
    exact ih fun s hs => h s (List.mem_cons_of_mem _ hs)

/-- Behind a `route` it does not matter what was current before. -/
theorem currentFrom_of_route (cur : Option Route) {ts : List Tag}
    (h : ∃ t ∈ ts, t.isRoute = true) : currentFrom cur ts = currentFrom none ts := by
  induction ts generalizing cur with
  | nil =>
    obtain ⟨t, ht, -⟩ := h
    cases ht
  | cons t ts ih =>
    by_cases ht : t.isRoute = true
    · simp only [currentFrom, ht, if_true]
    · obtain ⟨s, hs, hsr⟩ := h
      rcases List.mem_cons.mp hs with rfl | hs
      · exact absurd hsr ht
      · simp only [currentFrom, ht]
        exact ih cur ⟨s, hs, hsr⟩

/-- What becomes current is named by an annotation. -/
theorem any_names_of_currentFrom {r : Route} {ts : List Tag} (h : currentFrom none ts = some r) :
    ts.any (Tag.names r) = true := by
  induction ts using List.reverseRecOn with
  | nil => simp [currentFrom] at h
  | append_singleton ts t ih =>
    rw [currentFrom_concat] at h
    rw [List.any_append]
    by_cases ht : t.isRoute = true
    · rw [if_pos ht] at h
      simp [(Tag.names_of_isRoute ht r).mpr (Option.some.inj h)]
    · rw [if_neg ht] at h
      simp [ih h]

/-- A `route` further on stops the annotations taken up to the next one. -/
theorem takeWhile_concat_of_route {ts : List Tag} (t : Tag) (h : ∃ s ∈ ts, s.isRoute = true) :
    (ts ++ [t]).takeWhile (fun s => !s.isRoute) = ts.takeWhile fun s => !s.isRoute := by
  rw [List.takeWhile_append, if_neg]
  intro hlen
  obtain ⟨s, hs, hroute⟩ := h
  have hall : ts.takeWhile (fun s => !s.isRoute) = ts :=
    (List.takeWhile_prefix _).eq_of_length hlen
  have := List.takeWhile_eq_self_iff.mp hall s hs
  simp [hroute] at this

theorem heard_concat_of_names {r : Route} (ts : List Tag) {t : Tag} (h : t.names r = true) :
    heard r (ts ++ [t]) = ts ++ [t] := by
  induction ts with
  | nil => simp [heard, h]
  | cons s ts ih =>
    have : (ts ++ [t]).any (Tag.names r) = true := by simp [h]
    rw [List.cons_append, heard, if_pos this, ih]

/-- A `route` that names another route ends the last stretch. -/
theorem heard_concat_of_route {r : Route} (ts : List Tag) {t : Tag} (ht : t.isRoute = true)
    (h : t.names r = false) : heard r (ts ++ [t]) = heard r ts := by
  induction ts with
  | nil => simp [heard, h]
  | cons s ts ih =>
    have hany : (ts ++ [t]).any (Tag.names r) = ts.any (Tag.names r) := by simp [h]
    have htake : (ts ++ [t]).takeWhile (fun s => !s.isRoute) =
        ts.takeWhile fun s => !s.isRoute := by
      rw [List.takeWhile_append]
      split
      · next hlen =>
        have hall : ts.takeWhile (fun s => !s.isRoute) = ts :=
          (List.takeWhile_prefix _).eq_of_length hlen
        simp [ht, hall]
      · rfl
    rw [List.cons_append, heard, heard, hany, ih, htake]

/-- Any other annotation is heard where `r` is current. -/
theorem heard_concat_other {r : Route} (ts : List Tag) {t : Tag} (ht : t.isRoute = false) :
    heard r (ts ++ [t]) = if currentFrom none ts = some r then ts ++ [t] else heard r ts := by
  have hn : t.names r = false := by simp [Tag.names, ht]
  induction ts with
  | nil => simp [heard, hn, currentFrom]
  | cons s ts ih =>
    have hany : (ts ++ [t]).any (Tag.names r) = ts.any (Tag.names r) := by simp [hn]
    rw [List.cons_append, heard, heard, hany, ih]
    by_cases hlater : ts.any (Tag.names r) = true
    · -- The last stretch of `r` is further on, so `s` bears on nothing.
      have hroute : ∃ t ∈ ts, t.isRoute = true := by
        obtain ⟨t, ht, hn⟩ := List.any_eq_true.mp hlater
        exact ⟨t, ht, Tag.isRoute_of_names hn⟩
      have hcur : currentFrom none (s :: ts) = currentFrom none ts :=
        currentFrom_of_route _ hroute
      rw [if_pos hlater, if_pos hlater, hcur]
      split <;> rfl
    · rw [if_neg hlater, if_neg hlater]
      by_cases hroute : ∃ t ∈ ts, t.isRoute = true
      · have hcur : currentFrom none (s :: ts) ≠ some r := by
          rw [currentFrom, currentFrom_of_route _ hroute]
          exact fun h => hlater (any_names_of_currentFrom h)
        rw [if_neg hcur]
        rw [takeWhile_concat_of_route t hroute]
      · have hnone : ∀ t ∈ ts, t.isRoute = false := by
          intro u hu
          simpa using fun h => hroute ⟨u, hu, h⟩
        rw [currentFrom, currentFrom_of_no_route _ hnone]
        have htake : (ts ++ [t]).takeWhile (fun s => !s.isRoute) = ts ++ [t] := by
          rw [List.takeWhile_eq_self_iff]
          intro u hu
          rcases List.mem_append.mp hu with hu | hu
          · simp [hnone u hu]
          · rw [List.mem_singleton.mp hu, ht]
            rfl
        by_cases hs : s.names r = true
        · have hcur := (Tag.names_of_isRoute (Tag.isRoute_of_names hs) r).mp hs
          simp [hs, Tag.isRoute_of_names hs, hcur, htake]
        · by_cases hsr : s.isRoute = true
          · have hcur : Route.parse s.description ≠ r :=
              fun h => hs ((Tag.names_of_isRoute hsr r).mpr h)
            simp [hs, hsr, hcur]
          · simp [hs, hsr]

/-- The route that is current has heard everything. -/
theorem heard_of_current {r : Route} {ts : List Tag} (h : currentFrom none ts = some r) :
    heard r ts = ts := by
  cases ts using List.reverseRecOn with
  | nil => rfl
  | append_singleton ts t =>
    rw [currentFrom_concat] at h
    by_cases ht : t.isRoute = true
    · rw [if_pos ht] at h
      exact heard_concat_of_names ts ((Tag.names_of_isRoute ht r).mpr (Option.some.inj h))
    · rw [if_neg ht] at h
      rw [heard_concat_other ts (by simpa using ht), if_pos h]

/-- A route that is not current hears no more. -/
theorem heard_concat_of_not_current {r : Route} {ts : List Tag} {t : Tag}
    (h : currentFrom none (ts ++ [t]) ≠ some r) : heard r (ts ++ [t]) = heard r ts := by
  rw [currentFrom_concat] at h
  by_cases ht : t.isRoute = true
  · rw [if_pos ht] at h
    have hn : t.names r = false := by
      rw [Bool.eq_false_iff]
      exact fun hn => h (congrArg some ((Tag.names_of_isRoute ht r).mp hn))
    exact heard_concat_of_route ts ht hn
  · rw [if_neg ht] at h
    rw [heard_concat_other ts (by simpa using ht), if_neg h]

/-- The last annotation with the title `title` in the stretches of `r`. -/
def lastIn (title : String) (r : Route) (ts : List Tag) : Option Tag :=
  ((stretches r none ts).filter fun t => t.title = title).getLast?

theorem lastIn_concat (title : String) (r : Route) (ts : List Tag) (t : Tag) :
    lastIn title r (ts ++ [t]) =
      if t.isRoute = false ∧ currentFrom none ts = some r ∧ t.title = title then some t
      else lastIn title r ts := by
  rw [lastIn, stretches_concat, List.filter_append]
  by_cases ht : t.isRoute = true <;> by_cases hc : currentFrom none ts = some r <;>
    by_cases hn : t.title = title <;> simp [ht, hc, hn, lastIn]

end Routes

end AnnotatedApi
