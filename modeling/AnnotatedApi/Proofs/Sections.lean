/-
  The sections of a document that take contributions: `paths`, `tags` and `definitions`. Merging
  writes to a section in place, so if the section is one object with another part of the
  document, that part changes too; `Sections.Unshared` says that it is not. What stands in one
  place is simply replaced (`Entries.set_eq_put`), so the three sections can be looked at by
  themselves (`Sections.of`), and the document with other sections is the same in all else
  (`Entries.of_withSections`, `Entries.get?_withSections`).
-/
import AnnotatedApi.Document.Finish
import AnnotatedApi.Proofs.Store

namespace AnnotatedApi

namespace Value

/-- Whether a container has a label, as one object that stands in several places has. -/
def isShared : Value → Bool
  | .list l _ | .set l _ | .map l _ => l.isSome
  | _ => false

theorem label_list {l : Option Label} {vs : List Value} (h : (Value.list l vs).isShared = false) :
    l = none := by
  simpa [isShared] using h

theorem label_set {l : Option Label} {vs : List Value} (h : (Value.set l vs).isShared = false) :
    l = none := by
  simpa [isShared] using h

theorem label_map {l : Option Label} {es : List (Value × Value)}
    (h : (Value.map l es).isShared = false) : l = none := by
  simpa [isShared] using h

def IsMap (v : Value) : Prop := ∃ l es, v = .map l es

/-- A mapping that stands in one place. -/
def IsOwnMap (v : Value) : Prop := ∃ es, v = .map none es

theorem IsOwnMap.isMap {v : Value} (h : v.IsOwnMap) : v.IsMap := ⟨none, h⟩

theorem IsOwnMap.isShared {v : Value} (h : v.IsOwnMap) : v.isShared = false := by
  obtain ⟨es, rfl⟩ := h
  rfl

theorem str_injective : Function.Injective Value.str := fun _ _ h => Value.str.inj h

end Value

namespace Entries

/-- The document with `v` under the key. -/
def put (key : String) (v : Value) (d : Entries) : Entries := Assoc.set (.str key) v d

theorem get?_put (key key' : String) (v : Value) (d : Entries) :
    (d.put key v).get? key' = if key = key' then some v else d.get? key' := by
  unfold put get?
  rw [Assoc.get?_set]
  simp

@[simp] theorem get?_put_self (key : String) (v : Value) (d : Entries) :
    (d.put key v).get? key = some v := by
  simp [get?_put]

theorem get?_put_of_ne {key key' : String} (h : key ≠ key') (v : Value) (d : Entries) :
    (d.put key v).get? key' = d.get? key' := by
  rw [get?_put, if_neg h]

theorem put_put (key : String) (v w : Value) (d : Entries) :
    (d.put key w).put key v = d.put key v :=
  Assoc.set_set _ _ _ _

theorem put_eq_self {key : String} {v : Value} {d : Entries} (h : d.get? key = some v) :
    d.put key v = d :=
  Assoc.set_eq_self h

theorem put_comm {key key' : String} (hne : key ≠ key') (v w : Value) {d : Entries}
    (h : (d.get? key).isSome) : (d.put key v).put key' w = (d.put key' w).put key v :=
  Assoc.set_comm (fun e => hne (Value.str_injective e)) v w ((Assoc.isSome_get?_iff _ _).mp h)

/-- What stands in one place changes nothing else. -/
theorem set_eq_put (key : String) {v : Value} (h : v.label? = none) (d : Entries) :
    d.set key v = d.put key v :=
  Value.settle_unlabelled h _

/-- The section under a key, or `default` if there is none. -/
def getD (key : String) (default : Value) (d : Entries) : Value := (d.get? key).getD default

theorem getD_of_some {key : String} {v : Value} {d : Entries} (h : d.get? key = some v)
    (default : Value) : d.getD key default = v := by
  simp [getD, h]

theorem getD_put_self (key : String) (v default : Value) (d : Entries) :
    (d.put key v).getD key default = v := by
  simp [getD]

theorem getD_put_of_ne {key key' : String} (h : key ≠ key') (v default : Value) (d : Entries) :
    (d.put key v).getD key' default = d.getD key' default := by
  rw [getD, get?_put_of_ne h, getD]

/-- To make a missing section is to put in what is there, or else the default. -/
theorem ensure_eq_put (key : String) {default : Value} (h : default.label? = none) (d : Entries) :
    d.ensure key default = d.put key (d.getD key default) := by
  unfold ensure
  cases hd : d.get? key with
  | some v => simp [getD, hd, put_eq_self hd]
  | none => simp [getD, hd, set_eq_put key h]

end Entries

/-- The three sections that take contributions. -/
structure Sections where
  paths : Value
  tags : Value
  definitions : Value

namespace Sections

/-- The sections of a document; one that is missing is empty. -/
def of (d : Entries) : Sections :=
  ⟨d.getD "paths" (.map none []), d.getD "tags" (.list none []),
    d.getD "definitions" (.map none [])⟩

theorem paths_of {d : Entries} {v : Value} (h : d.get? "paths" = some v) : (of d).paths = v :=
  Entries.getD_of_some h _

theorem tags_of {d : Entries} {v : Value} (h : d.get? "tags" = some v) : (of d).tags = v :=
  Entries.getD_of_some h _

theorem definitions_of {d : Entries} {v : Value} (h : d.get? "definitions" = some v) :
    (of d).definitions = v :=
  Entries.getD_of_some h _

theorem tags_put_paths (d : Entries) (v : Value) :
    (of (d.put "paths" v)).tags = (of d).tags :=
  Entries.getD_put_of_ne (by decide) _ _ _

theorem definitions_put_paths (d : Entries) (v : Value) :
    (of (d.put "paths" v)).definitions = (of d).definitions :=
  Entries.getD_put_of_ne (by decide) _ _ _

theorem definitions_put_tags (d : Entries) (v : Value) :
    (of (d.put "tags" v)).definitions = (of d).definitions :=
  Entries.getD_put_of_ne (by decide) _ _ _

/-- No container that merging writes to stands in another place too. -/
structure Unshared (s : Sections) : Prop where
  paths : s.paths.isShared = false
  items : ∀ l ps, s.paths = .map l ps → ∀ e ∈ ps, e.2.isShared = false
  tags : s.tags.isShared = false
  groups : ∀ ts, Finish.items? s.tags = some ts → ∀ v ∈ ts, v.isShared = false
  definitions : s.definitions.isShared = false

end Sections

namespace Entries

/-- The document with other sections. -/
def withSections (d : Entries) (s : Sections) : Entries :=
  ((d.put "paths" s.paths).put "tags" s.tags).put "definitions" s.definitions

@[simp] theorem of_withSections (d : Entries) (s : Sections) :
    Sections.of (d.withSections s) = s := by
  simp [Sections.of, withSections, getD_put_self, getD_put_of_ne]

theorem get?_withSections_paths (d : Entries) (s : Sections) :
    (d.withSections s).get? "paths" = some s.paths := by
  simp [withSections, get?_put]

theorem get?_withSections_tags (d : Entries) (s : Sections) :
    (d.withSections s).get? "tags" = some s.tags := by
  simp [withSections, get?_put]

theorem get?_withSections_definitions (d : Entries) (s : Sections) :
    (d.withSections s).get? "definitions" = some s.definitions := by
  simp [withSections]

/-- Nothing else changes. -/
theorem get?_withSections {key : Value} (h : key ∉ ["paths", "tags", "definitions"].map Value.str)
    (d : Entries) (s : Sections) : Assoc.get? key (d.withSections s) = Assoc.get? key d := by
  simp only [List.map_cons, List.map_nil, List.mem_cons, List.not_mem_nil, or_false, not_or] at h
  unfold withSections put
  rw [Assoc.get?_set, if_neg (Ne.symm h.2.2), Assoc.get?_set, if_neg (Ne.symm h.2.1),
    Assoc.get?_set, if_neg (Ne.symm h.1)]

theorem put_tags_withSections (d : Entries) (s : Sections) (v : Value) :
    (d.withSections s).put "tags" v = d.withSections { s with tags := v } := by
  have htd : "tags" ≠ "definitions" := by decide
  unfold withSections
  rw [← put_comm htd _ _ (by simp), put_put]

theorem withSections_withSections (d : Entries) (s s' : Sections) :
    (d.withSections s).withSections s' = d.withSections s' := by
  have hpt : "paths" ≠ "tags" := by decide
  have hpd : "paths" ≠ "definitions" := by decide
  have htd : "tags" ≠ "definitions" := by decide
  unfold withSections
  rw [← put_comm hpd _ _ (by simp [get?_put]), ← put_comm hpt _ _ (by simp), put_put,
    ← put_comm htd _ _ (by simp), put_put, put_put]

/-- The sections that are there already. -/
theorem withSections_of {d : Entries} (hp : (d.get? "paths").isSome)
    (ht : (d.get? "tags").isSome) (hd : (d.get? "definitions").isSome) :
    d.withSections (Sections.of d) = d := by
  obtain ⟨p, hp⟩ := Option.isSome_iff_exists.mp hp
  obtain ⟨t, ht⟩ := Option.isSome_iff_exists.mp ht
  obtain ⟨x, hd⟩ := Option.isSome_iff_exists.mp hd
  unfold withSections Sections.of
  rw [getD_of_some hp, getD_of_some ht, getD_of_some hd, put_eq_self hp, put_eq_self ht,
    put_eq_self hd]

end Entries

end AnnotatedApi
