/-
  The described groups of a document, its `tags`, without duplicates. Each group that comes in
  is looked up among the entries so far: the first entry of its name may borrow its description,
  and only a new name is appended (`takeIn`). `batch` says in one go what a whole sequence of
  groups comes to: which entries are new, and which description the first entry of each name
  has at last. Taking the groups in one after another gives the same (`foldl_takeIn`). A group
  that has been taken in changes nothing when it comes again (`takeIn_eq_self`, `Heard`).
-/
import AnnotatedApi.Proofs.Sections
import Mathlib.Data.List.Induction

namespace AnnotatedApi.Groups

/-- The name of an entry. -/
def name? : Value → Option Value
  | .map _ es => Assoc.get? (.str "name") es
  | _ => none

/-- The description of an entry. -/
def description? : Value → Option Value
  | .map _ es => Assoc.get? (.str "description") es
  | _ => none

def isNamed (name : String) (v : Value) : Bool := name? v = some (.str name)

/-- An entry with another description and nothing else changed. -/
def withDescription (text : String) : Value → Value
  | .map l es => .map l (Assoc.set (.str "description") (.str text) es)
  | v => v

/-- An entry that borrows a description if its own is empty. -/
def borrow (text : String) (v : Value) : Value :=
  if (description? v).any Value.truthy then v else withDescription text v

/-- The first entry of a name borrows a description. -/
def borrowFirst (name text : String) : List Value → List Value
  | [] => []
  | v :: vs => if isNamed name v then borrow text v :: vs else v :: borrowFirst name text vs

/-- A group with a name and a description. -/
def Described (tag : List (String × String)) : Prop :=
  (Assoc.get? "name" tag).isSome ∧ (Assoc.get? "description" tag).isSome

def nameOf (tag : List (String × String)) : String := (Assoc.get? "name" tag).getD ""

def textOf (tag : List (String × String)) : String := (Assoc.get? "description" tag).getD ""

/-- A group taken in without a duplicate. -/
def takeIn (ts : List Value) (tag : List (String × String)) : List Value :=
  if ts.any (isNamed (nameOf tag)) then borrowFirst (nameOf tag) (textOf tag) ts
  else ts ++ [Merge.tagValue tag]

/-- A group added, with duplicates or without. -/
def add (dedupe : Bool) (ts : List Value) (tag : List (String × String)) : List Value :=
  if dedupe then takeIn ts tag else ts ++ [Merge.tagValue tag]

theorem add_true : add true = takeIn := by
  funext ts tag
  simp [add]

/-! ## Entries and their fields -/

theorem get?_tagValue (key : String) (tag : List (String × String)) :
    Assoc.get? (.str key) (tag.map fun f => (Value.str f.1, Value.str f.2)) =
      (Assoc.get? key tag).map .str :=
  Assoc.get?_map Value.str_injective Value.str key tag

theorem tagValue_eq (tag : List (String × String)) :
    Merge.tagValue tag = .map none (tag.map fun f => (Value.str f.1, Value.str f.2)) := by
  simp [Merge.tagValue, Value.object]

theorem name?_tagValue {tag : List (String × String)} (h : Described tag) :
    name? (Merge.tagValue tag) = some (.str (nameOf tag)) := by
  obtain ⟨name, hn⟩ := Option.isSome_iff_exists.mp h.1
  rw [tagValue_eq, name?, get?_tagValue, nameOf, hn]
  rfl

theorem description?_tagValue {tag : List (String × String)} (h : Described tag) :
    description? (Merge.tagValue tag) = some (.str (textOf tag)) := by
  obtain ⟨text, ht⟩ := Option.isSome_iff_exists.mp h.2
  rw [tagValue_eq, description?, get?_tagValue, textOf, ht]
  rfl

@[simp] theorem name?_withDescription (text : String) (v : Value) :
    name? (withDescription text v) = name? v := by
  cases v <;> simp [withDescription, name?, Assoc.get?_set]

theorem description?_withDescription (text : String) (l : Option Label) (es : Entries) :
    description? (withDescription text (.map l es)) = some (.str text) := by
  simp [withDescription, description?]

theorem withDescription_withDescription (text text' : String) (v : Value) :
    withDescription text (withDescription text' v) = withDescription text v := by
  cases v <;> simp [withDescription, Assoc.set_set]

/-- A description that is there already. -/
theorem withDescription_eq_self {text : String} {v : Value}
    (h : description? v = some (.str text)) : withDescription text v = v := by
  cases v <;> simp_all [withDescription, description?, Assoc.set_eq_self]

@[simp] theorem name?_borrow (text : String) (v : Value) : name? (borrow text v) = name? v := by
  unfold borrow
  split
  · rfl
  · exact name?_withDescription text v

/-- An entry that is no mapping has nothing to borrow. -/
theorem withDescription_of_not_map {v : Value} (h : ∀ l es, v ≠ .map l es) (text : String) :
    withDescription text v = v := by
  cases v <;> first | rfl | exact absurd rfl (h _ _)

/-- What has borrowed once does not borrow again. -/
theorem borrow_borrow (text : String) (v : Value) :
    borrow text (borrow text v) = borrow text v := by
  by_cases hd : (description? v).any Value.truthy = true
  · simp [borrow, hd]
  · have hb : borrow text v = withDescription text v := by simp [borrow, hd]
    rw [hb, borrow]
    split
    · rfl
    · exact withDescription_withDescription text text v

/-- An entry that has nothing to borrow from `text` has nothing to borrow from it after it has
borrowed another description. -/
theorem borrow_of_borrow_eq_self {text : String} {v : Value} (h : borrow text v = v)
    (text' : String) : borrow text (borrow text' v) = borrow text' v := by
  by_cases hd : (description? v).any Value.truthy = true
  · simp [borrow, hd]
  have hb : borrow text' v = withDescription text' v := by simp [borrow, hd]
  have hv : withDescription text v = v := by simpa [borrow, hd] using h
  rw [hb]
  by_cases hmap : ∃ l es, v = .map l es
  · obtain ⟨l, es, rfl⟩ := hmap
    have htext : description? (.map l es) = some (.str text) := by
      rw [← hv]
      exact description?_withDescription text l es
    have hempty : text = "" := by
      by_contra hne
      simp [htext, hne, Value.truthy] at hd
    have htext' := description?_withDescription text' l es
    by_cases hne : text' = ""
    · subst hempty hne
      rw [hv]
      exact h
    · rw [borrow, htext', if_pos]
      simp [Value.truthy, hne]
  · rw [withDescription_of_not_map (fun l es e => hmap ⟨l, es, e⟩)]
    exact h

/-! ## The first entry of a name -/

theorem borrowFirst_of_not_any {name : String} (text : String) {ts : List Value}
    (h : ts.any (isNamed name) = false) : borrowFirst name text ts = ts := by
  induction ts with
  | nil => rfl
  | cons v vs ih =>
    simp only [List.any_cons, Bool.or_eq_false_iff] at h
    simp [borrowFirst, h.1, ih h.2]

theorem borrowFirst_split {name : String} (text : String) {pre post : List Value} {v : Value}
    (hpre : pre.any (isNamed name) = false) (hv : isNamed name v = true) :
    borrowFirst name text (pre ++ v :: post) = pre ++ borrow text v :: post := by
  induction pre with
  | nil => simp [borrowFirst, hv]
  | cons w pre ih =>
    simp only [List.any_cons, Bool.or_eq_false_iff] at hpre
    simp [borrowFirst, hpre.1, ih hpre.2]

/-- Whether a name is there depends on the names only. -/
theorem any_isNamed_congr (name : String) {ts us : List Value} (h : ts.map name? = us.map name?) :
    ts.any (isNamed name) = us.any (isNamed name) := by
  have hmap : ∀ vs : List Value,
      vs.any (isNamed name) = (vs.map name?).any fun n => decide (n = some (.str name)) := by
    intro vs
    rw [List.any_map]
    rfl
  rw [hmap, hmap, h]

theorem borrowFirst_every {P : Value → Prop} (hw : ∀ text v, P v → P (withDescription text v))
    {ts : List Value} (h : ∀ v ∈ ts, P v) (name text : String) :
    ∀ v ∈ borrowFirst name text ts, P v := by
  induction ts with
  | nil => simp [borrowFirst]
  | cons w ws ih =>
    have hfirst : P (borrow text w) := by
      unfold borrow
      split
      · exact h w List.mem_cons_self
      · exact hw text w (h w List.mem_cons_self)
    have hrest : ∀ v ∈ ws, P v := fun v hv => h v (List.mem_cons_of_mem _ hv)
    unfold borrowFirst
    split
    · exact List.forall_mem_cons.mpr ⟨hfirst, hrest⟩
    · exact List.forall_mem_cons.mpr ⟨h w List.mem_cons_self, ih hrest⟩

/-- Every entry after a group was added was there before, if without the description, or is the
group's. -/
theorem add_every {P : Value → Prop} (hw : ∀ text v, P v → P (withDescription text v))
    {ts : List Value} (h : ∀ v ∈ ts, P v) (dedupe : Bool) {tag : List (String × String)}
    (ht : P (Merge.tagValue tag)) : ∀ v ∈ add dedupe ts tag, P v := by
  have happend : ∀ v ∈ ts ++ [Merge.tagValue tag], P v := by
    intro v hv
    rcases List.mem_append.mp hv with hv | hv
    · exact h v hv
    · rw [List.mem_singleton.mp hv]
      exact ht
  unfold add takeIn
  split
  · split
    · exact borrowFirst_every hw h _ _
    · exact happend
  · exact happend

theorem unshared_add {ts : List Value} (h : ∀ v ∈ ts, v.isShared = false) (dedupe : Bool)
    (tag : List (String × String)) : ∀ v ∈ add dedupe ts tag, v.isShared = false := by
  refine add_every (P := fun v => v.isShared = false) ?_ h dedupe rfl
  intro text v hv
  cases v <;> exact hv

theorem own_add {ts : List Value} (h : ∀ v ∈ ts, v.IsOwnMap) (dedupe : Bool)
    (tag : List (String × String)) : ∀ v ∈ add dedupe ts tag, v.IsOwnMap := by
  refine add_every ?_ h dedupe ⟨_, tagValue_eq tag⟩
  rintro text v ⟨es, rfl⟩
  exact ⟨_, rfl⟩

/-! ## A sequence of groups at once -/

/-- The descriptions that groups give for a name, in order. -/
def texts (name : String) (tags : List (List (String × String))) : List String :=
  (tags.filter fun t => nameOf t = name).map textOf

/-- An entry as it stands after it was offered the descriptions `ts` in order: its own
description, or else the first of them that is not empty, or else the empty one. -/
def settled (ts : List String) (v : Value) : Value :=
  if ts = [] ∨ (description? v).any Value.truthy then v
  else withDescription ((ts.find? fun t => t ≠ "").getD "") v

/-- An entry behind the entries `before`: only the first one of a name is offered what the groups
have for that name. -/
def describeOne (tags : List (List (String × String))) (before : List Value) (v : Value) : Value :=
  match name? v with
  | some (.str name) => if before.any (isNamed name) then v else settled (texts name tags) v
  | _ => v

/-- Entries behind the entries `before`, each in its place. -/
def describe (tags : List (List (String × String))) (before : List Value) :
    List Value → List Value
  | [] => []
  | v :: vs => describeOne tags before v :: describe tags (before ++ [v]) vs

/-- The names that groups bring to the entries `base`, in the order in which they come first. -/
def newNames (base : List Value) (tags : List (List (String × String))) : List String :=
  (tags.map nameOf).eraseDups.filter fun name => !base.any (isNamed name)

/-- One entry for each new name, as the first group of that name has it. -/
def newEntries (base : List Value) (tags : List (List (String × String))) : List Value :=
  (newNames base tags).filterMap fun name =>
    (tags.find? fun t => nameOf t = name).map Merge.tagValue

/-- The entries `base` after all the groups: first those of `base`, each in its place, then those
for new names. -/
def batch (base : List Value) (tags : List (List (String × String))) : List Value :=
  describe tags [] (base ++ newEntries base tags)

theorem settled_concat (ts : List String) (text : String) (v : Value) :
    settled (ts ++ [text]) v = borrow text (settled ts v) := by
  by_cases hd : (description? v).any Value.truthy = true
  · simp [settled, borrow, hd]
  by_cases hts : ts = []
  · subst hts
    by_cases htext : text = "" <;> simp [settled, borrow, hd, htext]
  have hs : settled ts v = withDescription ((ts.find? fun t => t ≠ "").getD "") v := by
    simp [settled, hts, hd]
  have hc : settled (ts ++ [text]) v =
      withDescription (((ts ++ [text]).find? fun t => t ≠ "").getD "") v := by
    simp [settled, hd]
  rw [hs, hc, List.find?_append]
  by_cases hmap : ∃ l es, v = .map l es
  · obtain ⟨l, es, rfl⟩ := hmap
    rw [borrow, description?_withDescription]
    cases hf : ts.find? fun t => t ≠ "" with
    | some found =>
      have hne : found ≠ "" := by simpa using List.find?_some hf
      simp [Value.truthy, hne]
    | none =>
      by_cases htext : text = "" <;>
        simp [Value.truthy, htext, withDescription_withDescription]
  · have hid := withDescription_of_not_map (v := v) fun l es e => hmap ⟨l, es, e⟩
    rw [hid, hid, borrow, hid]
    simp

@[simp] theorem name?_describeOne (tags : List (List (String × String))) (before : List Value)
    (v : Value) : name? (describeOne tags before v) = name? v := by
  unfold describeOne settled
  split
  · split
    · rfl
    · split
      · rfl
      · exact name?_withDescription _ v
  · rfl

theorem map_name?_describe (tags : List (List (String × String))) (before ts : List Value) :
    (describe tags before ts).map name? = ts.map name? := by
  induction ts generalizing before with
  | nil => rfl
  | cons v vs ih => simp [describe, ih]

theorem describe_append (tags : List (List (String × String))) (before ts us : List Value) :
    describe tags before (ts ++ us) =
      describe tags before ts ++ describe tags (before ++ ts) us := by
  induction ts generalizing before with
  | nil => simp [describe]
  | cons v vs ih => simp [describe, ih]

theorem texts_concat (name : String) (tags : List (List (String × String)))
    (t : List (String × String)) :
    texts name (tags ++ [t]) = texts name tags ++ if nameOf t = name then [textOf t] else [] := by
  unfold texts
  rw [List.filter_append, List.map_append]
  by_cases h : nameOf t = name <;> simp [h]

/-- One group more is offered to the first entry of its name and to no other. -/
theorem describe_concat (tags : List (List (String × String))) (t : List (String × String))
    (before ts : List Value) :
    describe (tags ++ [t]) before ts =
      if before.any (isNamed (nameOf t)) then describe tags before ts
      else borrowFirst (nameOf t) (textOf t) (describe tags before ts) := by
  induction ts generalizing before with
  | nil => simp [describe, borrowFirst]
  | cons v vs ih =>
    simp only [describe, ih, List.any_append, List.any_cons, List.any_nil, Bool.or_false]
    by_cases hv : isNamed (nameOf t) v = true
    · have hname : name? v = some (.str (nameOf t)) := by simpa [isNamed] using hv
      have hone : isNamed (nameOf t) (describeOne tags before v) = true := by
        simp [isNamed, hname]
      by_cases hb : before.any (isNamed (nameOf t)) = true
      · simp [describeOne, hname, hb]
      · have hnew : describeOne (tags ++ [t]) before v =
            borrow (textOf t) (describeOne tags before v) := by
          simp [describeOne, hname, hb, texts_concat, settled_concat]
        rw [hnew]
        simp [hb, hv, borrowFirst, hone]
    · have hsame : describeOne (tags ++ [t]) before v = describeOne tags before v := by
        unfold describeOne
        split
        · next name hname =>
          have hne : nameOf t ≠ name := by
            rintro rfl
            simp [isNamed, hname] at hv
          rw [texts_concat, if_neg hne, List.append_nil]
        · rfl
      have hone : isNamed (nameOf t) (describeOne tags before v) = false := by
        simpa [isNamed] using hv
      rw [Bool.not_eq_true] at hv
      simp only [hv, Bool.or_false, hsame]
      split
      · rfl
      · simp [borrowFirst, hone]

theorem newNames_concat (base : List Value) (tags : List (List (String × String)))
    (t : List (String × String)) :
    newNames base (tags ++ [t]) = newNames base tags ++
      if nameOf t ∈ tags.map nameOf ∨ base.any (isNamed (nameOf t)) then [] else [nameOf t] := by
  unfold newNames
  rw [List.map_append, List.eraseDups_append, List.filter_append]
  congr 1
  by_cases hmem : nameOf t ∈ tags.map nameOf
  · have hgone : [nameOf t].removeAll (tags.map nameOf) = [] := by
      simpa [List.removeAll] using hmem
    rw [if_pos (Or.inl hmem), List.map_singleton, hgone]
    rfl
  · have hstays : [nameOf t].removeAll (tags.map nameOf) = [nameOf t] := by
      simpa [List.removeAll] using hmem
    rw [List.map_singleton, hstays]
    by_cases hb : base.any (isNamed (nameOf t)) = true
    · rw [if_pos (Or.inr hb)]
      simp [List.eraseDups_cons, hb]
    · rw [if_neg (not_or.mpr ⟨hmem, hb⟩)]
      simp [List.eraseDups_cons, hb]

theorem newEntries_concat (base : List Value) (tags : List (List (String × String)))
    (t : List (String × String)) :
    newEntries base (tags ++ [t]) = newEntries base tags ++
      if nameOf t ∈ tags.map nameOf ∨ base.any (isNamed (nameOf t)) then []
      else [Merge.tagValue t] := by
  unfold newEntries
  rw [newNames_concat, List.filterMap_append]
  congr 1
  · -- A name that came before still has its first group.
    refine List.filterMap_congr fun name hname => ?_
    have hmem : name ∈ tags.map nameOf := by
      have hname := List.mem_of_mem_filter hname
      rwa [List.mem_eraseDups] at hname
    obtain ⟨s, hs, rfl⟩ := List.mem_map.mp hmem
    have hfound : (tags.find? fun t => nameOf t = nameOf s).isSome := by
      rw [List.find?_isSome]
      exact ⟨s, hs, by simp⟩
    rw [List.find?_append, Option.or_of_isSome hfound]
  · split
    · rfl
    · next h =>
      have hnone : (tags.find? fun s => nameOf s = nameOf t) = none := by
        rw [List.find?_eq_none]
        intro s hs hst
        exact h (Or.inl (List.mem_map.mpr ⟨s, hs, by simpa using hst⟩))
      simp [List.find?_append, hnone]

/-- The names at last are those of the base and those of the groups. -/
theorem any_isNamed_newEntries {tags : List (List (String × String))}
    (hd : ∀ t ∈ tags, Described t) (base : List Value) (name : String) :
    (base ++ newEntries base tags).any (isNamed name) = true ↔
      name ∈ tags.map nameOf ∨ base.any (isNamed name) = true := by
  induction tags using List.reverseRecOn with
  | nil => simp [newEntries, newNames]
  | append_singleton tags t ih =>
    have hrest : ∀ t ∈ tags, Described t := fun s hs => hd s (List.mem_append_left _ hs)
    have hname : isNamed name (Merge.tagValue t) = true ↔ nameOf t = name := by
      simp [isNamed, name?_tagValue (hd t (by simp))]
    rw [newEntries_concat, ← List.append_assoc, List.any_append, Bool.or_eq_true, ih hrest,
      List.map_append, List.mem_append, List.map_singleton, List.mem_singleton]
    split
    · next h =>
      constructor
      · rintro (hl | hr)
        · exact hl.imp_left Or.inl
        · simp at hr
      · rintro ((hl | rfl) | hr)
        · exact Or.inl (Or.inl hl)
        · exact Or.inl h
        · exact Or.inl (Or.inr hr)
    · rw [List.any_cons, List.any_nil, Bool.or_false, hname]
      tauto

/-- A group that is the first of its name stands as it came. -/
theorem settled_tagValue {t : List (String × String)} (h : Described t) :
    settled [textOf t] (Merge.tagValue t) = Merge.tagValue t := by
  have hb : settled [textOf t] (Merge.tagValue t) = borrow (textOf t) (Merge.tagValue t) := by
    have hs := settled_concat [] (textOf t) (Merge.tagValue t)
    simpa [settled] using hs
  rw [hb, borrow]
  split
  · rfl
  · exact withDescription_eq_self (description?_tagValue h)

theorem batch_concat (base : List Value) {tags : List (List (String × String))}
    (hd : ∀ t ∈ tags, Described t) {t : List (String × String)} (ht : Described t) :
    batch base (tags ++ [t]) = takeIn (batch base tags) t := by
  have hany : (batch base tags).any (isNamed (nameOf t)) =
      (base ++ newEntries base tags).any (isNamed (nameOf t)) :=
    any_isNamed_congr _ (map_name?_describe tags [] _)
  have hnames := any_isNamed_newEntries hd base (nameOf t)
  unfold takeIn
  rw [hany]
  unfold batch
  rw [newEntries_concat]
  by_cases h : (base ++ newEntries base tags).any (isNamed (nameOf t)) = true
  · rw [if_pos h, if_pos (hnames.mp h), List.append_nil, describe_concat]
    rfl
  · -- The name is new, so no group before had a description for it.
    have hnew := mt hnames.mpr h
    have htexts : texts (nameOf t) tags = [] := by
      unfold texts
      rw [List.map_eq_nil_iff, List.filter_eq_nil_iff]
      intro s hs hname
      exact hnew (Or.inl (List.mem_map.mpr ⟨s, hs, by simpa using hname⟩))
    rw [if_neg hnew, if_neg h]
    rw [Bool.not_eq_true] at h
    have hold : describe (tags ++ [t]) [] (base ++ newEntries base tags) =
        describe tags [] (base ++ newEntries base tags) := by
      rw [describe_concat]
      refine borrowFirst_of_not_any _ ?_
      rw [any_isNamed_congr _ (map_name?_describe tags [] _)]
      exact h
    have hone : describeOne (tags ++ [t]) (base ++ newEntries base tags) (Merge.tagValue t) =
        Merge.tagValue t := by
      rw [describeOne, name?_tagValue ht]
      simp only [h, texts_concat, htexts, if_true, List.nil_append, settled_tagValue ht]
      rfl
    rw [← List.append_assoc, describe_append, hold, List.nil_append]
    simp only [describe, hone]

theorem describe_nil (before ts : List Value) : describe [] before ts = ts := by
  induction ts generalizing before with
  | nil => rfl
  | cons v vs ih =>
    have hone : describeOne [] before v = v := by
      unfold describeOne
      split
      · split <;> simp [texts, settled]
      · rfl
    rw [describe, hone, ih]

/-- **One after another is all at once.** -/
theorem foldl_takeIn (base : List Value) {tags : List (List (String × String))}
    (hd : ∀ t ∈ tags, Described t) : tags.foldl takeIn base = batch base tags := by
  induction tags using List.reverseRecOn with
  | nil => simp [batch, newEntries, newNames, describe_nil]
  | append_singleton tags t ih =>
    have hrest : ∀ t ∈ tags, Described t := fun s hs => hd s (List.mem_append_left _ hs)
    rw [List.foldl_append, ih hrest, batch_concat base hrest (hd t (by simp))]
    rfl

/-- Names that are different at first are different at last. -/
theorem nodup_names_batch {base : List Value} {tags : List (List (String × String))}
    (hd : ∀ t ∈ tags, Described t) (h : (base.filterMap name?).Nodup) :
    ((batch base tags).filterMap name?).Nodup := by
  have hnames : (batch base tags).filterMap name? =
      (base ++ newEntries base tags).filterMap name? := by
    have hmap := map_name?_describe tags [] (base ++ newEntries base tags)
    have hfilter := congrArg (List.filterMap id) hmap
    rwa [List.filterMap_map, List.filterMap_map] at hfilter
  rw [hnames]
  clear hnames
  induction tags using List.reverseRecOn with
  | nil => simpa [newEntries, newNames] using h
  | append_singleton tags t ih =>
    have hrest : ∀ t ∈ tags, Described t := fun s hs => hd s (List.mem_append_left _ hs)
    rw [newEntries_concat, ← List.append_assoc]
    split
    · simpa using ih hrest
    · next hnew =>
      have hname := name?_tagValue (hd t (by simp))
      rw [← any_isNamed_newEntries hrest, Bool.not_eq_true, List.any_eq_false] at hnew
      rw [List.filterMap_append, List.nodup_append]
      refine ⟨ih hrest, by simp [hname], ?_⟩
      intro a ha b hb
      simp only [List.filterMap_cons, hname, List.filterMap_nil, List.mem_singleton] at hb
      obtain ⟨v, hv, hva⟩ := List.mem_filterMap.mp ha
      rintro rfl
      exact hnew v hv (by simp [isNamed, hva, hb])

/-! ## Groups that come again -/

/-- The first entry of a name has nothing to borrow from a group of that name. -/
def Heard (tag : List (String × String)) (ts : List Value) : Prop :=
  ∃ v, ts.find? (isNamed (nameOf tag)) = some v ∧ borrow (textOf tag) v = v

theorem find?_borrowFirst (name name' text : String) (ts : List Value) :
    (borrowFirst name text ts).find? (isNamed name') =
      if name = name' then (ts.find? (isNamed name')).map (borrow text)
      else ts.find? (isNamed name') := by
  induction ts with
  | nil => simp [borrowFirst]
  | cons v vs ih =>
    have hb : isNamed name' (borrow text v) = isNamed name' v := by simp [isNamed]
    unfold borrowFirst
    by_cases hv : isNamed name v = true
    · by_cases hn : name = name'
      · subst hn
        simp [hv, hb]
      · have hv' : isNamed name' v = false := by
          have hname : name? v = some (.str name) := by simpa [isNamed] using hv
          simp [isNamed, hname, hn]
        simp [hv, hb, hv', hn]
    · by_cases hv' : isNamed name' v = true
      · have hn : name ≠ name' := by
          rintro rfl
          exact hv hv'
        simp [hv, hv', hn]
      · simp [hv, hv', ih]

theorem borrowFirst_eq_self {name text : String} {ts : List Value} {v : Value}
    (hf : ts.find? (isNamed name) = some v) (hv : borrow text v = v) :
    borrowFirst name text ts = ts := by
  obtain ⟨hnamed, pre, post, rfl, hpre⟩ := List.find?_eq_some_iff_append.mp hf
  have hnone : pre.any (isNamed name) = false := by
    rw [List.any_eq_false]
    intro w hw
    simpa using hpre w hw
  rw [borrowFirst_split text hnone hnamed, hv]

theorem takeIn_eq_self {tag : List (String × String)} {ts : List Value} (h : Heard tag ts) :
    takeIn ts tag = ts := by
  obtain ⟨v, hf, hv⟩ := h
  have hany : ts.any (isNamed (nameOf tag)) = true := by
    rw [List.any_eq_true]
    exact ⟨v, List.mem_of_find?_eq_some hf, List.find?_some hf⟩
  rw [takeIn, if_pos hany, borrowFirst_eq_self hf hv]

theorem heard_takeIn {tag : List (String × String)} (hd : Described tag) (ts : List Value) :
    Heard tag (takeIn ts tag) := by
  unfold takeIn
  split
  · next hany =>
    obtain ⟨v, hv, hnamed⟩ := List.any_eq_true.mp hany
    obtain ⟨w, hw⟩ := Option.isSome_iff_exists.mp (List.find?_isSome.mpr ⟨v, hv, hnamed⟩)
    refine ⟨borrow (textOf tag) w, ?_, borrow_borrow _ w⟩
    rw [find?_borrowFirst, if_pos rfl, hw]
    rfl
  · next hany =>
    rw [Bool.not_eq_true, List.any_eq_false] at hany
    have hnamed : isNamed (nameOf tag) (Merge.tagValue tag) = true := by
      simp [isNamed, name?_tagValue hd]
    refine ⟨Merge.tagValue tag, ?_, ?_⟩
    · rw [List.find?_append, List.find?_eq_none.mpr hany]
      simp [hnamed]
    · have hs := settled_concat [] (textOf tag) (Merge.tagValue tag)
      rw [List.nil_append, settled_tagValue hd] at hs
      simpa [settled] using hs.symm

/-- What a group has been heard of stays so when others are taken in. -/
theorem Heard.takeIn {tag : List (String × String)} {ts : List Value} (h : Heard tag ts)
    (tag' : List (String × String)) : Heard tag (takeIn ts tag') := by
  obtain ⟨v, hf, hv⟩ := h
  unfold Groups.takeIn
  split
  · rw [Heard, find?_borrowFirst]
    split
    · exact ⟨borrow (textOf tag') v, by rw [hf]; rfl, borrow_of_borrow_eq_self hv _⟩
    · exact ⟨v, hf, hv⟩
  · refine ⟨v, ?_, hv⟩
    rw [List.find?_append, hf]
    rfl

theorem Heard.foldl {tag : List (String × String)} {ts : List Value} (h : Heard tag ts)
    (tags : List (List (String × String))) : Heard tag (tags.foldl Groups.takeIn ts) := by
  induction tags generalizing ts with
  | nil => exact h
  | cons t tags ih => exact ih (h.takeIn t)

theorem heard_foldl {tags : List (List (String × String))} (hd : ∀ t ∈ tags, Described t)
    {tag : List (String × String)} (ht : tag ∈ tags) (ts : List Value) :
    Heard tag (tags.foldl takeIn ts) := by
  induction tags generalizing ts with
  | nil => cases ht
  | cons t tags ih =>
    rcases List.mem_cons.mp ht with rfl | ht
    · exact (heard_takeIn (hd tag List.mem_cons_self) ts).foldl tags
    · exact ih (fun t h => hd t (List.mem_cons_of_mem _ h)) ht _

theorem foldl_takeIn_eq_self {tags : List (List (String × String))} {ts : List Value}
    (h : ∀ t ∈ tags, Heard t ts) : tags.foldl takeIn ts = ts := by
  induction tags with
  | nil => rfl
  | cons t tags ih =>
    rw [List.foldl_cons, takeIn_eq_self (h t List.mem_cons_self)]
    exact ih fun s hs => h s (List.mem_cons_of_mem _ hs)

end AnnotatedApi.Groups
