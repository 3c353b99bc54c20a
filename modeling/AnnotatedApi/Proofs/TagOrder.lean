/-
  The order of described groups. Keys are compared by a total order (`SortKey.le_total`,
  `SortKey.le_trans`), so the sorted entries are the same entries in order: to sort them again
  changes nothing (`Finish.sorted_sorted`), and entries of one name keep their order
  (`Finish.filter_isNamed_sorted`), so the first one stays the first
  (`Finish.find?_isNamed_sorted`). Nothing else is left to the order in which entries came: if
  those of each key came in one order, they are sorted to the same (`Finish.sorted_congr`). Groups
  that are taken in leave the entries of other keys alone (`Groups.filter_hasKey_add`), so of them
  too only the order within a name counts (`Groups.sorted_foldl_add`).
-/
import AnnotatedApi.Proofs.Groups
import AnnotatedApi.Proofs.Run

namespace AnnotatedApi.Finish

/-! ## Keys -/

theorem textLe_refl (as : List Nat) : textLe as as = true := by
  induction as with
  | nil => rfl
  | cons a as ih => simp [textLe, ih]

theorem textLe_cons (a b : Nat) (as bs : List Nat) :
    textLe (a :: as) (b :: bs) = true ↔ a < b ∨ a = b ∧ textLe as bs = true := by
  simp [textLe]

theorem textLe_antisymm {as bs : List Nat} (h : textLe as bs = true) (h' : textLe bs as = true) :
    as = bs := by
  induction as generalizing bs with
  | nil =>
    cases bs with
    | nil => rfl
    | cons b bs => simp [textLe] at h'
  | cons a as ih =>
    cases bs with
    | nil => simp [textLe] at h
    | cons b bs =>
      rw [textLe_cons] at h h'
      rcases h with h | ⟨rfl, h⟩
      · omega
      · rcases h' with h' | ⟨-, h'⟩
        · omega
        · rw [ih h h']

theorem textLe_trans {as bs cs : List Nat} (h : textLe as bs = true) (h' : textLe bs cs = true) :
    textLe as cs = true := by
  induction as generalizing bs cs with
  | nil => rfl
  | cons a as ih =>
    cases bs with
    | nil => simp [textLe] at h
    | cons b bs =>
      cases cs with
      | nil => simp [textLe] at h'
      | cons c cs =>
        rw [textLe_cons] at h h' ⊢
        rcases h with h | ⟨rfl, h⟩
        · exact Or.inl (by omega)
        · rcases h' with h' | ⟨rfl, h'⟩
          · exact Or.inl h'
          · exact Or.inr ⟨rfl, ih h h'⟩

theorem textLe_total (as bs : List Nat) : textLe as bs = true ∨ textLe bs as = true := by
  induction as generalizing bs with
  | nil => exact Or.inl rfl
  | cons a as ih =>
    cases bs with
    | nil => exact Or.inr rfl
    | cons b bs =>
      rw [textLe_cons, textLe_cons]
      rcases Nat.lt_trichotomy a b with h | rfl | h
      · exact Or.inl (Or.inl h)
      · exact (ih bs).imp (fun h => Or.inr ⟨rfl, h⟩) fun h => Or.inr ⟨rfl, h⟩
      · exact Or.inr (Or.inl h)

namespace SortKey

theorem le_iff (a b : SortKey) : a.le b = true ↔
    textLe a.folded b.folded = true ∧ (a.folded = b.folded → textLe a.name b.name = true) := by
  unfold le
  split
  · next h => simp [h, textLe_refl]
  · next h => simp [h]

theorem le_refl (a : SortKey) : a.le a = true := by
  simp [le_iff, textLe_refl]

theorem le_trans (a b c : SortKey) (hab : a.le b = true) (hbc : b.le c = true) :
    a.le c = true := by
  rw [le_iff] at hab hbc ⊢
  refine ⟨textLe_trans hab.1 hbc.1, ?_⟩
  intro hac
  have he : a.folded = b.folded := textLe_antisymm hab.1 (hac ▸ hbc.1)
  exact textLe_trans (hab.2 he) (hbc.2 (he ▸ hac))

theorem le_antisymm {a b : SortKey} (hab : a.le b = true) (hba : b.le a = true) : a = b := by
  rw [le_iff] at hab hba
  have hfolded : a.folded = b.folded := textLe_antisymm hab.1 hba.1
  have hname : a.name = b.name := textLe_antisymm (hab.2 hfolded) (hba.2 hfolded.symm)
  cases a
  cases b
  simp_all

theorem le_total (a b : SortKey) : (a.le b || b.le a) = true := by
  rw [Bool.or_eq_true, le_iff, le_iff]
  by_cases he : a.folded = b.folded
  · rw [he]
    simpa [textLe_refl] using textLe_total a.name b.name
  · rcases textLe_total a.folded b.folded with h | h
    · exact Or.inl ⟨h, fun e => absurd e he⟩
    · exact Or.inr ⟨h, fun e => absurd e.symm he⟩

end SortKey

/-! ## Sorted entries -/

/-- Entries with their keys. -/
def Keyed (keyed : List (SortKey × Value)) : Prop := ∀ e ∈ keyed, sortKey e.2 = .ok e.1

theorem keyed_of_mapM {tags : List Value} {keyed : List (SortKey × Value)}
    (h : (tags.mapM fun t => do return (← sortKey t, t)) = .ok keyed) :
    Keyed keyed ∧ keyed.map Prod.snd = tags := by
  induction tags generalizing keyed with
  | nil =>
    cases h
    exact ⟨by simp [Keyed], rfl⟩
  | cons t tags ih =>
    obtain ⟨e, rest, he, hrest, rfl⟩ := exists_of_mapM_cons_ok h
    obtain ⟨k, hk, he⟩ := exists_of_bind_ok he
    cases he
    obtain ⟨hkeyed, hsnd⟩ := ih hrest
    exact ⟨List.forall_mem_cons.mpr ⟨hk, hkeyed⟩, by rw [List.map_cons, hsnd]⟩

theorem mapM_of_keyed {keyed : List (SortKey × Value)} (h : Keyed keyed) :
    ((keyed.map Prod.snd).mapM fun t => do return (← sortKey t, t)) = .ok keyed := by
  induction keyed with
  | nil => rfl
  | cons e keyed ih =>
    rw [List.map_cons, List.mapM_cons, h e List.mem_cons_self,
      ih fun e he => h e (List.mem_cons_of_mem _ he)]
    rfl

/-- The entries that are sorted all have keys, and are then put in order by them. -/
theorem sorted_eq_ok {tags ts : List Value} : sorted tags = .ok ts ↔
    ∃ keyed, Keyed keyed ∧ keyed.map Prod.snd = tags ∧
      ts = (keyed.mergeSort fun a b => a.1.le b.1).map Prod.snd := by
  unfold sorted
  constructor
  · intro h
    obtain ⟨keyed, hk, h⟩ := exists_of_bind_ok h
    cases h
    obtain ⟨hkeyed, hsnd⟩ := keyed_of_mapM hk
    exact ⟨keyed, hkeyed, hsnd, rfl⟩
  · rintro ⟨keyed, hkeyed, rfl, rfl⟩
    rw [mapM_of_keyed hkeyed]
    rfl

theorem keyed_mergeSort {keyed : List (SortKey × Value)} (h : Keyed keyed) :
    Keyed (keyed.mergeSort fun a b => a.1.le b.1) :=
  fun e he => h e (List.mem_mergeSort.mp he)

theorem perm_sorted {tags ts : List Value} (h : sorted tags = .ok ts) : ts.Perm tags := by
  obtain ⟨keyed, -, rfl, rfl⟩ := sorted_eq_ok.mp h
  exact (List.mergeSort_perm keyed _).map Prod.snd

/-- What is sorted consists of mappings. -/
theorem map_of_sorted {tags ts : List Value} (h : sorted tags = .ok ts) :
    ∀ v ∈ tags, ∃ l es, v = .map l es := by
  obtain ⟨keyed, hkeyed, rfl, -⟩ := sorted_eq_ok.mp h
  intro v hv
  obtain ⟨⟨k, w⟩, he, rfl⟩ := List.mem_map.mp hv
  have hk : sortKey w = .ok k := hkeyed _ he
  cases w with
  | map l es => exact ⟨l, es, rfl⟩
  | _ => cases hk

theorem sorted_sorted {tags ts : List Value} (h : sorted tags = .ok ts) : sorted ts = .ok ts := by
  obtain ⟨keyed, hkeyed, rfl, rfl⟩ := sorted_eq_ok.mp h
  refine sorted_eq_ok.mpr ⟨_, keyed_mergeSort hkeyed, rfl, ?_⟩
  have hordered : (keyed.mergeSort fun a b => a.1.le b.1).Pairwise fun a b => a.1.le b.1 = true :=
    List.pairwise_mergeSort (fun a b c => SortKey.le_trans a.1 b.1 c.1)
      (fun a b => SortKey.le_total a.1 b.1) keyed
  rw [List.mergeSort_of_pairwise hordered]

/-- Entries of one name have one key. -/
theorem sortKey_of_isNamed {name : String} {v : Value} (h : Groups.isNamed name v = true) :
    sortKey v = keyOfName (.str name) := by
  have hname : Groups.name? v = some (.str name) := by simpa [Groups.isNamed] using h
  cases v with
  | map l es =>
    rw [sortKey, show Assoc.get? (.str "name") es = some (.str name) from hname]
    rfl
  | _ => cases hname

/-- Entries of one key keep their order. -/
theorem filter_mergeSort {keyed : List (SortKey × Value)} {p : SortKey × Value → Bool}
    (h : ∀ a ∈ keyed, ∀ b ∈ keyed, p a = true → p b = true → a.1 = b.1) :
    (keyed.mergeSort fun a b => a.1.le b.1).filter p = keyed.filter p := by
  let le := fun a b : SortKey × Value => a.1.le b.1
  -- These entries are in order already, so sorting keeps them as a sublist.
  have hpairwise : (keyed.filter p).Pairwise fun a b => le a b = true := by
    rw [List.pairwise_iff_forall_sublist]
    intro a b hab
    obtain ⟨ha, hpa⟩ := List.mem_filter.mp (hab.subset (by simp : a ∈ [a, b]))
    obtain ⟨hb, hpb⟩ := List.mem_filter.mp (hab.subset (by simp : b ∈ [a, b]))
    show a.1.le b.1 = true
    rw [h a ha b hb hpa hpb]
    exact SortKey.le_refl b.1
  have hsub : ((keyed.filter p).filter p).Sublist ((keyed.mergeSort le).filter p) :=
    (List.sublist_mergeSort (fun a b c => SortKey.le_trans a.1 b.1 c.1)
      (fun a b => SortKey.le_total a.1 b.1) hpairwise List.filter_sublist).filter p
  simp only [List.filter_filter, Bool.and_self] at hsub
  have hlength : (keyed.filter p).length = ((keyed.mergeSort le).filter p).length :=
    ((List.mergeSort_perm keyed le).filter p).length_eq.symm
  exact (hsub.eq_of_length hlength).symm

/-- Entries of one name keep their order. -/
theorem filter_isNamed_sorted {tags ts : List Value} (h : sorted tags = .ok ts) (name : String) :
    ts.filter (Groups.isNamed name) = tags.filter (Groups.isNamed name) := by
  obtain ⟨keyed, hkeyed, rfl, rfl⟩ := sorted_eq_ok.mp h
  have hkey : ∀ e ∈ keyed, Groups.isNamed name e.2 = true →
      Except.ok e.1 = keyOfName (.str name) := by
    intro e he hnamed
    rw [← hkeyed e he, sortKey_of_isNamed hnamed]
  have hfilter := filter_mergeSort (p := fun e => Groups.isNamed name e.2)
    fun a ha b hb hpa hpb => Except.ok.inj ((hkey a ha hpa).trans (hkey b hb hpb).symm)
  rw [List.filter_map, List.filter_map]
  exact congrArg (List.map Prod.snd) hfilter

theorem find?_isNamed_sorted {tags ts : List Value} (h : sorted tags = .ok ts) (name : String) :
    ts.find? (Groups.isNamed name) = tags.find? (Groups.isNamed name) := by
  rw [← List.head?_filter, ← List.head?_filter, filter_isNamed_sorted h]

/-! ## One order for all -/

/-- Whether an entry is sorted by a key. -/
def hasKey (k : SortKey) (v : Value) : Bool := sortKey v = .ok k

/-- Entries in order are known when those of each key are known. -/
theorem eq_of_filter_eq {es es' : List (SortKey × Value)}
    (hes : es.Pairwise fun a b => a.1.le b.1 = true)
    (hes' : es'.Pairwise fun a b => a.1.le b.1 = true)
    (h : ∀ k, (es.filter fun e => e.1 = k) = es'.filter fun e => e.1 = k) : es = es' := by
  induction es generalizing es' with
  | nil =>
    cases es' with
    | nil => rfl
    | cons b es' => simpa using h b.1
  | cons a es ih =>
    cases es' with
    | nil => simpa using h a.1
    | cons b es' =>
      rw [List.pairwise_cons] at hes hes'
      -- Each of the first entries has its key in the other list, so neither key is the smaller.
      have hba : b.1.le a.1 = true := by
        have hmem : a ∈ (b :: es').filter fun e => e.1 = a.1 := by
          rw [← h a.1]
          simp
        rcases List.mem_cons.mp (List.mem_of_mem_filter hmem) with rfl | hmem
        · exact SortKey.le_refl a.1
        · exact hes'.1 a hmem
      have hab : a.1.le b.1 = true := by
        have hmem : b ∈ (a :: es).filter fun e => e.1 = b.1 := by
          rw [h b.1]
          simp
        rcases List.mem_cons.mp (List.mem_of_mem_filter hmem) with rfl | hmem
        · exact SortKey.le_refl b.1
        · exact hes.1 b hmem
      have hkey : a.1 = b.1 := SortKey.le_antisymm hab hba
      have hfirst := h a.1
      simp only [List.filter_cons, hkey, decide_true, if_true, List.cons.injEq] at hfirst
      obtain ⟨rfl, -⟩ := hfirst
      rw [ih hes.2 hes'.2]
      intro k
      have hk := h k
      simp only [List.filter_cons] at hk
      split at hk
      · exact (List.cons.inj hk).2
      · exact hk

theorem filter_key_eq {keyed : List (SortKey × Value)} (h : Keyed keyed) (k : SortKey) :
    (keyed.filter fun e => e.1 = k) =
      ((keyed.map Prod.snd).filter (hasKey k)).map fun v => (k, v) := by
  induction keyed with
  | nil => rfl
  | cons e keyed ih =>
    have hrest := ih fun e he => h e (List.mem_cons_of_mem _ he)
    have hhead : hasKey k e.2 = decide (e.1 = k) := by
      simp [hasKey, h e List.mem_cons_self]
    rw [List.map_cons, List.filter_cons, List.filter_cons, hhead, hrest]
    by_cases hk : e.1 = k
    · subst hk
      simp
    · simp [hk]

theorem exists_keyed {tags : List Value} (h : ∀ v ∈ tags, ∃ k, sortKey v = .ok k) :
    ∃ keyed, Keyed keyed ∧ keyed.map Prod.snd = tags := by
  induction tags with
  | nil => exact ⟨[], by simp [Keyed], rfl⟩
  | cons v tags ih =>
    obtain ⟨k, hk⟩ := h v List.mem_cons_self
    obtain ⟨keyed, hkeyed, hsnd⟩ := ih fun v hv => h v (List.mem_cons_of_mem _ hv)
    exact ⟨(k, v) :: keyed, List.forall_mem_cons.mpr ⟨hk, hkeyed⟩, by rw [List.map_cons, hsnd]⟩

/-- Groups that all have names can be sorted, and are the same groups. -/
theorem exists_sorted {ts : List Value} (h : ∀ t ∈ ts, ∃ k, sortKey t = .ok k) :
    ∃ us, sorted ts = .ok us ∧ us.Perm ts := by
  obtain ⟨keyed, hkeyed, hsnd⟩ := exists_keyed h
  have hsorted := sorted_eq_ok.mpr ⟨keyed, hkeyed, hsnd, rfl⟩
  exact ⟨_, hsorted, perm_sorted hsorted⟩

/-- What can be sorted has keys. -/
theorem exists_key_of_sorted {tags ts : List Value} (h : sorted tags = .ok ts) :
    ∀ v ∈ tags, ∃ k, sortKey v = .ok k := by
  obtain ⟨keyed, hkeyed, rfl, -⟩ := sorted_eq_ok.mp h
  intro v hv
  obtain ⟨e, he, rfl⟩ := List.mem_map.mp hv
  exact ⟨e.1, hkeyed e he⟩

/-- What entries are sorted to depends on their keys, and on the order of the entries of each
key only. -/
theorem sorted_congr {tags tags' ts : List Value} (h : sorted tags = .ok ts)
    (hkeys : ∀ v ∈ tags', ∃ k, sortKey v = .ok k)
    (hfilter : ∀ k, tags.filter (hasKey k) = tags'.filter (hasKey k)) : sorted tags' = .ok ts := by
  obtain ⟨keyed, hkeyed, rfl, rfl⟩ := sorted_eq_ok.mp h
  obtain ⟨keyed', hkeyed', rfl⟩ := exists_keyed hkeys
  refine sorted_eq_ok.mpr ⟨keyed', hkeyed', rfl, congrArg (List.map Prod.snd) ?_⟩
  have hordered : ∀ es : List (SortKey × Value),
      (es.mergeSort fun a b => a.1.le b.1).Pairwise fun a b => a.1.le b.1 = true :=
    List.pairwise_mergeSort (fun a b c => SortKey.le_trans a.1 b.1 c.1)
      (fun a b => SortKey.le_total a.1 b.1)
  refine eq_of_filter_eq (hordered keyed) (hordered keyed') fun k => ?_
  have hkey : ∀ es : List (SortKey × Value), ∀ a ∈ es, ∀ b ∈ es,
      decide (a.1 = k) = true → decide (b.1 = k) = true → a.1 = b.1 :=
    fun _ a _ b _ ha hb => (of_decide_eq_true ha).trans (of_decide_eq_true hb).symm
  rw [filter_mergeSort (hkey keyed), filter_mergeSort (hkey keyed'), filter_key_eq hkeyed,
    filter_key_eq hkeyed', hfilter]

end AnnotatedApi.Finish

/-! ## Groups taken in another order -/

namespace AnnotatedApi.Groups

open Finish

theorem sortKey_withDescription (text : String) (v : Value) :
    sortKey (withDescription text v) = sortKey v := by
  cases v with
  | map l es => simp [withDescription, sortKey, Assoc.get?_set]
  | _ => rfl

theorem sortKey_borrow (text : String) (v : Value) : sortKey (borrow text v) = sortKey v := by
  unfold borrow
  split
  · rfl
  · exact sortKey_withDescription text v

theorem sortKey_tagValue {tag : List (String × String)} (h : Described tag) :
    sortKey (Merge.tagValue tag) = keyOfName (.str (nameOf tag)) :=
  sortKey_of_isNamed (by simp [isNamed, name?_tagValue h])

theorem map_sortKey_borrowFirst (name text : String) (ts : List Value) :
    (borrowFirst name text ts).map sortKey = ts.map sortKey := by
  induction ts with
  | nil => rfl
  | cons v ts ih =>
    unfold borrowFirst
    split
    · rw [List.map_cons, List.map_cons, sortKey_borrow]
    · rw [List.map_cons, List.map_cons, ih]

/-- No entry loses its key. -/
theorem map_sortKey_add (dedupe : Bool) (ts : List Value) (tag : List (String × String)) :
    ts.map sortKey <+: (add dedupe ts tag).map sortKey := by
  unfold add takeIn
  split
  · split
    · exact ⟨[], by rw [List.append_nil, map_sortKey_borrowFirst]⟩
    · rw [List.map_append]
      exact List.prefix_append _ _
  · rw [List.map_append]
    exact List.prefix_append _ _

theorem map_sortKey_foldl_add (dedupe : Bool) (tags : List (List (String × String)))
    (ts : List Value) : ts.map sortKey <+: (tags.foldl (add dedupe) ts).map sortKey := by
  induction tags generalizing ts with
  | nil => exact List.prefix_refl _
  | cons tag tags ih => exact (map_sortKey_add dedupe ts tag).trans (ih _)

/-- What could be sorted at last had keys at first. -/
theorem exists_key_of_foldl_add {dedupe : Bool} {tags : List (List (String × String))}
    {ts us : List Value} (h : sorted (tags.foldl (add dedupe) ts) = .ok us) :
    ∀ v ∈ ts, ∃ k, sortKey v = .ok k := by
  intro v hv
  have hmem := (map_sortKey_foldl_add dedupe tags ts).subset (List.mem_map_of_mem hv)
  obtain ⟨w, hw, hkey⟩ := List.mem_map.mp hmem
  obtain ⟨k, hk⟩ := exists_key_of_sorted h w hw
  exact ⟨k, hkey.symm.trans hk⟩

theorem exists_key_foldl_add {dedupe : Bool} {tags : List (List (String × String))}
    (hd : ∀ t ∈ tags, Described t) {ts : List Value} (h : ∀ v ∈ ts, ∃ k, sortKey v = .ok k) :
    ∀ v ∈ tags.foldl (add dedupe) ts, ∃ k, sortKey v = .ok k := by
  induction tags generalizing ts with
  | nil => exact h
  | cons tag tags ih =>
    have htag : ∃ k, sortKey (Merge.tagValue tag) = .ok k := by
      rw [sortKey_tagValue (hd tag List.mem_cons_self)]
      exact ⟨_, rfl⟩
    refine ih (fun t ht => hd t (List.mem_cons_of_mem _ ht)) ?_
    refine add_every (P := fun v => ∃ k, sortKey v = .ok k) (fun text v hv => ?_) h dedupe htag
    rw [sortKey_withDescription]
    exact hv

/-! Entries of one key are looked at by themselves. -/

theorem hasKey_of_isNamed {name : String} {v : Value} (h : isNamed name v = true) (k : SortKey) :
    hasKey k v = decide (keyOfName (.str name) = .ok k) := by
  rw [hasKey, sortKey_of_isNamed h]

theorem filter_hasKey_borrowFirst (k : SortKey) (name text : String) (ts : List Value) :
    (borrowFirst name text ts).filter (hasKey k) =
      if keyOfName (.str name) = .ok k then borrowFirst name text (ts.filter (hasKey k))
      else ts.filter (hasKey k) := by
  induction ts with
  | nil => simp [borrowFirst]
  | cons v ts ih =>
    have hborrow : hasKey k (borrow text v) = hasKey k v := by rw [hasKey, sortKey_borrow, hasKey]
    have hcons : ∀ vs, borrowFirst name text (v :: vs) =
        if isNamed name v then borrow text v :: vs
        else v :: borrowFirst name text vs := fun _ => rfl
    rw [hcons]
    by_cases hn : isNamed name v = true
    · rw [if_pos hn, List.filter_cons, List.filter_cons, hborrow, hasKey_of_isNamed hn]
      by_cases hk : keyOfName (.str name) = .ok k
      · simp [hk, hcons, hn]
      · simp [hk]
    · rw [if_neg hn, List.filter_cons, List.filter_cons, ih]
      by_cases hv : hasKey k v = true
      · rw [if_pos hv, if_pos hv, hcons, if_neg hn]
        split <;> rfl
      · rw [if_neg hv, if_neg hv]

theorem any_isNamed_filter_hasKey {k : SortKey} {name : String}
    (hk : keyOfName (.str name) = .ok k) (ts : List Value) :
    (ts.filter (hasKey k)).any (isNamed name) = ts.any (isNamed name) := by
  rw [List.any_filter]
  congr 1
  funext v
  by_cases hn : isNamed name v = true
  · simp [hn, hasKey_of_isNamed hn, hk]
  · simp [hn]

theorem filter_hasKey_add {tag : List (String × String)} (hd : Described tag) (k : SortKey)
    (dedupe : Bool) (ts : List Value) :
    (add dedupe ts tag).filter (hasKey k) =
      if keyOfName (.str (nameOf tag)) = .ok k then add dedupe (ts.filter (hasKey k)) tag
      else ts.filter (hasKey k) := by
  have happend : (ts ++ [Merge.tagValue tag]).filter (hasKey k) =
      if keyOfName (.str (nameOf tag)) = .ok k then ts.filter (hasKey k) ++ [Merge.tagValue tag]
      else ts.filter (hasKey k) := by
    rw [List.filter_append]
    by_cases hk : keyOfName (.str (nameOf tag)) = .ok k
    · simp [hasKey, sortKey_tagValue hd, hk]
    · simp [hasKey, sortKey_tagValue hd, hk]
  unfold add takeIn
  cases dedupe with
  | false => simpa using happend
  | true =>
    simp only [if_true]
    by_cases hk : keyOfName (.str (nameOf tag)) = .ok k
    · rw [if_pos hk] at happend ⊢
      rw [any_isNamed_filter_hasKey hk]
      split
      · rw [filter_hasKey_borrowFirst, if_pos hk]
      · exact happend
    · rw [if_neg hk] at happend ⊢
      split
      · rw [filter_hasKey_borrowFirst, if_neg hk]
      · exact happend

theorem filter_hasKey_foldl_add (k : SortKey) (dedupe : Bool)
    {tags : List (List (String × String))} (hd : ∀ t ∈ tags, Described t) (ts : List Value) :
    (tags.foldl (add dedupe) ts).filter (hasKey k) =
      (tags.filter fun t => keyOfName (.str (nameOf t)) = .ok k).foldl (add dedupe)
        (ts.filter (hasKey k)) := by
  induction tags generalizing ts with
  | nil => rfl
  | cons tag tags ih =>
    rw [List.foldl_cons, ih fun t ht => hd t (List.mem_cons_of_mem _ ht),
      filter_hasKey_add (hd tag List.mem_cons_self), List.filter_cons]
    by_cases hk : keyOfName (.str (nameOf tag)) = .ok k
    · simp [hk]
    · simp [hk]

theorem keyOfName_str_injective {name name' : String}
    (h : keyOfName (.str name) = keyOfName (.str name')) : name = name' := by
  have hname : name.toList.map Char.toNat = name'.toList.map Char.toNat :=
    congrArg SortKey.name (Except.ok.inj h)
  have hchars : Function.Injective Char.toNat := fun c c' hc => Char.toNat_inj.mp hc
  exact String.toList_injective (hchars.list_map hname)

/-- Groups of one key are groups of one name. -/
theorem filter_key_congr {tags tags' : List (List (String × String))}
    (h : ∀ name, (tags.filter fun t => nameOf t = name) = tags'.filter fun t => nameOf t = name)
    (k : SortKey) :
    (tags.filter fun t => keyOfName (.str (nameOf t)) = .ok k) =
      tags'.filter fun t => keyOfName (.str (nameOf t)) = .ok k := by
  by_cases hk : ∃ name, keyOfName (.str name) = .ok k
  · obtain ⟨name, hname⟩ := hk
    have hiff : ∀ t : List (String × String),
        decide (keyOfName (.str (nameOf t)) = .ok k) = decide (nameOf t = name) := by
      intro t
      rw [decide_eq_decide, ← hname]
      exact ⟨keyOfName_str_injective, fun he => by rw [he]⟩
    simp only [hiff]
    exact h name
  · have hnone : ∀ t : List (String × String),
        decide (keyOfName (.str (nameOf t)) = .ok k) = false := by
      intro t
      rw [decide_eq_false_iff_not]
      exact fun he => hk ⟨_, he⟩
    simp only [hnone, List.filter_false]

/-- Groups that come in one order for each name are sorted to the same list. -/
theorem sorted_foldl_add {dedupe : Bool} {tags tags' : List (List (String × String))}
    (hd : ∀ t ∈ tags, Described t) (hd' : ∀ t ∈ tags', Described t)
    (h : ∀ name, (tags.filter fun t => nameOf t = name) = tags'.filter fun t => nameOf t = name)
    {ts us : List Value} (hus : sorted (tags.foldl (add dedupe) ts) = .ok us) :
    sorted (tags'.foldl (add dedupe) ts) = .ok us := by
  refine sorted_congr hus (exists_key_foldl_add hd' (exists_key_of_foldl_add hus)) fun k => ?_
  rw [filter_hasKey_foldl_add k dedupe hd, filter_hasKey_foldl_add k dedupe hd',
    filter_key_congr h]

end AnnotatedApi.Groups
