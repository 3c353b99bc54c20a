/-
  The order of a finished document. Its described groups are the ones that it had before, in the
  order of their names: by the folding of a name first, which is the same for names that differ in
  case only, and then by the name itself, both character by character (`Finish.orderOf`). Groups of
  one name keep their order. Nothing more is needed to know the list: two groups with one place in
  the order have one name, so no other list is arranged like this (`Finish.arranges_iff`).

  `finalize_arranges` is the statement.
-/
import AnnotatedApi.Proofs.Regeneration
import Mathlib.Data.List.Lex
import Mathlib.Data.Prod.Lex

namespace AnnotatedApi

namespace Finish

/-! ## Names -/

/-- The characters of a text, as code points. -/
def codePoints? : Value → Option (List Nat)
  | .str s => some (s.toList.map Char.toNat)
  | .illFormed ps => some ps
  | _ => none

/-- The name of a described group, which is empty if there is none. What is no mapping is no such
group, and neither is a mapping whose name is no text. -/
def nameOf? : Value → Option (List Nat)
  | .map l es => codePoints? ((Groups.name? (.map l es)).getD (.str ""))
  | _ => none

def nameOf (v : Value) : List Nat := (nameOf? v).getD []

/-- The place of a name: its folding first, and then the name. -/
def orderOf (name : List Nat) : List Nat ×ₗ List Nat := toLex (foldPoints name, name)

/-- The entries `us` are the entries `ts` in the order of their names, where entries of one name
stand as they did. -/
structure Arranges (ts us : List Value) : Prop where
  perm : us.Perm ts
  ordered : us.Pairwise fun v w => orderOf (nameOf v) ≤ orderOf (nameOf w)
  stable : ∀ name, (us.filter fun v => nameOf v = name) = ts.filter fun v => nameOf v = name

/-- A document whose described groups are `ts`, each with a text for a name or with none. -/
structure Describes (d : Entries) (ts : List Value) : Prop where
  listed : d.get? "tags" = none ∧ ts = [] ∨ ∃ l, d.get? "tags" = some (.list l ts)
  named : ∀ v ∈ ts, (nameOf? v).isSome

/-- The folding of a text is that of its code points. -/
theorem foldPoints_toNat (s : List Char) :
    foldPoints (s.map Char.toNat) = (Text.fold s).map Char.toNat := by
  have hvalid : ∀ c : Char, c.toNat.isValidChar := Char.valid
  simp [foldPoints, Text.fold, List.flatMap_map, List.map_flatMap, hvalid, Char.ofNat_toNat]

/-- What an entry is sorted by is its name, together with the folding of it. -/
theorem sortKey_eq_ok {v : Value} {k : SortKey} :
    sortKey v = .ok k ↔ ∃ name, nameOf? v = some name ∧ k = ⟨foldPoints name, name⟩ := by
  have hname : ∀ w : Value, keyOfName w = .ok k ↔
      ∃ name, codePoints? w = some name ∧ k = ⟨foldPoints name, name⟩ := by
    intro w
    cases w with
    | str s => simp [keyOfName, codePoints?, foldPoints_toNat, eq_comm]
    | illFormed ps => simp [keyOfName, codePoints?, eq_comm]
    | _ => simp [keyOfName, codePoints?]
  cases v with
  | map l es => exact hname _
  | _ => simp [sortKey, nameOf?]

/-! ## The order -/

/-- Texts are compared as lists of their characters are. -/
theorem textLe_iff (as bs : List Nat) : textLe as bs = true ↔ as ≤ bs := by
  induction as generalizing bs with
  | nil =>
    cases bs with
    | nil => simp [textLe]
    | cons b bs => simpa [textLe] using le_of_lt (List.nil_lt_cons b bs)
  | cons a as ih =>
    cases bs with
    | nil => simp [textLe]
    | cons b bs =>
      rw [textLe_cons, ih, le_iff_lt_or_eq, le_iff_lt_or_eq, List.cons_lt_cons_iff,
        List.cons.injEq, and_or_left, or_assoc]

theorem SortKey.le_iff_toLex (a b : SortKey) :
    a.le b = true ↔ toLex (a.folded, a.name) ≤ toLex (b.folded, b.name) := by
  rw [SortKey.le_iff, textLe_iff, textLe_iff, Prod.Lex.toLex_le_toLex]
  constructor
  · rintro ⟨hfolded, hname⟩
    rcases lt_or_eq_of_le hfolded with hlt | heq
    · exact Or.inl hlt
    · exact Or.inr ⟨heq, hname heq⟩
  · rintro (hlt | ⟨heq, hname⟩)
    · exact ⟨le_of_lt hlt, fun heq => absurd heq (ne_of_lt hlt)⟩
    · exact ⟨le_of_eq heq, fun _ => hname⟩

variable {ts us : List Value}

theorem Keyed.key_eq {keyed : List (SortKey × Value)} (h : Keyed keyed) :
    ∀ e ∈ keyed, nameOf? e.2 = some (nameOf e.2) ∧ e.1 = ⟨foldPoints (nameOf e.2), nameOf e.2⟩ := by
  intro e he
  obtain ⟨name, hname, hkey⟩ := sortKey_eq_ok.mp (h e he)
  have hnameOf : nameOf e.2 = name := by rw [nameOf, hname, Option.getD_some]
  rw [hnameOf]
  exact ⟨hname, hkey⟩

/-- Entries are in order as their names are. -/
theorem Keyed.pairwise_iff {keyed : List (SortKey × Value)} (h : Keyed keyed) :
    (keyed.Pairwise fun a b => a.1.le b.1 = true) ↔
      (keyed.map Prod.snd).Pairwise fun v w => orderOf (nameOf v) ≤ orderOf (nameOf w) := by
  rw [List.pairwise_map]
  refine List.Pairwise.iff_of_mem fun {a b} ha hb => ?_
  rw [SortKey.le_iff_toLex, (h.key_eq a ha).2, (h.key_eq b hb).2, orderOf, orderOf]

/-- Sorting arranges the entries by name. -/
theorem arranges_of_sorted (h : sorted ts = .ok us) : Arranges ts us := by
  obtain ⟨keyed, hkeyed, rfl, rfl⟩ := sorted_eq_ok.mp h
  refine ⟨perm_sorted h, ?_, fun name => ?_⟩
  · refine (keyed_mergeSort hkeyed).pairwise_iff.mp ?_
    exact List.pairwise_mergeSort (fun a b c => SortKey.le_trans a.1 b.1 c.1)
      (fun a b => SortKey.le_total a.1 b.1) keyed
  · rw [List.filter_map, List.filter_map]
    refine congrArg (List.map Prod.snd) (filter_mergeSort fun a ha b hb hpa hpb => ?_)
    have hnames : nameOf a.2 = nameOf b.2 :=
      (of_decide_eq_true hpa).trans (of_decide_eq_true hpb).symm
    rw [(hkeyed.key_eq a ha).2, (hkeyed.key_eq b hb).2, hnames]

/-- What is in order already is sorted to itself. -/
theorem sorted_of_ordered (hkeys : ∀ v ∈ us, ∃ k, sortKey v = .ok k)
    (hordered : us.Pairwise fun v w => orderOf (nameOf v) ≤ orderOf (nameOf w)) :
    sorted us = .ok us := by
  obtain ⟨keyed, hkeyed, rfl⟩ := exists_keyed hkeys
  refine sorted_eq_ok.mpr ⟨keyed, hkeyed, rfl, ?_⟩
  rw [List.mergeSort_of_pairwise (hkeyed.pairwise_iff.mpr hordered)]

theorem hasKey_eq {v : Value} {k : SortKey} (hv : ∃ k, sortKey v = .ok k) :
    hasKey k v = (decide (k.folded = foldPoints k.name) && decide (nameOf v = k.name)) := by
  obtain ⟨k', hk'⟩ := hv
  obtain ⟨name, hname, rfl⟩ := sortKey_eq_ok.mp hk'
  obtain ⟨folded, name'⟩ := k
  have hnameOf : nameOf v = name := by rw [nameOf, hname, Option.getD_some]
  rw [hasKey, hk', hnameOf, ← Bool.decide_and, decide_eq_decide, Except.ok.injEq,
    SortKey.mk.injEq]
  dsimp only
  constructor
  · rintro ⟨rfl, rfl⟩
    exact ⟨rfl, rfl⟩
  · rintro ⟨rfl, rfl⟩
    exact ⟨rfl, rfl⟩

/-- There is one list that is arranged by name. -/
theorem arranges_iff (h : sorted ts = .ok us) {vs : List Value} : Arranges ts vs ↔ vs = us := by
  have hkeys := exists_key_of_sorted h
  constructor
  · rintro ⟨hperm, hordered, hstable⟩
    have hkeys' : ∀ v ∈ vs, ∃ k, sortKey v = .ok k := fun v hv => hkeys v (hperm.subset hv)
    have hsorted : sorted vs = .ok us := by
      refine sorted_congr h hkeys' fun k => ?_
      have hfilter : ∀ ws : List Value, (∀ v ∈ ws, ∃ k, sortKey v = .ok k) →
          ws.filter (hasKey k) = (ws.filter fun v => nameOf v = k.name).filter
            fun _ => k.folded = foldPoints k.name := by
        intro ws hws
        rw [List.filter_filter]
        exact List.filter_congr fun v hv => hasKey_eq (hws v hv)
      rw [hfilter ts hkeys, hfilter vs hkeys', hstable]
    exact Except.ok.inj ((sorted_of_ordered hkeys' hordered).symm.trans hsorted)
  · rintro rfl
    exact arranges_of_sorted h

end Finish

open Finish in
/-- **The order of a finished document.** A document has no described groups, or a list of them in
which each has a text for a name or none. Then it is finished: all that it has besides stays, and
the groups are put in the order of their names, where groups of one name stand as they did. This
says which list it is, and to finish the document again changes nothing. -/
theorem finalize_arranges (l : Option Label) {d : Entries} {ts : List Value}
    (h : Describes d ts) :
    ∃ us, finalize (.map l d) = .ok (.map l (d.put "tags" (.list none us))) ∧
      Assoc.erase (.str "tags") (d.put "tags" (.list none us)) = Assoc.erase (.str "tags") d ∧
      (∀ vs, Arranges ts vs ↔ vs = us) ∧
      finalize (.map l (d.put "tags" (.list none us))) =
        .ok (.map l (d.put "tags" (.list none us))) := by
  have hkeys : ∀ v ∈ ts, ∃ k, sortKey v = .ok k := by
    intro v hv
    obtain ⟨name, hname⟩ := Option.isSome_iff_exists.mp (h.named v hv)
    exact ⟨_, sortKey_eq_ok.mpr ⟨name, hname, rfl⟩⟩
  obtain ⟨us, hsorted, -⟩ := exists_sorted hkeys
  have hitems : items? (Sections.of d).tags = some ts := by
    obtain ⟨hnone, rfl⟩ | ⟨l, hsome⟩ := h.listed
    · show items? ((d.get? "tags").getD (.list none [])) = some []
      rw [hnone]
      rfl
    · show items? ((d.get? "tags").getD (.list none [])) = some ts
      rw [hsome]
      rfl
  refine ⟨_, Generator.finalize_eq_ok.mpr ⟨_, entries_eq_ok.mpr ⟨ts, _, hitems, hsorted, rfl⟩, rfl⟩,
    Assoc.erase_set _ _ d, fun vs => arranges_iff hsorted, ?_⟩
  refine Generator.finalize_eq_ok.mpr
    ⟨_, entries_eq_ok.mpr ⟨_, _, ?_, sorted_sorted hsorted, rfl⟩, ?_⟩
  · rw [Sections.of, Entries.getD_put_self]
    rfl
  · rw [Entries.put_put]

/-- A described group, with a name or without. -/
def groupEntry (name : Option String) (text : String) : Value :=
  .object ((name.map fun n => ("name", .str n)).toList ++ [("description", .str text)])

/-- Groups with one name twice, with names that differ in case only, and with none. -/
def unorderedGroups : List Value :=
  [groupEntry (some "ß") "First.", groupEntry (some "SS") "", groupEntry (some "a") "",
   groupEntry none "", groupEntry (some "ß") "Second."]

def orderedGroups : List Value :=
  [groupEntry none "", groupEntry (some "a") "", groupEntry (some "SS") "",
   groupEntry (some "ß") "First.", groupEntry (some "ß") "Second."]

/-- A document with the groups between other entries. -/
def unorderedStore : Entries :=
  [(.str "swagger", .str "2.0"), (.str "tags", .list none unorderedGroups), (.str "paths", .int 5)]

theorem arranges_orderedGroups : Finish.Arranges unorderedGroups orderedGroups := by
  refine ⟨by decide +kernel, by decide +kernel, fun name => ?_⟩
  by_cases hname : name ∈ orderedGroups.map Finish.nameOf
  · revert name
    decide +kernel
  · have hother : ∀ v ∈ orderedGroups, ¬ Finish.nameOf v = name := by
      rintro v hv rfl
      exact hname (List.mem_map_of_mem hv)
    have hperm : orderedGroups.Perm unorderedGroups := by decide +kernel
    rw [List.filter_eq_nil_iff.mpr (by simpa using hother),
      List.filter_eq_nil_iff.mpr (by simpa using fun v hv => hother v (hperm.symm.subset hv))]

theorem finalize_arranges_unorderedStore :
    Finish.Describes unorderedStore unorderedGroups ∧
      finalize (.map none unorderedStore) =
        .ok (.map none (unorderedStore.put "tags" (.list none orderedGroups))) := by
  have hdescribes : Finish.Describes unorderedStore unorderedGroups :=
    ⟨.inr ⟨none, rfl⟩, by decide +kernel⟩
  obtain ⟨us, hfinal, -, hunique, -⟩ := finalize_arranges none hdescribes
  rw [(hunique orderedGroups).mp arranges_orderedGroups]
  exact ⟨hdescribes, hfinal⟩

end AnnotatedApi
