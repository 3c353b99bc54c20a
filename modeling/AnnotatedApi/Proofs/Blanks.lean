/-
  Blanks at the ends of a text. `trim` takes away blanks at both ends and nothing else
  (`exists_trim`), so what it leaves has none there (`trimmed_trim`) and a text that has none is
  left as it is (`trim_eq_self`). Neither digits nor word characters are blank: the tables of the
  two classes have no code point in common with that of the blanks (`within_eq_false_of_apart`).
-/
import AnnotatedApi.Text.Blank
import AnnotatedApi.Text.Digit
import AnnotatedApi.Text.Word
import Mathlib.Data.List.DropRight

namespace AnnotatedApi

/-- What holds of the first characters holds of every character among them. -/
theorem forall_of_toNat_lt {P : Char → Prop} {n : Nat} (hall : ∀ k < n, P (Char.ofNat k)) {c : Char}
    (hc : c.toNat < n) : P c := by
  have h := hall c.toNat hc
  rwa [Char.ofNat_toNat] at h

namespace Text

/-! ## Classes of characters -/

/-- No interval of the one table meets an interval of the other. -/
def apart (a b : List Span) : Bool := a.all fun s => b.all fun t => s.2 < t.1 || t.2 < s.1

theorem within_eq_false_of_apart {a b : List Span} (h : apart a b = true) {n : Nat}
    (hn : within a n = true) : within b n = false := by
  obtain ⟨s, hs, hsn⟩ := List.any_eq_true.mp hn
  refine List.any_eq_false.mpr fun t ht htn => ?_
  have hst := List.all_eq_true.mp (List.all_eq_true.mp h s hs) t ht
  simp only [Bool.and_eq_true, Bool.or_eq_true, decide_eq_true_eq] at hsn htn hst
  omega

theorem isBlank_of_isWord {c : Char} (h : isWord c = true) : isBlank c = false := by
  by_cases hc : c.toNat < 128
  · exact forall_of_toNat_lt (P := fun c => isWord c = true → isBlank c = false) (by decide) hc h
  · simp only [isWord, hc, if_false] at h
    simp only [isBlank, hc, if_false]
    exact within_eq_false_of_apart (show apart wideWords wideBlanks = true by decide +kernel) h

theorem isBlank_of_isDigit {c : Char} (h : isDigit c = true) : isBlank c = false := by
  by_cases hc : c.toNat < 128
  · exact forall_of_toNat_lt (P := fun c => isDigit c = true → isBlank c = false) (by decide) hc h
  · simp only [isDigit, hc, if_false] at h
    simp only [isBlank, hc, if_false]
    exact within_eq_false_of_apart (show apart wideDigits wideBlanks = true by decide +kernel) h

/-! ## Trimming -/

variable {s : List Char} {c : Char}

/-- At a character that is not blank the trimming ends. -/
theorem trimRight_concat (hc : isBlank c = false) (s : List Char) :
    trimRight (s ++ [c]) = s ++ [c] := by
  induction s with
  | nil => simp [trimRight, hc]
  | cons d s ih =>
    rw [List.cons_append, trimRight, ih]
    cases s <;> rfl

theorem trimRight_concat_blank (hc : isBlank c = true) (s : List Char) :
    trimRight (s ++ [c]) = trimRight s := by
  induction s with
  | nil => simp [trimRight, hc]
  | cons d s ih => rw [List.cons_append, trimRight, ih, trimRight]

theorem trimRight_eq (s : List Char) : trimRight s = s.rdropWhile isBlank := by
  induction s using List.reverseRecOn with
  | nil => rfl
  | append_singleton s c ih =>
    cases hc : isBlank c with
    | true => rw [trimRight_concat_blank hc, List.rdropWhile_concat_pos _ _ _ hc, ih]
    | false => rw [trimRight_concat hc, List.rdropWhile_concat_neg _ _ _ (by simp [hc])]

/-- No blank stands at the ends of a text. -/
structure Trimmed (s : List Char) : Prop where
  head : ∀ c, s.head? = some c → isBlank c = false
  last : ∀ c, s.getLast? = some c → isBlank c = false

/-- What is trimmed away is blank. -/
theorem exists_trim (s : List Char) : ∃ front back, s = front ++ trim s ++ back ∧
    (∀ c ∈ front, isBlank c = true) ∧ ∀ c ∈ back, isBlank c = true := by
  refine ⟨s.takeWhile isBlank, (trimLeft s).rtakeWhile isBlank, ?_, fun c hc => ?_, fun c hc => ?_⟩
  · rw [List.append_assoc, trim, trimRight_eq, List.rdropWhile_append_rtakeWhile, trimLeft,
      List.takeWhile_append_dropWhile]
  · exact List.mem_takeWhile_imp hc
  · exact List.mem_rtakeWhile_imp hc

theorem trimmed_trim (s : List Char) : Trimmed (trim s) := by
  refine ⟨fun c hc => ?_, fun c hc => ?_⟩
  · obtain ⟨t, ht⟩ := List.head?_eq_some_iff.mp hc
    have hfront : trim s <+: trimLeft s := by
      rw [trim, trimRight_eq]
      exact List.rdropWhile_prefix isBlank _
    obtain ⟨rest, hrest⟩ := hfront
    rw [ht, List.cons_append] at hrest
    have hstop := List.head?_dropWhile_not isBlank s
    rw [← trimLeft, ← hrest] at hstop
    exact hstop
  · obtain ⟨t, ht⟩ := List.getLast?_eq_some_iff.mp hc
    have hagain : trimRight (t ++ [c]) = t ++ [c] := by
      rw [← ht, trim, trimRight_eq, trimRight_eq, List.rdropWhile_idempotent]
    by_contra hblank
    rw [Bool.not_eq_false] at hblank
    rw [trimRight_concat_blank hblank, trimRight_eq] at hagain
    have hlen := (List.rdropWhile_prefix isBlank t).length_le
    rw [hagain, List.length_append, List.length_singleton] at hlen
    omega

/-- A text is trimmed if it stands between two that show no blank. -/
theorem trimmed_between {front back : List Char} (hfront : front.head?.map isBlank = some false)
    (hback : back.getLast?.map isBlank = some false) (s : List Char) :
    Trimmed (front ++ (s ++ back)) := by
  obtain ⟨f, hf, hfblank⟩ := Option.map_eq_some_iff.mp hfront
  obtain ⟨b, hb, hbblank⟩ := Option.map_eq_some_iff.mp hback
  refine ⟨fun c hc => ?_, fun c hc => ?_⟩
  · rw [List.head?_append, hf, Option.some_or] at hc
    exact Option.some.inj hc ▸ hfblank
  · rw [List.getLast?_append, List.getLast?_append, hb, Option.some_or, Option.some_or] at hc
    exact Option.some.inj hc ▸ hbblank

theorem trim_eq_self (h : Trimmed s) : trim s = s := by
  have hleft : trimLeft s = s := by
    cases s with
    | nil => rfl
    | cons c s => simp [trimLeft, h.head c rfl]
  rw [trim, hleft, trimRight_eq, List.rdropWhile_eq_self_iff]
  intro hne
  simp [h.last _ (List.getLast?_eq_getLast_of_ne_nil hne)]

theorem trim_cons_blank (hc : isBlank c = true) (s : List Char) : trim (c :: s) = trim s := by
  rw [trim, trimLeft, List.dropWhile_cons_of_pos hc, trim, trimLeft]

theorem trim_concat_blank (hc : isBlank c = true) (s : List Char) : trim (s ++ [c]) = trim s := by
  rw [trim, trimLeft, List.dropWhile_append]
  split
  · next h =>
    -- Only blanks are there, so nothing is left on either side.
    rw [List.dropWhile_cons_of_pos hc, trim, trimLeft, List.isEmpty_iff.mp h]
    rfl
  · rw [trimRight_concat_blank hc, trim, trimLeft]

/-- A character that is not blank is never trimmed away. -/
theorem mem_trim_iff (hc : isBlank c = false) : c ∈ trim s ↔ c ∈ s := by
  obtain ⟨front, back, hs, hfront, hback⟩ := exists_trim s
  have hnot : ∀ t : List Char, (∀ d ∈ t, isBlank d = true) → c ∉ t := fun t ht hmem => by
    rw [ht c hmem] at hc
    cases hc
  conv_rhs => rw [hs]
  simp [hnot front hfront, hnot back hback]

end Text

end AnnotatedApi
