/-
  Numerals that are written and read back. The decimal numeral of a number consists of digits,
  starts with a zero only if it is one, and spells the number (`ofDigits_decimal`); it has at most
  as many digits as the limit says exactly if the number is below that power of ten. A number
  written to base sixteen with zeros in front is spelled by its digits too
  (`mapM_hexValue?_hexPadded`). Digits of which the first is a zero only if it is the last one are
  the digits of a whole number (`Whole`); every decimal numeral is such digits (`whole_decimal`).
-/
import AnnotatedApi.Value.Spelled
import Mathlib.Algebra.Group.Nat.Defs

namespace AnnotatedApi

namespace Text

theorem ofDigits_append (b : Nat) (ds es : List Nat) :
    ofDigits b (ds ++ es) = es.foldl (fun n d => b * n + d) (ofDigits b ds) :=
  List.foldl_append

theorem ofDigits_concat (b : Nat) (ds : List Nat) (d : Nat) :
    ofDigits b (ds ++ [d]) = b * ofDigits b ds + d := by
  rw [ofDigits_append]
  rfl

/-! ## Decimal numerals -/

theorem isAsciiDigit_of_isDigit {c : Char} (h : c.isDigit = true) : isAsciiDigit c = true := by
  simp only [Char.isDigit, ge_iff_le, Bool.and_eq_true, decide_eq_true_eq] at h
  simp only [isAsciiDigit, Bool.and_eq_true, decide_eq_true_eq]
  exact h

theorem isAsciiDigit_of_mem_decimal {n : Nat} {c : Char} (h : c ∈ decimal n) :
    isAsciiDigit c = true :=
  isAsciiDigit_of_isDigit (Nat.isDigit_of_mem_toDigits (by decide) (by decide) h)

theorem decimal_ne_nil (n : Nat) : decimal n ≠ [] := Nat.toDigits_ne_nil

theorem decimal_zero : decimal 0 = ['0'] := Nat.toDigits_zero 10

theorem ofDigits_decimal (n : Nat) :
    ofDigits 10 ((decimal n).map fun c => c.toNat - 48) = n := by
  have h := @Nat.ofDigitChars_toDigits 10 n (by decide) (by decide)
  rw [Nat.ofDigitChars] at h
  rw [ofDigits, List.foldl_map]
  exact h

theorem length_decimal_le_iff (n : Nat) :
    (decimal n).length ≤ Numeral.digitLimit ↔ n < 10 ^ Numeral.digitLimit :=
  Nat.length_toDigits_le_iff (by decide) (by decide)

/-- Only the numeral of zero starts with a zero. -/
theorem decimal_head {n : Nat} (h : n ≠ 0) : ∃ c s, decimal n = c :: s ∧ c ≠ '0' := by
  induction n using Nat.strongRecOn with
  | _ n ih =>
    have hdigit : ∀ d, d < 10 → 0 < d → Nat.digitChar d ≠ '0' := by decide
    by_cases hlt : n < 10
    · exact ⟨_, [], Nat.toDigits_of_lt_base hlt, hdigit n hlt (Nat.pos_of_ne_zero h)⟩
    · obtain ⟨c, s, hs, hc⟩ := ih (n / 10) (by omega) (by omega)
      refine ⟨c, s ++ [Nat.digitChar (n % 10)], ?_, hc⟩
      rw [decimal, Nat.toDigits_of_base_le (by decide) (by omega)]
      rw [decimal] at hs
      rw [hs]
      rfl

/-! ## Numerals to base sixteen -/

theorem hexValue?_digitChar (upper : Bool) {d : Nat} (h : d < 16) :
    hexValue? (if upper then d.digitChar.toUpper else d.digitChar) = some d := by
  revert d upper
  decide

/-- The digits of a numeral, each read as a digit, spell the number. -/
theorem mapM_hexValue?_toDigits (upper : Bool) (n : Nat) :
    ∃ ds, ((Nat.toDigits 16 n).map fun c => if upper then c.toUpper else c).mapM hexValue? =
      some ds ∧ ofDigits 16 ds = n := by
  induction n using Nat.strongRecOn with
  | _ n ih =>
    by_cases hlt : n < 16
    · refine ⟨[n], ?_, by simp [ofDigits]⟩
      rw [Nat.toDigits_of_lt_base hlt]
      simp [hexValue?_digitChar upper hlt]
    · obtain ⟨ds, hds, hn⟩ := ih (n / 16) (by omega)
      refine ⟨ds ++ [n % 16], ?_, ?_⟩
      · rw [Nat.toDigits_of_base_le (by decide) (by omega)]
        simp [hds, hexValue?_digitChar upper (Nat.mod_lt n (by decide : 16 > 0))]
      · rw [ofDigits_concat, hn]
        omega

theorem ofDigits_zeros (b k : Nat) (ds : List Nat) :
    ofDigits b (List.replicate k 0 ++ ds) = ofDigits b ds := by
  have hzero : ofDigits b (List.replicate k 0) = 0 := by
    induction k with
    | zero => rfl
    | succ k ih => rw [List.replicate_succ', ofDigits_concat, ih]; omega
  rw [ofDigits_append, hzero]
  rfl

theorem mapM_hexValue?_zeros (k : Nat) :
    (List.replicate k '0').mapM hexValue? = some (List.replicate k 0) := by
  induction k with
  | zero => rfl
  | succ k ih => simp [List.replicate_succ, ih, show hexValue? '0' = some 0 from rfl]

theorem mapM_hexValue?_hexPadded (upper : Bool) (width n : Nat) :
    ((hexPadded upper width n).mapM hexValue?).map (ofDigits 16) = some n := by
  obtain ⟨ds, hds, hn⟩ := mapM_hexValue?_toDigits upper n
  simp only [hexPadded, List.mapM_append, mapM_hexValue?_zeros, hds, Option.pure_def,
    Option.bind_eq_bind, Option.bind_some, Option.map_some, ofDigits_zeros, hn]

theorem length_hexPadded (upper : Bool) {width n : Nat} (hw : 0 < width) (h : n < 16 ^ width) :
    (hexPadded upper width n).length = width := by
  have hle := (Nat.length_toDigits_le_iff (by decide : 1 < 16) hw).mpr h
  simp only [hexPadded, List.length_append, List.length_replicate, List.length_map]
  omega

end Text

/-! ## Whole numbers -/

/-- The digits of a whole number: no zero in front, unless it is all there is. -/
structure Whole (ds : List Char) : Prop where
  digits : ∀ c ∈ ds, Text.isAsciiDigit c = true
  ne_nil : ds ≠ []
  zero : ds.head? = some '0' → ds = ['0']

def wholeValue (ds : List Char) : Nat := Text.ofDigits 10 (ds.map fun c => c.toNat - 48)

def minusSign (minus : Bool) : List Char := if minus then ['-'] else []

theorem whole_decimal (n : Nat) : Whole (Text.decimal n) := by
  refine ⟨fun c => Text.isAsciiDigit_of_mem_decimal, Text.decimal_ne_nil n, fun h => ?_⟩
  by_cases hn : n = 0
  · rw [hn, Text.decimal_zero]
  · obtain ⟨c, s, hs, hc⟩ := Text.decimal_head hn
    rw [hs] at h
    exact absurd (Option.some.inj h) hc

theorem decimalInt_eq (n : Int) :
    Text.decimalInt n = minusSign (n < 0) ++ Text.decimal n.natAbs := by
  cases n with
  | ofNat n => rfl
  | negSucc n => simp [Text.decimalInt, minusSign, Int.negSucc_lt_zero]

variable {ds : List Char}

/-- What holds of the ten digits. -/
theorem forall_isAsciiDigit {P : Char → Prop} (hall : ∀ n < 10, P (Char.ofNat (48 + n))) {c : Char}
    (hc : Text.isAsciiDigit c = true) : P c := by
  simp only [Text.isAsciiDigit, Bool.and_eq_true, decide_eq_true_eq] at hc
  have hlow : 48 ≤ c.toNat := hc.1
  have hhigh : c.toNat ≤ 57 := hc.2
  have hdigit := hall (c.toNat - 48) (by omega)
  rwa [Nat.add_sub_cancel' hlow, Char.ofNat_toNat] at hdigit

theorem ne_of_isAsciiDigit {c : Char} (hc : Text.isAsciiDigit c = true) (d : Char)
    (hd : Text.isAsciiDigit d = false) : c ≠ d := by
  rintro rfl
  rw [hc] at hd
  cases hd

namespace Whole

theorem notMem (h : Whole ds) (d : Char) (hd : Text.isAsciiDigit d = false) : d ∉ ds :=
  fun hmem => ne_of_isAsciiDigit (h.digits d hmem) d hd rfl

theorem head (h : Whole ds) : ∃ c s, ds = c :: s ∧ Text.isAsciiDigit c = true := by
  obtain ⟨c, s, rfl⟩ := List.exists_cons_of_ne_nil h.ne_nil
  exact ⟨c, s, rfl, h.digits c List.mem_cons_self⟩

/-- Zero alone, or a digit other than zero in front. -/
theorem cases (h : Whole ds) :
    ds = ['0'] ∨ ∃ c s, ds = c :: s ∧ c ≠ '0' ∧ Text.isAsciiDigit c = true := by
  obtain ⟨c, s, rfl, hc⟩ := h.head
  by_cases hzero : c = '0'
  · exact Or.inl (h.zero (by rw [hzero]; rfl))
  · exact Or.inr ⟨c, s, rfl, hzero, hc⟩

end Whole

theorem Value.writable_iff (n : Int) :
    writable n = true ↔ n.natAbs < 10 ^ Numeral.digitLimit := by
  rw [writable, decide_eq_true_iff, Nat.pow_eq]

end AnnotatedApi
