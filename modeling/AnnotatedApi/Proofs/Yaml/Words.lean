/-
  Scalars that are told apart by their notation: integers and the words for null and truth. Written
  without quotes they have the type that they are written for, and the value.
-/
import AnnotatedApi.Proofs.Cutting
import AnnotatedApi.Proofs.Numerals
import AnnotatedApi.Proofs.Run
import AnnotatedApi.Yaml.Notation

namespace AnnotatedApi

variable {ds : List Char}

namespace Numeral

theorem unpadded_of_all {s : List Char} (hs : ∀ c ∈ s, isPadding c = false) : unpadded s = s := by
  have hpadding : ∀ t : List Char, (∀ c ∈ t, isPadding c = false) → t.dropWhile isPadding = t := by
    intro t ht
    cases t with
    | nil => rfl
    | cons c t =>
      rw [List.dropWhile_cons, ht c List.mem_cons_self]
      rfl
  rw [unpadded, hpadding s hs, hpadding s.reverse fun c hc => hs c (List.mem_reverse.mp hc),
    List.reverse_reverse]

theorem unpadded_digits (hds : ∀ c ∈ ds, Text.isAsciiDigit c = true) : unpadded ds = ds :=
  unpadded_of_all fun c hc =>
    @forall_isAsciiDigit (fun c => isPadding c = false) (by decide) c (hds c hc)

theorem map_asciiDigit (hds : ∀ c ∈ ds, Text.isAsciiDigit c = true) : ds.map asciiDigit = ds := by
  refine (List.map_congr_left fun c hc => ?_).trans (List.map_id ds)
  exact @forall_isAsciiDigit (fun c => asciiDigit c = c) (by decide) c (hds c hc)

/-- Digits of a base without underscores between them. -/
theorem digits?_of_values {base : Nat} {value : Char → Nat} {s : List Char} (hne : s ≠ [])
    (hmark : '_' ∉ s) (h : ∀ c ∈ s, Text.hexValue? c = some (value c) ∧ value c < base) :
    digits? base s = some (s.map value) := by
  induction s with
  | nil => exact absurd rfl hne
  | cons c s ih =>
    obtain ⟨hc, hlt⟩ := h c List.mem_cons_self
    rw [List.mem_cons, not_or] at hmark
    cases s with
    | nil => simp [digits?, hc, hlt]
    | cons d s =>
      have hd : d ≠ '_' := fun e => hmark.2 (e ▸ List.mem_cons_self)
      rw [digits?, hc, Option.bind_some, if_pos hlt,
        ih (by simp) hmark.2 fun e he => h e (List.mem_cons_of_mem _ he)]
      · rfl
      · exact fun e => by cases e
      · exact fun t e => hd (List.cons.inj e).1

theorem digits?_digits (hds : ∀ c ∈ ds, Text.isAsciiDigit c = true) (hne : ds ≠ []) :
    digits? 10 ds = some (ds.map fun c => c.toNat - 48) := by
  have hvalue : ∀ c, Text.isAsciiDigit c = true →
      Text.hexValue? c = some (c.toNat - 48) ∧ c.toNat - 48 < 10 := fun c =>
    @forall_isAsciiDigit (fun c => Text.hexValue? c = some (c.toNat - 48) ∧ c.toNat - 48 < 10)
      (by decide) c
  have hmark : '_' ∉ ds := fun hmem => ne_of_isAsciiDigit (hds _ hmem) '_' (by decide) rfl
  exact digits?_of_values hne hmark fun c hc => hvalue c (hds c hc)

theorem integer?_digits (hds : ∀ c ∈ ds, Text.isAsciiDigit c = true) (hne : ds ≠ [])
    (hlen : ds.length ≤ digitLimit) : integer? 10 ds = .ok (wholeValue ds) := by
  have hunmarked : unmarked 10 ds = ds := by
    unfold unmarked
    split
    · rfl
    · rfl
  have hnatural : natural? 10 ds = .ok (wholeValue ds) := by
    have hlimit : withinLimit 10 (ds.map fun c => c.toNat - 48) = true := by
      simp [withinLimit, hlen]
    simp only [natural?, digits?_digits hds hne, hlimit, if_true]
    rfl
  obtain ⟨c, s, rfl⟩ := List.exists_cons_of_ne_nil hne
  have hc := hds c List.mem_cons_self
  rw [integer?, unpadded_digits hds, map_asciiDigit hds]
  split
  · next heq => exact absurd (List.cons.inj heq).1 (ne_of_isAsciiDigit hc '-' (by decide))
  · next heq => exact absurd (List.cons.inj heq).1 (ne_of_isAsciiDigit hc '+' (by decide))
  · rw [hunmarked, hnatural]
    rfl

end Numeral

namespace Yaml

section

variable {c : Char} {s : List Char} (hc : Text.isAsciiDigit c = true) (minus : Bool)

include hc

theorem unsigned_of_digit : unsigned (minusSign minus ++ c :: s) = c :: s := by
  cases minus with
  | true => rfl
  | false =>
    show unsigned (c :: s) = c :: s
    unfold unsigned
    split
    · next heq => exact absurd (List.cons.inj heq).1 (ne_of_isAsciiDigit hc '+' (by decide))
    · next heq => exact absurd (List.cons.inj heq).1 (ne_of_isAsciiDigit hc '-' (by decide))
    · rfl

theorem signed_of_digit : signed (minusSign minus ++ c :: s) = .ok (minus, c :: s) := by
  cases minus with
  | true => rfl
  | false =>
    show signed (c :: s) = _
    unfold signed
    split
    · next heq => cases heq
    · next heq => exact absurd (List.cons.inj heq).1 (ne_of_isAsciiDigit hc '-' (by decide))
    · next heq => exact absurd (List.cons.inj heq).1 (ne_of_isAsciiDigit hc '+' (by decide))
    · rfl

theorem isTruthWord_of_digit : isTruthWord (minusSign minus ++ c :: s) = false := by
  have hwords : ∀ w ∈ truthWords,
      (w.toList.head?.any fun d => Text.isAsciiDigit d || d = '-') = false := by
    decide
  rw [isTruthWord, List.any_eq_false]
  intro w hw e
  have hhead := hwords w hw
  rw [decide_eq_true_eq] at e
  rw [e] at hhead
  cases minus with
  | true => simp [minusSign] at hhead
  | false => simp [minusSign, hc] at hhead

end

theorem withoutFinalBreak_of_notMem {s : List Char} (h : '\n' ∉ s) : withoutFinalBreak s = s :=
  if_neg fun hlast => h (List.mem_of_getLast? hlast)

theorem unsigned_whole (h : Whole ds) (minus : Bool) : unsigned (minusSign minus ++ ds) = ds := by
  obtain ⟨c, s, rfl, hc⟩ := h.head
  exact unsigned_of_digit hc minus

theorem isIntText_whole (h : Whole ds) (minus : Bool) :
    isIntText (minusSign minus ++ ds) = true := by
  rw [isIntText, unsigned_whole h]
  rcases h.cases with rfl | ⟨c, s, rfl, hzero, hc⟩
  · rfl
  · have hnonZero : c ≠ '0' → isNonZero c = true :=
      @forall_isAsciiDigit (fun c => c ≠ '0' → isNonZero c = true) (by decide) c hc
    have hmore : allIn Text.isAsciiDigit s = true := by
      rw [allIn, List.all_eq_true]
      exact fun d hd => by simp [h.digits d (List.mem_cons_of_mem _ hd)]
    split
    · next heq => exact absurd (List.cons.inj heq).1 hzero
    · next heq => exact absurd (List.cons.inj heq).1 hzero
    · rfl
    · next heq => exact absurd (List.cons.inj heq).1 hzero
    · rw [Text.splitAt_of_notMem (h.notMem ':' (by decide))]
      simp [isGrouped, hnonZero hzero, hmore]

/-- Without a point nothing is a float. -/
theorem isFloatText_of_notMem {s : List Char} (h : '.' ∉ s) : isFloatText s = false := by
  have hdot : '.' ∉ unsigned s := by
    unfold unsigned
    split <;> simp_all
  have hword : ∀ t w : List Char, '.' ∉ t → '.' ∈ w → t ≠ w := fun t w ht hw e => ht (e ▸ hw)
  have hinf : [".inf".toList, ".Inf".toList, ".INF".toList].contains (unsigned s) = false := by
    simp [hword _ _ hdot]
  have hnan : [".nan".toList, ".NaN".toList, ".NAN".toList].contains s = false := by
    simp [hword _ _ h]
  simp only [isFloatText, Text.cutAt_of_notMem hdot, hinf, hnan]
  rfl

theorem isFloatText_whole (h : Whole ds) (minus : Bool) :
    isFloatText (minusSign minus ++ ds) = false := by
  refine isFloatText_of_notMem fun hdot => ?_
  rcases List.mem_append.mp hdot with hdot | hdot
  · cases minus <;> simp [minusSign] at hdot
  · exact h.notMem '.' (by decide) hdot

/-- An integer written in digits is read as one. -/
theorem implicitTag_whole (h : Whole ds) (minus : Bool) :
    implicitTag (minusSign minus ++ ds) = .int := by
  have hfinal : withoutFinalBreak (minusSign minus ++ ds) = minusSign minus ++ ds := by
    refine withoutFinalBreak_of_notMem fun hmem => ?_
    rcases List.mem_append.mp hmem with hmem | hmem
    · cases minus <;> simp [minusSign] at hmem
    · exact h.notMem '\n' (by decide) hmem
  have htruth : isTruthWord (minusSign minus ++ ds) = false := by
    obtain ⟨c, s, rfl, hc⟩ := h.head
    exact isTruthWord_of_digit hc minus
  have hempty : (minusSign minus ++ ds).isEmpty = false := by simp [h.ne_nil]
  simp only [implicitTag, hempty, hfinal, htruth, isFloatText_whole h, isIntText_whole h,
    Bool.false_eq_true, if_false, if_true]

theorem intValue_whole (h : Whole ds) (hlen : ds.length ≤ Numeral.digitLimit) (minus : Bool) :
    intValue (minusSign minus ++ ds) =
      .ok (if minus then -(wholeValue ds : Int) else wholeValue ds) := by
  have hfilter : (minusSign minus ++ ds).filter (· ≠ '_') = minusSign minus ++ ds := by
    refine List.filter_eq_self.mpr fun c hc => ?_
    rw [List.mem_append] at hc
    rcases hc with hc | hc
    · cases minus with
      | true => rw [List.mem_singleton.mp hc]; rfl
      | false => cases hc
    · simpa using ne_of_isAsciiDigit (h.digits c hc) '_' (by decide)
  have hsigned : signed (minusSign minus ++ ds) = .ok (minus, ds) := by
    obtain ⟨c, s, rfl, hc⟩ := h.head
    exact signed_of_digit hc minus
  have hinteger := Numeral.integer?_digits h.digits h.ne_nil hlen
  have hcolon : ds.contains ':' = false := by
    simpa using h.notMem ':' (by decide)
  rw [intValue, hfilter, hsigned, ok_bind]
  rcases h.cases with rfl | ⟨c, s, rfl, hzero, hc⟩
  · rfl
  · dsimp only
    split
    · next heq => exact absurd (List.cons.inj heq).1 hzero
    · next heq => exact absurd (List.cons.inj heq).1 hzero
    · next heq => exact absurd (List.cons.inj heq).1 hzero
    · next heq => exact absurd (List.cons.inj heq).1 hzero
    · next heq => cases heq
    · rw [hcolon, hinteger]
      rfl

end Yaml

end AnnotatedApi
