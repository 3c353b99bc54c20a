/-
  The strings, words and numbers of JSON. Each is a text with a value, by the notation and not by
  the reader: `StringBody` for what stands between the quotes of a string, `NumberText` for a number
  with its sign, fraction and exponent. The reader takes such a text from the front of whatever
  follows it, a number if what follows does not go on with it (`GoesOn`), and takes nothing else.
  Only an integer of too many digits is no number to it (`number_eq_tooLong_iff`).
-/
import AnnotatedApi.Json.Reader
import AnnotatedApi.Proofs.Numerals
import AnnotatedApi.Proofs.Run

namespace AnnotatedApi

namespace Json

/-! ## Strings -/

/-- The text between the quotes of a string, and its code points. -/
inductive StringBody : List Char → List Nat → Prop
  | nil : StringBody [] []
  | plain {c : Char} {s : List Char} {ns : List Nat} (hquote : c ≠ '"') (hback : c ≠ '\\')
      (hcontrol : ¬ c.toNat < 32) (h : StringBody s ns) : StringBody (c :: s) (c.toNat :: ns)
  | letter {e c : Char} {s : List Char} {ns : List Nat} (he : escape? e = some c)
      (h : StringBody s ns) : StringBody ('\\' :: e :: s) (c.toNat :: ns)
  | unit {a b c d : Char} {n : Nat} {s : List Char} {ns : List Nat}
      (hn : hexUnit? a b c d = some n) (h : StringBody s ns) :
      StringBody ('\\' :: 'u' :: a :: b :: c :: d :: s) (n :: ns)

/-- A character read in front of the rest of a string. -/
def withPoint (n : Nat) (x : Except Fault (List Nat × List Char)) :
    Except Fault (List Nat × List Char) := (fun p => (n :: p.1, p.2)) <$> x

theorem stringRest_escape {e c : Char} (he : escape? e = some c) (r : List Char) :
    stringRest ('\\' :: e :: r) = withPoint c.toNat (stringRest r) := by
  rw [stringRest]
  · simp [he, withPoint]
  · rintro a b c d s rfl
    cases he

theorem stringRest_unit {a b c d : Char} {n : Nat} (h : hexUnit? a b c d = some n) (r : List Char) :
    stringRest ('\\' :: 'u' :: a :: b :: c :: d :: r) = withPoint n (stringRest r) := by
  simp [stringRest, h, withPoint]

theorem stringRest_plain {c : Char} (hquote : c ≠ '"') (hback : c ≠ '\\') (h : ¬ c.toNat < 32)
    (r : List Char) : stringRest (c :: r) = withPoint c.toNat (stringRest r) := by
  rw [stringRest.eq_def]
  split
  · next h => simp at h
  · next h => simp_all
  · next h => simp_all
  · next h => simp_all
  · next c' s' _ _ _ heq =>
    simp only [List.cons.injEq] at heq
    obtain ⟨rfl, rfl⟩ := heq
    simp [hback, h, withPoint]

theorem point_of_ok {x : Except Fault (List Nat × List Char)} {n : Nat} {ns : List Nat}
    {r : List Char}
    (h : (do
      let (ms, rest) ← x
      return (n :: ms, rest)) = .ok (ns, r)) : ∃ ms, x = .ok (ms, r) ∧ ns = n :: ms := by
  obtain ⟨⟨ms, rest⟩, rfl, h⟩ := exists_of_bind_ok h
  cases h
  exact ⟨ms, rfl, rfl⟩

theorem StringBody.stringRest_append {body : List Char} {ns : List Nat} (h : StringBody body ns)
    (r : List Char) : stringRest (body ++ '"' :: r) = .ok (ns, r) := by
  induction h with
  | nil => rfl
  | plain hquote hback hcontrol _ ih =>
    rw [List.cons_append, stringRest_plain hquote hback hcontrol, ih]
    rfl
  | letter he _ ih =>
    rw [List.cons_append, List.cons_append, stringRest_escape he, ih]
    rfl
  | unit hn _ ih =>
    simp only [List.cons_append]
    rw [stringRest_unit hn, ih]
    rfl

/-- A string is read up to its closing quote. -/
theorem stringBody_of_stringRest {s r : List Char} {ns : List Nat}
    (h : stringRest s = .ok (ns, r)) : ∃ body, s = body ++ '"' :: r ∧ StringBody body ns := by
  fun_induction stringRest s generalizing ns with
  | case1 => cases h
  | case2 s =>
    cases h
    exact ⟨[], rfl, .nil⟩
  | case3 => cases h
  | case4 a b c d s n hn ih =>
    obtain ⟨ms, hms, rfl⟩ := point_of_ok h
    obtain ⟨body, rfl, hbody⟩ := ih hms
    exact ⟨_, rfl, hbody.unit hn⟩
  | case5 => cases h
  | case6 e s _ c hc ih =>
    obtain ⟨ms, hms, rfl⟩ := point_of_ok h
    obtain ⟨body, rfl, hbody⟩ := ih hms
    exact ⟨_, rfl, hbody.letter hc⟩
  | case7 => cases h
  | case8 c s hquote _ _ hc ih =>
    obtain ⟨ms, hms, rfl⟩ := point_of_ok h
    obtain ⟨body, rfl, hbody⟩ := ih hms
    simp only [Bool.or_eq_true, decide_eq_true_eq, not_or] at hc
    exact ⟨_, rfl, hbody.plain hquote hc.1 hc.2⟩

theorem point_of_error {x : Except Fault (List Nat × List Char)} {n : Nat} {e : Fault}
    (h : (do
      let (ms, rest) ← x
      return (n :: ms, rest)) = .error e) : x = .error e := by
  cases x with
  | error e' => exact h
  | ok p => cases h

/-- A string is never too long. -/
theorem stringRest_ne_tooLong (s : List Char) : stringRest s ≠ .error .tooLong := by
  intro h
  fun_induction stringRest s with
  | case1 => cases h
  | case2 => cases h
  | case3 => cases h
  | case4 _ _ _ _ _ _ _ ih => exact ih (point_of_error h)
  | case5 => cases h
  | case6 _ _ _ _ _ ih => exact ih (point_of_error h)
  | case7 => cases h
  | case8 _ _ _ _ _ _ ih => exact ih (point_of_error h)

/-! ## Digits, fractions and exponents -/

/-- The fraction of a number with its point, or nothing, and the digits of it. -/
inductive Fraction : List Char → List Char → Prop
  | absent : Fraction [] []
  | point {ds : List Char} (hds : ∀ c ∈ ds, Text.isAsciiDigit c = true) (hne : ds ≠ []) :
      Fraction ('.' :: ds) ds

/-- The sign of an exponent, or nothing, and whether it is a minus. -/
inductive Sign : List Char → Bool → Prop
  | absent : Sign [] false
  | plus : Sign ['+'] false
  | minus : Sign ['-'] true

def isExponentMark (c : Char) : Bool := c = 'e' || c = 'E'

/-- The exponent of a number with its letter, or nothing, and the power of ten. -/
inductive Power : List Char → Int → Prop
  | absent : Power [] 0
  | letter {e : Char} {sign ds : List Char} {minus : Bool} (he : isExponentMark e = true)
      (hsign : Sign sign minus) (hds : ∀ c ∈ ds, Text.isAsciiDigit c = true) (hne : ds ≠ []) :
      Power (e :: (sign ++ ds)) (if minus then -(wholeValue ds : Int) else wholeValue ds)

/-- A text goes on with a number that stands in front of it: with a digit, with a point in front of
a digit, or with an exponent. -/
inductive GoesOn : List Char → Prop
  | digit {c : Char} {s : List Char} (hc : Text.isAsciiDigit c = true) : GoesOn (c :: s)
  | point {c : Char} {s : List Char} (hc : Text.isAsciiDigit c = true) : GoesOn ('.' :: c :: s)
  | exponent {e c : Char} {sign s : List Char} {minus : Bool} (he : isExponentMark e = true)
      (hsign : Sign sign minus) (hc : Text.isAsciiDigit c = true) : GoesOn (e :: (sign ++ c :: s))

/-- The text starts with no digit. -/
def NoDigit (s : List Char) : Prop := ∀ c ∈ s.head?, Text.isAsciiDigit c = false

variable {s r : List Char}

theorem digits_spec {s ds t : List Char} (h : digits s = (ds, t)) :
    s = ds ++ t ∧ ∀ c ∈ ds, Text.isAsciiDigit c = true := by
  cases h
  exact ⟨List.takeWhile_append_dropWhile.symm, List.all_eq_true.mp List.all_takeWhile⟩

theorem digits_append {ds : List Char} (hds : ∀ c ∈ ds, Text.isAsciiDigit c = true)
    (hr : NoDigit r) : digits (ds ++ r) = (ds, r) := by
  have hstop : r.takeWhile Text.isAsciiDigit = [] ∧ r.dropWhile Text.isAsciiDigit = r := by
    cases r with
    | nil => exact ⟨rfl, rfl⟩
    | cons c r => simp [hr c rfl]
  rw [digits, List.takeWhile_append_of_pos hds, List.dropWhile_append_of_pos hds, hstop.1, hstop.2,
    List.append_nil]

theorem noDigit_of_digits {ds : List Char} (h : digits s = (ds, r)) : NoDigit r := by
  cases h
  intro c hc
  cases hdigit : Text.isAsciiDigit c with
  | false => rfl
  | true =>
    have hhead := List.head?_dropWhile_not Text.isAsciiDigit s
    rw [hc] at hhead
    simp [hdigit] at hhead

theorem digits_cons {c : Char} (hc : Text.isAsciiDigit c = true) (s : List Char) :
    (digits (c :: s)).1.isEmpty = false := by
  simp [digits, hc]

/-- Either digits are at the front, or none. -/
theorem digits_cases (s : List Char) :
    ((digits s).1 = [] ∧ NoDigit s) ∨
      ∃ ds t, digits s = (ds, t) ∧ s = ds ++ t ∧ (∀ c ∈ ds, Text.isAsciiDigit c = true) ∧ ds ≠ [] ∧
        NoDigit t := by
  rcases h : digits s with ⟨ds, t⟩
  obtain ⟨rfl, hds⟩ := digits_spec h
  have ht := noDigit_of_digits h
  by_cases hne : ds = []
  · subst hne
    exact Or.inl ⟨rfl, ht⟩
  · exact Or.inr ⟨ds, t, rfl, rfl, hds, hne, ht⟩

/-- A whole number is at the front, with no digit behind it unless it is a zero. -/
theorem wholePart_spec {whole t : List Char} (h : wholePart s = some (whole, t)) :
    s = whole ++ t ∧ Whole whole ∧ (NoDigit t ∨ whole = ['0']) := by
  unfold wholePart at h
  split at h
  · cases h
    exact ⟨rfl, ⟨fun c hc => by rw [List.mem_singleton.mp hc]; rfl, by simp, fun _ => rfl⟩,
      Or.inr rfl⟩
  · next hzero =>
    rcases digits_cases s with ⟨hnil, -⟩ | ⟨ds, u, hread, rfl, hdigits, hne, hu⟩
    · simp [hnil] at h
    · simp only [hread, List.isEmpty_iff, if_neg hne, Option.some.injEq, Prod.mk.injEq] at h
      obtain ⟨rfl, rfl⟩ := h
      refine ⟨rfl, ⟨hdigits, hne, fun hhead => ?_⟩, Or.inl hu⟩
      obtain ⟨c, ds, rfl⟩ := List.exists_cons_of_ne_nil hne
      cases hhead
      exact (hzero _ rfl).elim

theorem wholePart_append {whole : List Char} (hw : Whole whole) (hr : NoDigit r ∨ whole = ['0']) :
    wholePart (whole ++ r) = some (whole, r) := by
  by_cases hzero : whole = ['0']
  · rw [hzero]
    rfl
  · have hread := digits_append hw.digits (hr.resolve_right hzero)
    obtain ⟨c, ds, rfl⟩ := List.exists_cons_of_ne_nil hw.ne_nil
    rw [List.cons_append] at hread ⊢
    rw [wholePart]
    · simp [hread]
    · intro t ht
      cases ht
      exact hzero (hw.zero rfl)

/-- Either a point with digits behind it is at the front, or no fraction. -/
theorem fractionPart_cases (s : List Char) :
    fractionPart s = ([], s) ∨
      ∃ ds t, fractionPart s = (ds, t) ∧ s = '.' :: (ds ++ t) ∧
        (∀ c ∈ ds, Text.isAsciiDigit c = true) ∧ ds ≠ [] ∧ NoDigit t := by
  unfold fractionPart
  split
  · next u =>
    rcases digits_cases u with ⟨hnil, -⟩ | ⟨ds, t, hread, rfl, hdigits, hne, ht⟩
    · exact Or.inl (by simp [hnil])
    · exact Or.inr ⟨ds, t, by simp [hread, hne], rfl, hdigits, hne, ht⟩
  · exact Or.inl rfl

/-- The sign at the front of a text. -/
theorem exists_sign (t : List Char) :
    ∃ sign minus u, t = sign ++ u ∧ Sign sign minus ∧
      (sign = [] → ∀ c ∈ u.head?, c ≠ '+' ∧ c ≠ '-') := by
  by_cases hplus : t.head? = some '+'
  · obtain ⟨u, rfl⟩ := List.head?_eq_some_iff.mp hplus
    exact ⟨['+'], false, u, rfl, .plus, nofun⟩
  by_cases hminus : t.head? = some '-'
  · obtain ⟨u, rfl⟩ := List.head?_eq_some_iff.mp hminus
    exact ⟨['-'], true, u, rfl, .minus, nofun⟩
  refine ⟨[], false, t, rfl, .absent, fun _ c hc => ⟨?_, ?_⟩⟩
  · rintro rfl
    exact hplus hc
  · rintro rfl
    exact hminus hc

theorem exponentPart_cons {e : Char} {sign u : List Char} {minus : Bool}
    (he : isExponentMark e = true) (hsign : Sign sign minus)
    (hu : sign = [] → ∀ c ∈ u.head?, c ≠ '+' ∧ c ≠ '-') :
    exponentPart (e :: (sign ++ u)) =
      if (digits u).1.isEmpty then (none, e :: (sign ++ u))
      else (some (if minus then -(wholeValue (digits u).1 : Int) else wholeValue (digits u).1),
        (digits u).2) := by
  rw [isExponentMark] at he
  cases hsign with
  | plus => simp [exponentPart, he, wholeValue]
  | minus => simp [exponentPart, he, wholeValue]
  | absent =>
    cases u with
    | nil => simp [exponentPart, he, digits]
    | cons c u =>
      obtain ⟨hplus, hminus⟩ := hu rfl c rfl
      rw [List.nil_append, exponentPart, if_pos he]
      · rfl
      · exact fun _ h => hminus (List.cons.inj h).1
      · exact fun _ h => hplus (List.cons.inj h).1

/-- Either an exponent is at the front, or none. -/
theorem exponentPart_cases (s : List Char) :
    exponentPart s = (none, s) ∨
      ∃ power n t, exponentPart s = (some n, t) ∧ s = power ++ t ∧ Power power n ∧ power ≠ [] ∧
        NoDigit t := by
  cases s with
  | nil => exact Or.inl rfl
  | cons e t =>
    by_cases he : isExponentMark e = true
    · obtain ⟨sign, minus, u, rfl, hsign, hu⟩ := exists_sign t
      rw [exponentPart_cons he hsign hu]
      rcases digits_cases u with ⟨hnil, -⟩ | ⟨ds, v, hread, rfl, hdigits, hne, hv⟩
      · exact Or.inl (by rw [hnil]; rfl)
      · refine Or.inr ⟨e :: (sign ++ ds), _, v, by simp [hread, hne], by simp,
          .letter he hsign hdigits hne, nofun, hv⟩
    · refine Or.inl ?_
      rw [isExponentMark] at he
      unfold exponentPart
      exact if_neg he

/-- A digit is neither a sign nor another mark of a number. -/
theorem ne_marks_of_digit {c : Char} (hc : Text.isAsciiDigit c = true) : c ≠ '+' ∧ c ≠ '-' :=
  ⟨ne_of_isAsciiDigit hc '+' rfl, ne_of_isAsciiDigit hc '-' rfl⟩

/-- The reader of numbers sees whether the text goes on with one. -/
theorem not_goesOn_iff :
    ¬ GoesOn r ↔ NoDigit r ∧ fractionPart r = ([], r) ∧ exponentPart r = (none, r) := by
  constructor
  · intro h
    refine ⟨fun c hc => ?_, ?_, ?_⟩
    · obtain ⟨t, rfl⟩ := List.head?_eq_some_iff.mp hc
      cases hdigit : Text.isAsciiDigit c with
      | false => rfl
      | true => exact (h (.digit hdigit)).elim
    · rcases fractionPart_cases r with hnone | ⟨ds, t, -, rfl, hdigits, hne, -⟩
      · exact hnone
      · obtain ⟨c, ds, rfl⟩ := List.exists_cons_of_ne_nil hne
        exact (h (.point (hdigits c List.mem_cons_self))).elim
    · rcases exponentPart_cases r with hnone | ⟨power, n, t, -, rfl, hpower, hne, -⟩
      · exact hnone
      · cases hpower with
        | absent => exact (hne rfl).elim
        | @letter e sign ds minus he hsign hdigits hds =>
          obtain ⟨c, ds, rfl⟩ := List.exists_cons_of_ne_nil hds
          refine (h ?_).elim
          rw [List.cons_append, List.append_assoc]
          exact .exponent he hsign (hdigits c List.mem_cons_self)
  · rintro ⟨hdigit, hfraction, hexponent⟩ h
    cases h with
    | @digit c s hc =>
      have hnone := hdigit c rfl
      rw [hc] at hnone
      cases hnone
    | @point c s hc =>
      have hsome := digits_cons hc s
      simp only [fractionPart, hsome, Bool.false_eq_true, if_false] at hfraction
      rw [(Prod.mk.inj hfraction).1] at hsome
      cases hsome
    | @exponent e c sign s minus he hsign hc =>
      rw [exponentPart_cons he hsign fun _ d hd => by cases hd; exact ne_marks_of_digit hc,
        digits_cons hc] at hexponent
      cases hexponent

theorem fractionPart_append {part ds : List Char} (hpart : Fraction part ds) (hr : NoDigit r)
    (habsent : part = [] → fractionPart r = ([], r)) : fractionPart (part ++ r) = (ds, r) := by
  cases hpart with
  | absent => exact habsent rfl
  | point hdigits hne =>
    rw [List.cons_append, fractionPart, digits_append hdigits hr]
    simp [hne]

theorem exponentPart_append {power : List Char} {n : Int} (hpower : Power power n) (hr : NoDigit r)
    (habsent : power = [] → exponentPart r = (none, r)) :
    exponentPart (power ++ r) = (if power = [] then none else some n, r) := by
  cases hpower with
  | absent => exact habsent rfl
  | @letter e sign ds minus he hsign hdigits hne =>
    have hmarks : sign = [] → ∀ c ∈ (ds ++ r).head?, c ≠ '+' ∧ c ≠ '-' := by
      intro _ c hc
      obtain ⟨d, ds, rfl⟩ := List.exists_cons_of_ne_nil hne
      cases hc
      exact ne_marks_of_digit (hdigits c List.mem_cons_self)
    rw [List.cons_append, List.append_assoc, exponentPart_cons he hsign hmarks,
      digits_append hdigits hr]
    simp [hne]

/-- No fraction starts with the letter of an exponent, and no digit is that letter. -/
theorem Power.apart {power : List Char} {n : Int} (h : Power power n) (hne : power ≠ [])
    (r : List Char) : NoDigit (power ++ r) ∧ fractionPart (power ++ r) = ([], power ++ r) := by
  cases h with
  | absent => exact (hne rfl).elim
  | @letter e sign ds minus he _ _ _ =>
    simp only [isExponentMark, Bool.or_eq_true, decide_eq_true_eq] at he
    rcases he with rfl | rfl
    · exact ⟨by simp [NoDigit, Text.isAsciiDigit], rfl⟩
    · exact ⟨by simp [NoDigit, Text.isAsciiDigit], rfl⟩

/-! ## Blanks -/

def Blanks (b : List Char) : Prop := ∀ c ∈ b, isBlank c = true

variable {b : List Char}

theorem blanks_append_skipBlanks (s : List Char) : ∃ b, Blanks b ∧ s = b ++ skipBlanks s :=
  ⟨s.takeWhile isBlank, List.all_eq_true.mp List.all_takeWhile,
    List.takeWhile_append_dropWhile.symm⟩

theorem skipBlanks_append {c : Char} (hb : Blanks b) (hc : isBlank c = false) (s : List Char) :
    skipBlanks (b ++ c :: s) = c :: s := by
  rw [skipBlanks, List.dropWhile_append_of_pos hb]
  simp [hc]

/-- Neither blanks nor the marks behind values go on with a number. -/
theorem not_goesOn_cons {c : Char} (hc : isBlank c = true ∨ c ∈ [',', ']', '\x7d'])
    (s : List Char) : ¬ GoesOn (c :: s) := by
  have hapart : Text.isAsciiDigit c = false ∧ c ≠ '.' ∧ isExponentMark c = false := by
    simp only [isBlank, Bool.or_eq_true, decide_eq_true_eq, List.mem_cons, List.not_mem_nil,
      or_false, or_assoc] at hc
    rcases hc with rfl | rfl | rfl | rfl | rfl | rfl | rfl <;> decide
  obtain ⟨hdigit, hpoint, hletter⟩ := hapart
  intro h
  cases h with
  | digit h => rw [h] at hdigit; cases hdigit
  | point _ => exact hpoint rfl
  | exponent h _ _ => rw [h] at hletter; cases hletter

theorem not_goesOn_blanks (hb : Blanks b) : ¬ GoesOn b := by
  cases b with
  | nil => exact nofun
  | cons c b => exact not_goesOn_cons (Or.inl (hb c List.mem_cons_self)) b

theorem not_goesOn_append {c : Char} (hb : Blanks b) (hc : c ∈ [',', ']', '\x7d'])
    (s : List Char) : ¬ GoesOn (b ++ c :: s) := by
  cases b with
  | nil => exact not_goesOn_cons (Or.inr hc) s
  | cons d b => exact not_goesOn_cons (Or.inl (hb d List.mem_cons_self)) _

/-! ## Numbers -/

/-- The value of a whole number with a sign. -/
def integerValue (minus : Bool) (whole : List Char) : Value :=
  .int (if minus then -(wholeValue whole : Int) else wholeValue whole)

/-- The number nearest to a decimal number with a sign, given by its digits and the power of ten. -/
def decimalValue (minus : Bool) (whole fraction : List Char) (e : Int) : Value :=
  let x := Binary64.ofDecimal (wholeValue (whole ++ fraction)) (e - fraction.length)
  .float (if minus then x.neg else x)

/-- A number, and its value: an integer, or with a fraction, an exponent or both a binary number. -/
inductive NumberText : List Char → Value → Prop
  | integer (minus : Bool) {whole : List Char} (hw : Whole whole) :
      NumberText (minusSign minus ++ whole) (integerValue minus whole)
  | decimal (minus : Bool) {whole part ds power : List Char} {e : Int} (hw : Whole whole)
      (hpart : Fraction part ds) (hpower : Power power e) (hne : part ++ power ≠ []) :
      NumberText (minusSign minus ++ (whole ++ (part ++ power))) (decimalValue minus whole ds e)

/-- What is read where the whole part, the fraction and the exponent are known. -/
theorem unsigned_eq {whole t ds u : List Char} {e : Option Int} (minus : Bool)
    (hwhole : wholePart s = some (whole, t)) (hfraction : fractionPart t = (ds, u))
    (hexponent : exponentPart u = (e, r)) :
    unsigned minus s =
      if ds.isEmpty && e.isNone then
        if Numeral.digitLimit < whole.length then .error .tooLong
        else .ok (integerValue minus whole, r)
      else .ok (decimalValue minus whole ds (e.getD 0), r) := by
  simp only [unsigned, hwhole, hfraction, hexponent]
  rfl

theorem unsigned_integer {whole : List Char} (minus : Bool) (hw : Whole whole)
    (hr : ¬ GoesOn r) :
    unsigned minus (whole ++ r) =
      if Numeral.digitLimit < whole.length then .error .tooLong
      else .ok (integerValue minus whole, r) := by
  obtain ⟨hdigit, hfraction, hexponent⟩ := not_goesOn_iff.mp hr
  exact unsigned_eq minus (wholePart_append hw (Or.inl hdigit)) hfraction hexponent

theorem unsigned_float {whole part ds power : List Char} {n : Int} (minus : Bool)
    (hw : Whole whole) (hpart : Fraction part ds) (hpower : Power power n)
    (hne : part ++ power ≠ []) (hr : ¬ GoesOn r) :
    unsigned minus (whole ++ (part ++ (power ++ r))) = .ok (decimalValue minus whole ds n, r) := by
  obtain ⟨hdigit, hfraction, hexponent⟩ := not_goesOn_iff.mp hr
  have htail : NoDigit (power ++ r) ∧
      (part = [] → fractionPart (power ++ r) = ([], power ++ r)) := by
    by_cases hpower' : power = []
    · subst hpower'
      exact ⟨hdigit, fun _ => hfraction⟩
    · exact ⟨(hpower.apart hpower' r).1, fun _ => (hpower.apart hpower' r).2⟩
  have hrest : NoDigit (part ++ (power ++ r)) := by
    cases hpart with
    | absent => exact htail.1
    | point _ _ => simp [NoDigit, Text.isAsciiDigit]
  rw [unsigned_eq minus (wholePart_append hw (Or.inl hrest))
    (fractionPart_append hpart htail.1 htail.2)
    (exponentPart_append hpower hdigit fun _ => hexponent)]
  cases hpower with
  | absent =>
    cases hpart with
    | absent => exact (hne rfl).elim
    | point _ hds => simp [hds]
  | letter => simp

/-- What is at the front of a text whose first digits are a whole number. -/
theorem unsigned_cases (minus : Bool) (s : List Char) :
    unsigned minus s = .error .malformed ∨
      (∃ whole r, s = whole ++ r ∧ Whole whole ∧ (NoDigit r ∨ whole = ['0']) ∧
        fractionPart r = ([], r) ∧ exponentPart r = (none, r) ∧
        unsigned minus s =
          if Numeral.digitLimit < whole.length then .error .tooLong
          else .ok (integerValue minus whole, r)) ∨
      ∃ whole part ds power n r, s = whole ++ (part ++ power) ++ r ∧ Whole whole ∧
        Fraction part ds ∧ Power power n ∧ part ++ power ≠ [] ∧
        unsigned minus s = .ok (decimalValue minus whole ds n, r) := by
  cases hwhole : wholePart s with
  | none => exact Or.inl (by simp [unsigned, hwhole])
  | some p =>
    obtain ⟨whole, t⟩ := p
    obtain ⟨rfl, hw, ht⟩ := wholePart_spec hwhole
    refine Or.inr ?_
    rcases fractionPart_cases t with hfraction | ⟨ds, u, hfraction, rfl, hdigits, hne, -⟩
    · rcases exponentPart_cases t with hexponent | ⟨power, n, r, hexponent, rfl, hpower, hne, -⟩
      · exact Or.inl ⟨whole, t, rfl, hw, ht, hfraction, hexponent,
          unsigned_eq minus hwhole hfraction hexponent⟩
      · exact Or.inr ⟨whole, [], [], power, n, r, by simp, hw, .absent, hpower, by simpa using hne,
          unsigned_eq minus hwhole hfraction hexponent⟩
    · rcases exponentPart_cases u with hexponent | ⟨power, n, r, hexponent, rfl, hpower, -, -⟩
      · exact Or.inr ⟨whole, '.' :: ds, ds, [], 0, u, by simp, hw, .point hdigits hne, .absent,
          by simp, by rw [unsigned_eq minus hwhole hfraction hexponent]; simp [hne]⟩
      · exact Or.inr ⟨whole, '.' :: ds, ds, power, n, r, by simp, hw, .point hdigits hne, hpower,
          by simp, by rw [unsigned_eq minus hwhole hfraction hexponent]; simp⟩

/-- The sign of a number is read in front of it. -/
theorem number_eq (s : List Char) :
    ∃ minus t, s = minusSign minus ++ t ∧ number s = unsigned minus t := by
  unfold number
  split
  · exact ⟨true, _, rfl, rfl⟩
  · exact ⟨false, _, rfl, rfl⟩

theorem number_minusSign {c : Char} (hc : Text.isAsciiDigit c = true) (minus : Bool)
    (s : List Char) : number (minusSign minus ++ c :: s) = unsigned minus (c :: s) := by
  cases minus with
  | true => rfl
  | false =>
    rw [minusSign, if_neg Bool.false_ne_true, List.nil_append, number]
    exact fun t ht => (ne_marks_of_digit hc).2 (List.cons.inj ht).1

/-- What is read as a number is one. -/
theorem numberText_of_number {v : Value} (h : number s = .ok (v, r)) :
    ∃ t, s = t ++ r ∧ NumberText t v := by
  obtain ⟨minus, t, rfl, heq⟩ := number_eq s
  rw [heq] at h
  rcases unsigned_cases minus t with hread | ⟨whole, u, rfl, hw, -, -, -, hread⟩ |
    ⟨whole, part, ds, power, n, u, rfl, hw, hpart, hpower, hne, hread⟩
  · rw [hread] at h
    cases h
  · rw [hread] at h
    split at h
    · cases h
    · cases h
      exact ⟨_, by simp, .integer minus hw⟩
  · rw [hread] at h
    cases h
    exact ⟨_, by simp, .decimal minus hw hpart hpower hne⟩

/-- A number is read as what it is, unless it is an integer of too many digits. -/
theorem NumberText.number_append {t : List Char} {v : Value} (h : NumberText t v)
    (hr : ¬ GoesOn r) : number (t ++ r) = .ok (v, r) ∨ number (t ++ r) = .error .tooLong := by
  cases h with
  | @integer minus whole hw =>
    have hread := unsigned_integer minus hw hr
    obtain ⟨c, ds, rfl, hc⟩ := hw.head
    rw [List.append_assoc, List.cons_append, number_minusSign hc, ← List.cons_append, hread]
    split
    · exact Or.inr rfl
    · exact Or.inl rfl
  | @decimal minus whole part ds power e hw hpart hpower hne =>
    have hread := unsigned_float minus hw hpart hpower hne hr
    obtain ⟨c, ds', rfl, hc⟩ := hw.head
    refine Or.inl ?_
    rw [List.append_assoc, List.append_assoc, List.append_assoc, List.cons_append,
      number_minusSign hc, ← List.cons_append, hread]

/-- The text starts with an integer of more digits than the limit allows. -/
def StartsTooLong (s : List Char) : Prop :=
  ∃ minus whole r, s = minusSign minus ++ (whole ++ r) ∧ Whole whole ∧
    Numeral.digitLimit < whole.length ∧ ¬ GoesOn r

/-- A number cannot be read for its length if it is an integer of too many digits. -/
theorem number_eq_tooLong_iff : number s = .error .tooLong ↔ StartsTooLong s := by
  constructor
  · intro h
    obtain ⟨minus, t, rfl, heq⟩ := number_eq s
    rw [heq] at h
    rcases unsigned_cases minus t with hread |
      ⟨whole, u, rfl, hw, hdigit, hfraction, hexponent, hread⟩ |
      ⟨whole, part, ds, power, n, u, rfl, -, -, -, -, hread⟩
    · rw [hread] at h
      cases h
    · rw [hread] at h
      split at h
      · next hlong =>
        have hdigit := hdigit.resolve_right fun hzero => by
          rw [hzero] at hlong
          exact absurd hlong (by decide)
        exact ⟨minus, whole, u, rfl, hw, hlong, not_goesOn_iff.mpr ⟨hdigit, hfraction, hexponent⟩⟩
      · cases h
    · rw [hread] at h
      cases h
  · rintro ⟨minus, whole, r, rfl, hw, hlong, hr⟩
    have hread := unsigned_integer minus hw hr
    obtain ⟨c, ds, rfl, hc⟩ := hw.head
    rw [List.cons_append, number_minusSign hc, ← List.cons_append, hread, if_pos hlong]

/-! ## Words -/

/-- A text that starts with a digit, or with a minus and a digit, is no word. -/
theorem simple_of_digit {c : Char} {s : List Char} (hc : Text.isAsciiDigit c = true) :
    simple (c :: s) = number (c :: s) ∧ simple ('-' :: c :: s) = number ('-' :: c :: s) := by
  have hne : ∀ d, Text.isAsciiDigit d = false → d ≠ c := fun d hd h => by simp [h, hc] at hd
  have hn := hne 'n' rfl
  have ht := hne 't' rfl
  have hf := hne 'f' rfl
  have hN := hne 'N' rfl
  have hI := hne 'I' rfl
  have hm := hne '-' rfl
  constructor <;> simp [simple, words, Text.after?, hn, ht, hf, hN, hI, hm]

theorem simple_minusSign {c : Char} {s : List Char} (hc : Text.isAsciiDigit c = true)
    (minus : Bool) : simple (minusSign minus ++ c :: s) = number (minusSign minus ++ c :: s) := by
  cases minus with
  | true => exact (simple_of_digit hc).2
  | false => exact (simple_of_digit hc).1

theorem simple_word {w : List Char × Value} (hw : w ∈ words) (r : List Char) :
    simple (w.1 ++ r) = .ok (w.2, r) := by
  simp only [words, List.mem_cons, List.not_mem_nil, or_false] at hw
  rcases hw with rfl | rfl | rfl | rfl | rfl | rfl <;> rfl

/-- A word at the front, or else what is read as a number. -/
theorem simple_cases (s : List Char) :
    (∃ w ∈ words, ∃ r, s = w.1 ++ r ∧ simple s = .ok (w.2, r)) ∨ simple s = number s := by
  unfold simple
  split
  · next found hfound =>
    obtain ⟨w, hw, hread⟩ := List.exists_of_findSome?_eq_some hfound
    obtain ⟨rest, hrest, rfl⟩ := Option.map_eq_some_iff.mp hread
    exact Or.inl ⟨w, hw, rest, Text.after?_some hrest, rfl⟩
  · exact Or.inr rfl

end Json

end AnnotatedApi
