/-
  Decimal numbers: digits, a point, digits and perhaps an exponent with its sign. As a plain scalar
  such a number is a float, and its value is the number nearest to what its digits say.
-/
import AnnotatedApi.Proofs.Yaml.Words

namespace AnnotatedApi

namespace Text

/-- In ASCII, lower case is character by character. -/
theorem lower_of_ascii {s : List Char} (h : ∀ c ∈ s, c.toNat < 128) :
    lower s = s.map Char.toLower := by
  have hfrom : ∀ cased, lowerFrom cased s = s.map Char.toLower := by
    induction s with
    | nil => exact fun _ => rfl
    | cons c s ih =>
      intro cased
      have hc := h c List.mem_cons_self
      have hsigma : c ≠ 'Σ' := by
        rintro rfl
        exact absurd hc (by decide)
      rw [lowerFrom, ih fun d hd => h d (List.mem_cons_of_mem _ hd)]
      simp [hsigma, lowerChar, hc]
  exact hfrom false

end Text

/-- The text of an exponent, possibly none, and the number it stands for. -/
inductive PowerText : List Char → Int → Prop
  | absent : PowerText [] 0
  | signed {letter sign : Char} {ds : List Char} (hletter : letter = 'e' ∨ letter = 'E')
      (hsign : sign = '+' ∨ sign = '-') (hds : ∀ c ∈ ds, Text.isAsciiDigit c = true) (hne : ds ≠ []) :
      PowerText (letter :: sign :: ds)
        (if sign = '-' then -(wholeValue ds : Int) else wholeValue ds)

/-- The characters of a decimal number. -/
def isDecimalChar (c : Char) : Bool :=
  Text.isAsciiDigit c || c = '.' || c = 'e' || c = 'E' || c = '+' || c = '-'

theorem forall_isDecimalChar {P : Char → Prop} (hdigit : ∀ n < 10, P (Char.ofNat (48 + n)))
    (hmark : P '.' ∧ P 'e' ∧ P 'E' ∧ P '+' ∧ P '-') {c : Char} (hc : isDecimalChar c = true) :
    P c := by
  obtain ⟨hpoint, hlower, hupper, hplus, hminus⟩ := hmark
  simp only [isDecimalChar, Bool.or_eq_true, decide_eq_true_eq, or_assoc] at hc
  rcases hc with hc | rfl | rfl | rfl | rfl | rfl
  · exact forall_isAsciiDigit hdigit hc
  · exact hpoint
  · exact hlower
  · exact hupper
  · exact hplus
  · exact hminus

/-- A word that does not start with a digit is no text that does. -/
theorem ne_of_digit {c : Char} {s w : List Char} (hc : Text.isAsciiDigit c = true)
    (hw : w.head?.any Text.isAsciiDigit = false) : c :: s ≠ w := by
  rintro rfl
  rw [show Text.isAsciiDigit c = false from hw] at hc
  cases hc

/-- The digits before and behind the point, and the exponent. -/
structure Pointed (whole part power : List Char) (e : Int) : Prop where
  front : Whole whole
  digits : ∀ c ∈ part, Text.isAsciiDigit c = true
  ne_nil : part ≠ []
  exponent : PowerText power e

def pointedText (whole part power : List Char) : List Char := whole ++ '.' :: (part ++ power)

/-- The number nearest to a decimal number. -/
def pointedValue (whole part : List Char) (e : Int) : Binary64 :=
  Binary64.ofDecimal (wholeValue (whole ++ part)) (e - part.length)

theorem map_toLower_digits {ds : List Char} (hds : ∀ c ∈ ds, Text.isAsciiDigit c = true) :
    ds.map Char.toLower = ds := by
  refine (List.map_congr_left fun c hc => ?_).trans (List.map_id ds)
  exact @forall_isAsciiDigit (fun c => c.toLower = c) (by decide) c (hds c hc)

namespace PowerText

variable {power : List Char} {e : Int}

theorem chars (h : PowerText power e) : ∀ c ∈ power, isDecimalChar c = true := by
  cases h with
  | absent => simp
  | signed hletter hsign hds _ =>
    intro c hc
    simp only [List.mem_cons] at hc
    rcases hc with rfl | rfl | hc
    · rcases hletter with rfl | rfl <;> decide
    · rcases hsign with rfl | rfl <;> decide
    · simp [isDecimalChar, hds c hc]

theorem lower (h : PowerText power e) : PowerText (power.map Char.toLower) e := by
  cases h with
  | absent => exact .absent
  | @signed letter sign ds hletter hsign hds hne =>
    have hlow : letter.toLower = 'e' := by rcases hletter with rfl | rfl <;> rfl
    have hsame : sign.toLower = sign := by rcases hsign with rfl | rfl <;> rfl
    rw [List.map_cons, List.map_cons, hlow, hsame, map_toLower_digits hds]
    exact .signed (Or.inl rfl) hsign hds hne

end PowerText

namespace Pointed

variable {whole part power : List Char} {e : Int}

theorem chars (h : Pointed whole part power e) :
    ∀ c ∈ pointedText whole part power, isDecimalChar c = true := by
  intro c hc
  simp only [pointedText, List.mem_append, List.mem_cons] at hc
  rcases hc with hc | rfl | hc | hc
  · simp [isDecimalChar, h.front.digits c hc]
  · decide
  · simp [isDecimalChar, h.digits c hc]
  · exact h.exponent.chars c hc

theorem lower (h : Pointed whole part power e) : Pointed whole part (power.map Char.toLower) e :=
  ⟨h.front, h.digits, h.ne_nil, h.exponent.lower⟩

theorem notMem_lower (h : Pointed whole part power e) : 'E' ∉ power.map Char.toLower := by
  intro hmem
  obtain ⟨c, hc, hlower⟩ := List.mem_map.mp hmem
  exact @forall_isDecimalChar (fun c => c.toLower ≠ 'E') (by decide) (by decide) c
    (h.exponent.chars c hc) hlower

/-- In lower case only the letter of the exponent is another one. -/
theorem lower_text (h : Pointed whole part power e) (minus : Bool) :
    Text.lower (minusSign minus ++ pointedText whole part power) =
      minusSign minus ++ pointedText whole part (power.map Char.toLower) := by
  have hascii : ∀ c ∈ minusSign minus ++ pointedText whole part power, c.toNat < 128 := by
    intro c hc
    rcases List.mem_append.mp hc with hc | hc
    · cases minus with
      | true => rw [List.mem_singleton.mp hc]; decide
      | false => cases hc
    · exact @forall_isDecimalChar (fun c => c.toNat < 128) (by decide) (by decide) c (h.chars c hc)
  rw [Text.lower_of_ascii hascii, List.map_append]
  congr 1
  · cases minus <;> rfl
  · simp [pointedText, map_toLower_digits h.front.digits, map_toLower_digits h.digits]

theorem head (h : Pointed whole part power e) :
    ∃ c s, pointedText whole part power = c :: s ∧ Text.isAsciiDigit c = true := by
  obtain ⟨c, s, rfl, hc⟩ := h.front.head
  exact ⟨c, _, rfl, hc⟩

end Pointed

namespace Numeral

variable {whole part power : List Char} {e : Int}

/-- The exponent behind its letter. -/
theorem exponent?_sign {sign : Char} {ds : List Char} (hsign : sign = '+' ∨ sign = '-')
    (hds : ∀ c ∈ ds, Text.isAsciiDigit c = true) (hne : ds ≠ []) :
    exponent? (sign :: ds) =
      some (if sign = '-' then -(wholeValue ds : Int) else wholeValue ds) := by
  rcases hsign with rfl | rfl <;> simp [exponent?, digits?_digits hds hne, wholeValue]

theorem digitRun?_digits {ds : List Char} (hds : ∀ c ∈ ds, Text.isAsciiDigit c = true)
    (hne : ds ≠ []) : digitRun? ds = some (ds.map fun c => c.toNat - 48) := by
  rw [digitRun?, if_neg (by simpa using hne), digits?_digits hds hne]

/-- A decimal number in lower case, without its sign. -/
theorem unsigned?_pointed (h : Pointed whole part power e) (hlow : 'E' ∉ power) :
    unsigned? (pointedText whole part power) = some (pointedValue whole part e) := by
  have hnone : 'e' ∉ whole ++ '.' :: part := by
    intro hmem
    simp only [List.mem_append, List.mem_cons] at hmem
    rcases hmem with hmem | hmem | hmem
    · exact h.front.notMem 'e' (by decide) hmem
    · exact absurd hmem (by decide)
    · exact absurd (h.digits 'e' hmem) (by decide)
  have htext : pointedText whole part power = (whole ++ '.' :: part) ++ power := by
    simp [pointedText]
  -- cut at the letter, then at the point
  have hcut : ∃ p, Text.cutAt 'e' (pointedText whole part power) = (whole ++ '.' :: part, p) ∧
      p.elim (some 0) exponent? = some e := by
    rw [htext]
    cases h.exponent with
    | absent =>
      rw [List.append_nil]
      exact ⟨none, Text.cutAt_of_notMem hnone, rfl⟩
    | @signed letter sign ds hletter hsign hds hne =>
      obtain rfl : letter = 'e' := hletter.resolve_right fun e => hlow (by simp [e])
      exact ⟨some (sign :: ds), Text.cutAt_append hnone, exponent?_sign hsign hds hne⟩
  obtain ⟨p, hcut, hpower⟩ := hcut
  have hsome : (whole.map fun c => c.toNat - 48).isEmpty = false := by simpa using h.front.ne_nil
  simp only [unsigned?, hcut, Text.cutAt_append (h.front.notMem '.' (by decide)),
    digitRun?_digits h.front.digits h.front.ne_nil, Option.getD_some,
    digitRun?_digits h.digits h.ne_nil, hsome, pointedValue, wholeValue, List.map_append,
    List.length_map, Option.bind_eq_bind, Option.bind_some, Bool.false_and, Bool.false_eq_true,
    if_false]
  cases p with
  | none =>
    obtain rfl : 0 = e := Option.some.inj hpower
    rfl
  | some t =>
    rw [Option.elim_some] at hpower
    dsimp only
    rw [hpower]
    rfl

theorem number?_pointed (h : Pointed whole part power e) (hlow : 'E' ∉ power) :
    number? (pointedText whole part power) = some (pointedValue whole part e) := by
  have hunpadded := unpadded_of_all fun c hc =>
    @forall_isDecimalChar (fun c => isPadding c = false) (by decide) (by decide) c (h.chars c hc)
  have hdigit : (pointedText whole part power).map asciiDigit = pointedText whole part power := by
    refine (List.map_congr_left fun c hc => ?_).trans (List.map_id _)
    exact @forall_isDecimalChar (fun c => asciiDigit c = c) (by decide) (by decide) c (h.chars c hc)
  have hlower : power.map Char.toLower = power := by
    refine (List.map_congr_left fun c hc => ?_).trans (List.map_id _)
    exact @forall_isDecimalChar (fun c => c ≠ 'E' → c.toLower = c) (by decide) (by decide) c
      (h.exponent.chars c hc) fun e => hlow (e ▸ hc)
  have hsame : Text.lower (pointedText whole part power) = pointedText whole part power :=
    (h.lower_text false).trans (by rw [hlower]; rfl)
  rw [number?, hunpadded, hdigit, hsame]
  obtain ⟨c, s, hs, hc⟩ := h.head
  have hmagnitude :
      magnitude? (pointedText whole part power) = some (pointedValue whole part e) := by
    rw [magnitude?, if_neg, if_neg, unsigned?_pointed h hlow]
    · rw [hs]
      exact ne_of_digit hc (by decide)
    · rw [hs]
      simp only [Bool.or_eq_true, decide_eq_true_eq, not_or]
      exact ⟨ne_of_digit hc (by decide), ne_of_digit hc (by decide)⟩
  rw [hs] at hmagnitude ⊢
  split
  · next heq => exact absurd (List.cons.inj heq).1 (ne_of_isAsciiDigit hc '-' (by decide))
  · next heq => exact absurd (List.cons.inj heq).1 (ne_of_isAsciiDigit hc '+' (by decide))
  · exact hmagnitude

end Numeral

namespace Yaml

variable {whole part power : List Char} {e : Int}

theorem isExponent_power (h : PowerText power e) : isExponent power = true := by
  cases h with
  | absent => rfl
  | @signed letter sign ds hletter hsign hds hne =>
    have hall : ds.all Text.isAsciiDigit = true := List.all_eq_true.mpr hds
    have hsome : ds.isEmpty = false := by simpa using hne
    rcases hletter with rfl | rfl <;> rcases hsign with rfl | rfl <;> simp [isExponent, hall, hne]

/-- Behind the point the digits end where the exponent starts. -/
theorem isFractionText_part (h : Pointed whole part power e) :
    isFractionText (part ++ power) = true := by
  have hdigits : ∀ c ∈ part, (Text.isAsciiDigit c || c = '_') = true := fun c hc => by
    simp [h.digits c hc]
  have hstop : power.dropWhile (fun c => Text.isAsciiDigit c || c = '_') = power := by
    cases h.exponent with
    | absent => rfl
    | signed hletter _ _ _ => rcases hletter with rfl | rfl <;> rfl
  rw [isFractionText, List.dropWhile_append_of_pos hdigits, hstop, isExponent_power h.exponent]

theorem isFloatText_pointed (h : Pointed whole part power e) (minus : Bool) :
    isFloatText (minusSign minus ++ pointedText whole part power) = true := by
  obtain ⟨c, s, hs, hc⟩ := h.head
  have hunsigned : unsigned (minusSign minus ++ pointedText whole part power) =
      pointedText whole part power := by
    rw [hs, unsigned_of_digit hc]
  have hcut : Text.cutAt '.' (pointedText whole part power) = (whole, some (part ++ power)) :=
    Text.cutAt_append (h.front.notMem '.' (by decide))
  have hgrouped : isGrouped Text.isAsciiDigit whole = true := by
    obtain ⟨d, t, hw, hd⟩ := h.front.head
    have hmore : allIn Text.isAsciiDigit t = true := by
      rw [allIn, List.all_eq_true]
      exact fun d hd => by simp [h.front.digits d (by rw [hw]; exact List.mem_cons_of_mem _ hd)]
    rw [hw, isGrouped, hd, hmore]
    rfl
  have hempty : whole.isEmpty = false := by simpa using h.front.ne_nil
  simp only [isFloatText, hunsigned, hcut, hempty, Bool.false_eq_true, if_false,
    Text.splitAt_of_notMem (h.front.notMem ':' (by decide)), hgrouped, isFractionText_part h,
    Bool.and_self, Bool.or_true]

theorem implicitTag_pointed (h : Pointed whole part power e) (minus : Bool) :
    implicitTag (minusSign minus ++ pointedText whole part power) = .float := by
  obtain ⟨c, s, hs, hc⟩ := h.head
  have hfinal : withoutFinalBreak (minusSign minus ++ pointedText whole part power) =
      minusSign minus ++ pointedText whole part power := by
    refine withoutFinalBreak_of_notMem fun hmem => ?_
    rcases List.mem_append.mp hmem with hmem | hmem
    · cases minus <;> simp [minusSign] at hmem
    · exact absurd (h.chars _ hmem) (by decide)
  have htruth : isTruthWord (minusSign minus ++ pointedText whole part power) = false := by
    rw [hs]
    exact isTruthWord_of_digit hc minus
  have hempty : (minusSign minus ++ pointedText whole part power).isEmpty = false := by
    simp [hs]
  simp only [implicitTag, hempty, hfinal, htruth, isFloatText_pointed h, Bool.false_eq_true,
    if_false, if_true]

theorem signedFloat_pointed (h : Pointed whole part power e) (minus : Bool) :
    signedFloat (minusSign minus ++ pointedText whole part power) =
      .ok (minus, pointedText whole part (power.map Char.toLower)) := by
  have hfilter : (minusSign minus ++ pointedText whole part power).filter (· ≠ '_') =
      minusSign minus ++ pointedText whole part power := by
    refine List.filter_eq_self.mpr fun c hc => ?_
    rcases List.mem_append.mp hc with hc | hc
    · cases minus with
      | true => rw [List.mem_singleton.mp hc]; rfl
      | false => cases hc
    · exact @forall_isDecimalChar (fun c => decide (c ≠ '_') = true) (by decide) (by decide) c
        (h.chars c hc)
  obtain ⟨c, s, hs, hc⟩ := h.lower.head
  rw [signedFloat, hfilter, h.lower_text, hs, signed_of_digit hc]

/-- A decimal number is read as the number nearest to it. -/
theorem floatValue_pointed (h : Pointed whole part power e) (minus : Bool) :
    floatValue (minusSign minus ++ pointedText whole part power) =
      .ok (if minus then (pointedValue whole part e).neg else pointedValue whole part e) := by
  have hsigned := signedFloat_pointed h minus
  have hnumber := Numeral.number?_pointed h.lower h.notMem_lower
  have hcolon : (pointedText whole part (power.map Char.toLower)).contains ':' = false := by
    rw [List.contains_eq_mem, decide_eq_false_iff_not]
    exact fun hmem => absurd (h.lower.chars _ hmem) (by decide)
  obtain ⟨c, s, hs, hc⟩ := h.lower.head
  rw [hs] at hsigned hnumber hcolon
  have hnan : isNotANumber (minusSign minus ++ pointedText whole part power) = false := by
    simp only [isNotANumber, hsigned, decide_eq_false_iff_not]
    exact ne_of_digit hc (by decide)
  have hinf : c :: s ≠ ".inf".toList := ne_of_digit hc (by decide)
  rw [floatValue, hsigned, ok_bind]
  simp only [hnan, Bool.false_eq_true, if_false, if_neg hinf, hcolon, hnumber]
  rfl

end Yaml

end AnnotatedApi
