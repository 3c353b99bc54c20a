/-
  Strings, words and numbers of JSON as scalars of YAML. What the reader of JSON takes from the
  front of a text is a scalar of YAML with the same value: a string without halves of characters is
  one in double quotes, a number with a point and a sign in its exponent is a float.
-/
import AnnotatedApi.Proofs.JsonText
import AnnotatedApi.Proofs.Yaml.Decimals
import AnnotatedApi.Proofs.Yaml.FlowSteps

namespace AnnotatedApi

namespace Json

open Yaml (QuotedAs quotedAs_nil Firm Solid Word isWordChar)

/-- Characters that stand for themselves in both notations: no tab and no line break but the line
feed. -/
def isCommonChar (c : Char) : Bool :=
  Yaml.isAllowed c && c ≠ '\t' && (c = '\n' || !Yaml.isBreak c)

/-! ## Strings -/

theorem escape?_yaml {e c : Char} (h : escape? e = some c) :
    Yaml.escape? e = some c ∧ Yaml.isBreak e = false := by
  obtain ⟨before, behind, htable, -⟩ := List.lookup_eq_some_iff.mp h
  have hall : ∀ p ∈ [('"', '"'), ('\\', '\\'), ('/', '/'), ('b', '\x08'), ('f', '\x0c'),
      ('n', '\n'), ('r', '\r'), ('t', '\t')],
      Yaml.escape? p.1 = some p.2 ∧ Yaml.isBreak p.1 = false := by decide
  exact hall (e, c) (by rw [htable]; simp)

theorem hexUnit?_yaml {a b c d : Char} {n : Nat} (h : hexUnit? a b c d = some n) :
    ([a, b, c, d].mapM Text.hexValue?).map (Text.ofDigits 16) = some n ∧
      ∀ e ∈ [a, b, c, d], Yaml.isInline e = true := by
  have hvalue : ([a, b, c, d].mapM Text.hexValue?).map (Text.ofDigits 16) = some n := by
    simpa [hexUnit?, Option.map_eq_bind, Option.bind_assoc] using h
  refine ⟨hvalue, fun e he => ?_⟩
  have hsome : (Text.hexValue? e).isSome = true := by
    simp only [hexUnit?, Option.bind_eq_bind, Option.bind_eq_some_iff] at h
    obtain ⟨_, ha, _, hb, _, hc, _, hd, -⟩ := h
    simp only [List.mem_cons, List.not_mem_nil, or_false] at he
    rcases he with rfl | rfl | rfl | rfl
    · rw [ha]; rfl
    · rw [hb]; rfl
    · rw [hc]; rfl
    · rw [hd]; rfl
  exact Yaml.isInline_of_class (P := fun e => (Text.hexValue? e).isSome) hsome (by decide)

/-- The text `t` is the body of a scalar in double quotes that is read as `ns`, the closing quote
and `r`; there is no line break in the body. -/
def Quotes (t : List Char) (ns : List Nat) (r : List Char) : Prop :=
  ∃ body, t = body ++ '"' :: r ∧ QuotedAs true body ns ∧ Firm body ∧
    ∀ c ∈ body, Yaml.isBreak c = false

namespace Quotes

variable {t r : List Char} {n : Nat} {ns : List Nat}

theorem unit {a b c d : Char} (h : Quotes t ns r) (hn : hexUnit? a b c d = some n)
    (hvalid : n.isValidChar) : Quotes ('\\' :: 'u' :: a :: b :: c :: d :: t) (n :: ns) r := by
  obtain ⟨body, rfl, hbody, -, hinside⟩ := h
  obtain ⟨hvalue, hdigits⟩ := hexUnit?_yaml hn
  have hlt : n < 0x110000 := by
    rcases hvalid with h | h
    · omega
    · exact h.2
  have hinline : ∀ e ∈ ['u', a, b, c, d], Yaml.isInline e = true :=
    List.forall_mem_cons.mpr ⟨by decide, hdigits⟩
  refine ⟨'\\' :: (['u', a, b, c, d] ++ body), rfl, hbody.number rfl rfl hvalue hlt hinline,
    Solid.firm (Yaml.solid_of_isGap (by decide) _), List.forall_mem_cons.mpr ⟨by decide, ?_⟩⟩
  exact List.forall_mem_append.mpr
    ⟨fun e he => Yaml.isBreak_of_isInline (hinline e he), hinside⟩

theorem letter {e c : Char} (h : Quotes t ns r) (hc : escape? e = some c) :
    Quotes ('\\' :: e :: t) (c.toNat :: ns) r := by
  obtain ⟨body, rfl, hbody, -, hinside⟩ := h
  obtain ⟨hescape, hbreak⟩ := escape?_yaml hc
  exact ⟨'\\' :: e :: body, rfl, hbody.letter hescape,
    Solid.firm (Yaml.solid_of_isGap (by decide) _),
    List.forall_mem_cons.mpr ⟨by decide, List.forall_mem_cons.mpr ⟨hbreak, hinside⟩⟩⟩

theorem char {c : Char} (h : Quotes t ns r) (hcommon : isCommonChar c = true) (hquote : c ≠ '"')
    (hback : c ≠ '\\') (hcontrol : ¬ c.toNat < 32) : Quotes (c :: t) (c.toNat :: ns) r := by
  obtain ⟨body, rfl, hbody, hfirm, hinside⟩ := h
  have hline : c ≠ '\n' := by
    rintro rfl
    exact hcontrol (by decide)
  simp only [isCommonChar, Bool.and_eq_true, Bool.or_eq_true, decide_eq_true_eq,
    Bool.not_eq_true', hline, false_or] at hcommon
  obtain ⟨⟨-, htab⟩, hbreak⟩ := hcommon
  refine ⟨c :: body, rfl, ?_⟩
  by_cases hblank : c = ' '
  · subst hblank
    exact ⟨hbody.blank hfirm, hfirm.blank, List.forall_mem_cons.mpr ⟨hbreak, hinside⟩⟩
  · have hgap : Yaml.isGap c = false := by simp [Yaml.isGap, hblank, htab, hbreak]
    have hordinary : Yaml.isOrdinary true c = true := by
      simp [Yaml.isOrdinary, hgap, Yaml.closing, hquote, hback]
    exact ⟨hbody.char hordinary, Solid.firm (Yaml.solid_of_isGap hgap _),
      List.forall_mem_cons.mpr ⟨hbreak, hinside⟩⟩

end Quotes

/-- A string up to its closing quote is the body of a scalar in double quotes. -/
theorem quotes_of_stringRest {t r : List Char} {ns : List Nat} (h : stringRest t = .ok (ns, r))
    (ht : ∀ c ∈ t, isCommonChar c = true) (hns : ∀ n ∈ ns, n.isValidChar) : Quotes t ns r := by
  fun_induction stringRest t generalizing ns with
  | case1 => cases h
  | case2 s =>
    cases h
    exact ⟨[], rfl, quotedAs_nil true, Solid.firm (by simp [Solid]), by simp⟩
  | case3 => cases h
  | case4 a b c d s n hn ih =>
    obtain ⟨ms, hms, rfl⟩ := point_of_ok h
    exact (ih hms (fun c hc => ht c (by simp [hc])) fun m hm => hns m (by simp [hm])).unit hn
      (hns n List.mem_cons_self)
  | case5 => cases h
  | case6 e s _ c hc ih =>
    obtain ⟨ms, hms, rfl⟩ := point_of_ok h
    exact (ih hms (fun c hc => ht c (by simp [hc])) fun m hm => hns m (by simp [hm])).letter hc
  | case7 => cases h
  | case8 c s hquote _ _ hc ih =>
    obtain ⟨ms, hms, rfl⟩ := point_of_ok h
    simp only [Bool.or_eq_true, decide_eq_true_eq, not_or] at hc
    exact (ih hms (fun c hc => ht c (by simp [hc])) fun m hm => hns m (by simp [hm])).char
      (ht c List.mem_cons_self) hquote hc.1 hc.2

/-- The text of code points that are all characters. -/
theorem ofUnits_of_valid {ns : List Nat} (h : ∀ n ∈ ns, n.isValidChar) :
    ofUnits ns = .str (String.ofList (ns.map Char.ofNat)) ∧
      (ns.map Char.ofNat).map Char.toNat = ns := by
  have hpoints : (ns.map Char.ofNat).map Char.toNat = ns := by
    rw [List.map_map]
    refine (List.map_congr_left fun n hn => ?_).trans (List.map_id ns)
    rw [Function.comp_apply, Char.ofNat, dif_pos (h n hn)]
    rfl
  refine ⟨?_, hpoints⟩
  rw [← ofUnits_toNat, hpoints]

/-! ## Numbers and words -/

/-- Whether an exponent starts with a sign. -/
def hasSign : List Char → Bool
  | _ :: c :: _ => c = '+' || c = '-'
  | _ => false

/-- An exponent that starts with its sign is one in both notations. -/
theorem Power.powerText {power : List Char} {n : Int} (h : Power power n) {r : List Char}
    (hsign : power ≠ [] → hasSign (power ++ r) = true) : PowerText power n := by
  cases h with
  | absent => exact .absent
  | @letter e sign ds minus he hmark hdigits hne =>
    have hletter : e = 'e' ∨ e = 'E' := by simpa [isExponentMark] using he
    have hsign := hsign (List.cons_ne_nil _ _)
    cases hmark with
    | absent =>
      obtain ⟨c, ds, rfl⟩ := List.exists_cons_of_ne_nil hne
      obtain ⟨hplus, hminus⟩ := ne_marks_of_digit (hdigits c List.mem_cons_self)
      simp [hasSign, hplus, hminus] at hsign
    | plus => exact .signed hletter (Or.inl rfl) hdigits hne
    | minus => exact .signed hletter (Or.inr rfl) hdigits hne

/-- Whether a number that has an exponent has a point in front of it and a sign in it. -/
def isCommonNumber (s : List Char) : Bool :=
  match wholePart s with
  | none => false
  | some (_, t) =>
    let (fraction, u) := fractionPart t
    (exponentPart u).1.isNone || (!fraction.isEmpty && hasSign u)

/-- The text `s` starts with a scalar that YAML reads as `v` where it stands plain in a flow
collection, and `r` follows it. -/
def StartsScalar (s : List Char) (v : Value) (r : List Char) : Prop :=
  ∃ o, s = o ++ r ∧ Word o ∧ (Yaml.implicitTag o).isScalar = true ∧
    Yaml.scalarValue none (Yaml.implicitTag o) (.text o) = .ok v

theorem word_of_digit {c : Char} {s : List Char} (hc : Text.isAsciiDigit c = true)
    (hs : ∀ d ∈ c :: s, isDecimalChar d = true) (minus : Bool) :
    Word (minusSign minus ++ c :: s) := by
  have halpha : c.isAlphanum = true :=
    @forall_isAsciiDigit (fun c => c.isAlphanum = true) (by decide) c hc
  have hchars : ∀ d ∈ c :: s, isWordChar d = true := fun d hd =>
    @forall_isDecimalChar (fun d => isWordChar d = true) (by decide) (by decide) d (hs d hd)
  cases minus with
  | true => exact ⟨List.forall_mem_cons.mpr ⟨by decide, hchars⟩,
      '-', c :: s, rfl, Or.inr ⟨rfl, c, s, rfl, halpha⟩⟩
  | false => exact ⟨hchars, c, s, rfl, Or.inl halpha⟩

theorem startsScalar_whole {whole : List Char} (h : Whole whole)
    (hlength : whole.length ≤ Numeral.digitLimit) (minus : Bool) (r : List Char) :
    StartsScalar (minusSign minus ++ (whole ++ r))
      (.int (if minus then -(wholeValue whole : Int) else wholeValue whole)) r := by
  have htag := Yaml.implicitTag_whole h minus
  refine ⟨minusSign minus ++ whole, (List.append_assoc _ _ _).symm, ?_, by rw [htag]; rfl, ?_⟩
  · obtain ⟨c, s, rfl, hc⟩ := h.head
    exact word_of_digit hc (fun d hd => by simp [isDecimalChar, h.digits d hd]) minus
  · rw [htag]
    show Value.int <$> Yaml.intValue (minusSign minus ++ whole) = _
    rw [Yaml.intValue_whole h hlength]
    rfl

theorem startsScalar_pointed {whole part power : List Char} {e : Int}
    (h : Pointed whole part power e) (minus : Bool) (r : List Char) :
    StartsScalar (minusSign minus ++ (pointedText whole part power ++ r))
      (.float (if minus then (pointedValue whole part e).neg else pointedValue whole part e))
      r := by
  have htag := Yaml.implicitTag_pointed h minus
  refine ⟨minusSign minus ++ pointedText whole part power, (List.append_assoc _ _ _).symm, ?_,
    by rw [htag]; rfl, ?_⟩
  · obtain ⟨c, s, hs, hc⟩ := h.head
    rw [hs]
    exact word_of_digit hc (hs ▸ h.chars) minus
  · rw [htag]
    show Value.float <$> Yaml.floatValue (minusSign minus ++ pointedText whole part power) = _
    rw [Yaml.floatValue_pointed h]
    rfl

/-- A number that both notations have. -/
theorem startsScalar_of_unsigned {minus : Bool} {s r : List Char} {v : Value}
    (h : unsigned minus s = .ok (v, r)) (hcommon : isCommonNumber s = true) :
    StartsScalar (minusSign minus ++ s) v r := by
  unfold isCommonNumber at hcommon
  cases hwhole : wholePart s with
  | none =>
    rw [hwhole] at hcommon
    cases hcommon
  | some p =>
    obtain ⟨whole, t⟩ := p
    simp only [hwhole] at hcommon
    obtain ⟨rfl, hw, -⟩ := wholePart_spec hwhole
    rcases fractionPart_cases t with hfraction | ⟨part, u, hfraction, rfl, hdigits, hne, -⟩
    · -- a whole number: without a fraction there is no exponent
      rcases exponentPart_cases t with hexponent | ⟨power, n, u, hexponent, -⟩
      · rw [unsigned_eq minus hwhole hfraction hexponent] at h
        simp only [List.isEmpty_nil, Option.isNone_none, Bool.and_self, if_true] at h
        split at h
        · cases h
        · next hlength =>
          cases h
          exact startsScalar_whole hw (Nat.not_lt.mp hlength) minus _
      · simp [hfraction, hexponent] at hcommon
    · have hpart : part.isEmpty = false := by simp [hne]
      rcases exponentPart_cases u with hexponent | ⟨power, n, u, hexponent, rfl, hpower, -, -⟩
      · have htext : whole ++ '.' :: (part ++ u) = pointedText whole part [] ++ u := by
          simp [pointedText]
        rw [unsigned_eq minus hwhole hfraction hexponent, hpart] at h
        cases h
        rw [htext]
        exact startsScalar_pointed ⟨hw, hdigits, hne, .absent⟩ minus r
      · have hsign : hasSign (power ++ u) = true := by
          simpa [hfraction, hexponent, hpart] using hcommon
        have htext : whole ++ '.' :: (part ++ (power ++ u)) =
            pointedText whole part power ++ u := by
          simp [pointedText]
        rw [unsigned_eq minus hwhole hfraction hexponent, hpart] at h
        cases h
        rw [htext]
        exact startsScalar_pointed ⟨hw, hdigits, hne, hpower.powerText fun _ => hsign⟩ minus r

/-- The words that both notations have. -/
def commonWords : List (List Char × Value) := words.take 3

/-- Whether a word or number at the front is read as the same one. -/
def isCommonSimple (s : List Char) : Bool :=
  (commonWords.any fun w => Text.startsWith w.1 s) ||
    match s with
    | '-' :: t => isCommonNumber t
    | _ => isCommonNumber s

theorem startsScalar_of_word {w : List Char × Value} (hw : w ∈ commonWords) (r : List Char) :
    StartsScalar (w.1 ++ r) w.2 r := by
  have hall : ∀ w ∈ commonWords, w.1.all isWordChar = true ∧
      w.1.head?.any Char.isAlphanum = true ∧ (Yaml.implicitTag w.1).isScalar = true ∧
      Yaml.scalarValue none (Yaml.implicitTag w.1) (.text w.1) = .ok w.2 := by
    decide
  obtain ⟨hchars, hfirst, htag, hvalue⟩ := hall w hw
  refine ⟨w.1, rfl, ⟨List.all_eq_true.mp hchars, ?_⟩, htag, hvalue⟩
  obtain ⟨o, v⟩ := w
  cases o with
  | nil => cases hfirst
  | cons c o => exact ⟨c, o, rfl, Or.inl hfirst⟩

theorem startsScalar_of_simple {s r : List Char} {v : Value} (h : simple s = .ok (v, r))
    (hcommon : isCommonSimple s = true) : StartsScalar s v r := by
  unfold simple at h
  split at h
  · next found hfound =>
    cases h
    obtain ⟨w, hw, hread⟩ := List.exists_of_findSome?_eq_some hfound
    obtain ⟨rest, hrest, heq⟩ := Option.map_eq_some_iff.mp hread
    cases heq
    obtain rfl := Text.after?_some hrest
    simp only [words, List.mem_cons, List.not_mem_nil, or_false] at hw
    rcases hw with rfl | rfl | rfl | rfl | rfl | rfl
    · exact startsScalar_of_word (by simp [commonWords, words]) r
    · exact startsScalar_of_word (by simp [commonWords, words]) r
    · exact startsScalar_of_word (by simp [commonWords, words]) r
    -- the words for numbers out of range are none of the other notation
    all_goals simp [isCommonSimple, commonWords, words, Text.startsWith, Text.after?,
      isCommonNumber, wholePart, digits, Text.isAsciiDigit] at hcommon
  · next hnone =>
    have hword : (commonWords.any fun w => Text.startsWith w.1 s) = false := by
      rw [List.any_eq_false]
      intro w hw hstarts
      have hread := List.findSome?_eq_none_iff.mp hnone w (List.mem_of_mem_take hw)
      rw [Option.map_eq_none_iff] at hread
      rw [Text.startsWith, hread] at hstarts
      cases hstarts
    unfold isCommonSimple at hcommon
    unfold number at h
    rw [hword, Bool.false_or] at hcommon
    split at h
    · exact @startsScalar_of_unsigned true _ _ _ h hcommon
    · next hminus =>
      split at hcommon
      · exact (hminus _ rfl).elim
      · exact @startsScalar_of_unsigned false _ _ _ h hcommon

end Json

end AnnotatedApi
