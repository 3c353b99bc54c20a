/-
  Integers to base sixteen. The limit on the digits of an integer is one of decimal numerals only:
  an integer in this notation is read whatever its length (`Yaml.read_hexadecimal`), also one that
  has too many decimal digits to be written out again (`Value.not_writable_pow`).
-/
import AnnotatedApi.Proofs.Blanks
import AnnotatedApi.Proofs.Yaml.FlowSteps
import AnnotatedApi.Proofs.Yaml.Layout

namespace AnnotatedApi

def isHexDigit (c : Char) : Bool := (Text.hexValue? c).isSome

def hexDigit (c : Char) : Nat := (Text.hexValue? c).getD 0

/-- The number that digits to base sixteen spell. -/
def hexNumber (ds : List Char) : Nat := Text.ofDigits 16 (ds.map hexDigit)

theorem toNat_lt_of_isAlphanum {c : Char} (h : c.isAlphanum = true) : c.toNat < 128 := by
  have hranges : (decide ('A' ≤ c ∧ c ≤ 'Z') || ('a' ≤ c && c ≤ 'z') || ('0' ≤ c && c ≤ '9')) =
      true := h
  have hle : ∀ d : Char, d.toNat < 128 → c ≤ d → c.toNat < 128 := fun d hd hc =>
    Nat.lt_of_le_of_lt (show c.toNat ≤ d.toNat from hc) hd
  simp only [Bool.or_eq_true, Bool.and_eq_true, decide_eq_true_eq] at hranges
  rcases hranges with (⟨-, hc⟩ | ⟨-, hc⟩) | ⟨-, hc⟩
  · exact hle 'Z' (by decide) hc
  · exact hle 'z' (by decide) hc
  · exact hle '9' (by decide) hc

theorem toNat_lt_of_isHexDigit {c : Char} (h : isHexDigit c = true) : c.toNat < 128 := by
  have hle : ∀ d : Char, d.toNat < 128 → c ≤ d → c.toNat < 128 := fun d hd hc =>
    Nat.lt_of_le_of_lt (show c.toNat ≤ d.toNat from hc) hd
  simp only [isHexDigit, Text.hexValue?, Text.isAsciiDigit, Bool.and_eq_true, decide_eq_true_eq]
    at h
  split at h
  · next hc => exact hle '9' (by decide) hc.2
  · split at h
    · next hc => exact hle 'f' (by decide) hc.2
    · split at h
      · next hc => exact hle 'F' (by decide) hc.2
      · cases h

/-- What holds of the digits to base sixteen, one by one. -/
theorem forall_isHexDigit {P : Char → Prop} {c : Char}
    (hall : ∀ k < 128, isHexDigit (Char.ofNat k) = true → P (Char.ofNat k))
    (hc : isHexDigit c = true) : P c :=
  @forall_of_toNat_lt (fun c => isHexDigit c = true → P c) 128 hall c (toNat_lt_of_isHexDigit hc) hc

theorem Text.ofDigits_pad (b : Nat) (ds : List Nat) (k : Nat) :
    ofDigits b (ds ++ List.replicate k 0) = b ^ k * ofDigits b ds := by
  induction k with
  | zero => simp
  | succ k ih =>
    rw [List.replicate_succ', ← List.append_assoc, ofDigits_concat, ih, Nat.pow_succ,
      Nat.mul_comm (b ^ k) b, Nat.mul_assoc, Nat.add_zero]

theorem hexNumber_power (n : Nat) : hexNumber ('1' :: List.replicate n '0') = 16 ^ n := by
  have hmap : ('1' :: List.replicate n '0').map hexDigit = [1] ++ List.replicate n 0 := by
    rw [List.map_cons, List.map_replicate]
    rfl
  rw [hexNumber, hmap, Text.ofDigits_pad]
  exact Nat.mul_one _

/-- A comparison of two small powers goes on to their powers. -/
theorem pow_le_pow_of_small {a b k l m n : Nat} (h : a ^ k ≤ b ^ m) (ha : 0 < a) (hb : 0 < b)
    (j : Nat) (hl : l ≤ k * j) (hn : m * j ≤ n) : a ^ l ≤ b ^ n := calc
  a ^ l ≤ a ^ (k * j) := Nat.pow_le_pow_right ha hl
  _ = (a ^ k) ^ j := Nat.pow_mul a k j
  _ ≤ (b ^ m) ^ j := Nat.pow_le_pow_left h j
  _ = b ^ (m * j) := (Nat.pow_mul b m j).symm
  _ ≤ b ^ n := Nat.pow_le_pow_right hb hn

/-- Such a number has more than 4300 decimal digits. -/
theorem Value.writable_power {n : Nat} (hn : 3600 ≤ n) : writable (16 ^ n : Nat) = false := by
  have hsmall : 10 ^ 43 ≤ 16 ^ 36 := by decide
  have hle : 10 ^ Numeral.digitLimit ≤ 16 ^ n :=
    pow_le_pow_of_small hsmall (by decide) (by decide) 100 (by decide) hn
  rw [Bool.eq_false_iff]
  intro hwritable
  exact Nat.not_lt.mpr hle ((Value.writable_iff _).mp hwritable)

section

variable {ds : List Char} (hds : ∀ c ∈ ds, isHexDigit c = true)

include hds

theorem ne_of_isHexDigit (d : Char) (hd : isHexDigit d = false) : ∀ c ∈ ds, c ≠ d := by
  rintro c hc rfl
  rw [hds c hc] at hd
  cases hd

/-- Digits to base sixteen are read as the number they spell, however many there are. -/
theorem Numeral.integer?_hexDigits (hne : ds ≠ []) : integer? 16 ds = .ok (hexNumber ds) := by
  have hpadding : unpadded ds = ds := unpadded_of_all fun c hc =>
    @forall_isHexDigit (fun c => isPadding c = false) c (by decide +kernel) (hds c hc)
  have hascii : ds.map asciiDigit = ds := by
    refine (List.map_congr_left fun c hc => ?_).trans (List.map_id ds)
    exact @forall_isHexDigit (fun c => asciiDigit c = c) c (by decide +kernel) (hds c hc)
  have hunmarked : unmarked 16 ds = ds := by
    unfold unmarked
    split
    · next c s =>
      have hx := ne_of_isHexDigit hds 'x' (by decide) c (by simp)
      have hX := ne_of_isHexDigit hds 'X' (by decide) c (by simp)
      have hupper : 'x'.toUpper = 'X' := by decide
      simp [baseMark, hx, hX, hupper]
    · rfl
  have hvalue : ∀ c ∈ ds, Text.hexValue? c = some (hexDigit c) ∧ hexDigit c < 16 := fun c hc =>
    @forall_isHexDigit (fun c => Text.hexValue? c = some (hexDigit c) ∧ hexDigit c < 16) c
      (by decide +kernel) (hds c hc)
  have hnatural : natural? 16 ds = .ok (hexNumber ds) := by
    have hmark : '_' ∉ ds := fun hmem => ne_of_isHexDigit hds '_' (by decide) _ hmem rfl
    rw [natural?, digits?_of_values hne hmark hvalue]
    rfl
  have hsign : ∀ d t, ds = d :: t → d ≠ '-' ∧ d ≠ '+' := fun d t e =>
    have hd : d ∈ ds := e ▸ List.mem_cons_self
    ⟨ne_of_isHexDigit hds '-' (by decide) d hd, ne_of_isHexDigit hds '+' (by decide) d hd⟩
  rw [integer?, hpadding, hascii]
  split
  · next t => exact absurd rfl (hsign '-' t rfl).1
  · next t => exact absurd rfl (hsign '+' t rfl).2
  · rw [hunmarked, hnatural]
    rfl

end

namespace Yaml

variable {s ds : List Char}

/-! ## Words of letters and digits -/

section

variable (hne : s ≠ []) (h : ∀ c ∈ s, c.isAlphanum = true)

include hne h

theorem unmarked_of_alphanum : Unmarked s := by
  have hmark : ∀ d : Char, d.isAlphanum = false → ∀ c ∈ s, c ≠ d := by
    rintro d hd c hc rfl
    rw [h c hc] at hd
    cases hd
  have hforall : ∀ {P : Char → Prop},
      (∀ k < 128, (Char.ofNat k).isAlphanum = true → P (Char.ofNat k)) → ∀ c ∈ s, P c :=
    fun {P} hall c hc => @forall_of_toNat_lt (fun c => c.isAlphanum = true → P c) 128 hall c
      (toNat_lt_of_isAlphanum (h c hc)) (h c hc)
  obtain ⟨a, t, hs⟩ := List.exists_cons_of_ne_nil hne
  have ha : a ∈ s := hs ▸ List.mem_cons_self
  refine ⟨hne, hforall (P := fun c => isFair c = true) (by decide +kernel), ?_, ?_, ?_, ?_, ?_, ?_⟩
  · exact fun hhead => hmark ' ' (by decide) _ (List.mem_of_head? hhead) rfl
  · exact fun hlast => hmark ' ' (by decide) _ (List.mem_of_getLast? hlast) rfl
  · have hfirst : ("#,[]\x7b\x7d&*!|>'\"%@`".toList.contains a ||
        (a = '?' || a = ':' || a = '-')) = false :=
      hforall (P := fun c => ("#,[]\x7b\x7d&*!|>'\"%@`".toList.contains c ||
        (c = '?' || c = ':' || c = '-')) = false) (by decide +kernel) a ha
    rw [Bool.or_eq_false_iff] at hfirst
    rw [hs, firstIndicator, hfirst.1, hfirst.2]
    rfl
  · exact innerIndicator_eq_false fun c hc =>
      ⟨hmark ':' (by decide) c hc, hmark '#' (by decide) c hc⟩
  · simp [hs, Text.startsWith, Text.after?, Ne.symm (hmark '-' (by decide) a ha)]
  · simp [hs, Text.startsWith, Text.after?, Ne.symm (hmark '.' (by decide) a ha)]

theorem scalarAs_of_alphanum (indent : Nat) : ScalarAs indent s s true := by
  have hunmarked := unmarked_of_alphanum hne h
  refine .plain (.run ⟨hne, ?_, fun c hc => isInline_of_isFair (hunmarked.fair c hc), ?_⟩) hunmarked
  · exact plainRun_of_isWordChar fun c hc => by simp [isWordChar, h c hc]
  · intro hhead
    have hhash := h _ (List.mem_of_head? hhead)
    exact absurd hhash (by decide)

end

/-! ## Integers to base sixteen -/

section

variable (hds : ∀ c ∈ ds, isHexDigit c = true) (hne : ds ≠ [])

include hds hne

theorem implicitTag_hexadecimal : implicitTag ('0' :: 'x' :: ds) = .int := by
  have hnotMem : ∀ d : Char, d ≠ '0' → d ≠ 'x' → isHexDigit d = false → d ∉ '0' :: 'x' :: ds := by
    intro d hzero hx hd hmem
    rcases List.mem_cons.mp hmem with rfl | hmem
    · exact hzero rfl
    · rcases List.mem_cons.mp hmem with rfl | hmem
      · exact hx rfl
      · exact ne_of_isHexDigit hds d hd d hmem rfl
  have hfinal := withoutFinalBreak_of_notMem (hnotMem '\n' (by decide) (by decide) (by decide))
  have htruth : isTruthWord ('0' :: 'x' :: ds) = false :=
    isTruthWord_of_digit (show Text.isAsciiDigit '0' = true from rfl) false
  have hfloat := isFloatText_of_notMem (hnotMem '.' (by decide) (by decide) (by decide))
  have hint : isIntText ('0' :: 'x' :: ds) = true := by
    have hall : allIn (fun c => (Text.hexValue? c).isSome) ds = true :=
      List.all_eq_true.mpr fun c hc => by simp [show (Text.hexValue? c).isSome = true from hds c hc]
    show (!ds.isEmpty && allIn (fun c => (Text.hexValue? c).isSome) ds) = true
    simp [hall, hne]
  simp only [implicitTag, hfinal, htruth, hfloat, hint, List.isEmpty_cons, Bool.false_eq_true,
    if_false, if_true]

theorem intValue_hexadecimal : intValue ('0' :: 'x' :: ds) = .ok (hexNumber ds) := by
  have hfilter : ('0' :: 'x' :: ds).filter (· ≠ '_') = '0' :: 'x' :: ds := by
    refine List.filter_eq_self.mpr fun c hc => ?_
    rcases List.mem_cons.mp hc with rfl | hc
    · rfl
    · rcases List.mem_cons.mp hc with rfl | hc
      · rfl
      · simpa using ne_of_isHexDigit hds '_' (by decide) c hc
  have hsigned : signed ('0' :: 'x' :: ds) = .ok (false, '0' :: 'x' :: ds) :=
    signed_of_digit (show Text.isAsciiDigit '0' = true from rfl) false
  rw [intValue, hfilter, hsigned, ok_bind]
  show (ofNumeral (Numeral.integer? 16 ds) >>= _) = _
  rw [Numeral.integer?_hexDigits hds hne]
  rfl

theorem leaf_hexadecimal (indent : Nat) :
    Leaf indent ('0' :: 'x' :: ds) (.int (hexNumber ds))
      [.scalar (.text ('0' :: 'x' :: ds)) true] := by
  have hchars : ∀ c ∈ '0' :: 'x' :: ds, c.isAlphanum = true := by
    intro c hc
    rcases List.mem_cons.mp hc with rfl | hc
    · decide
    · rcases List.mem_cons.mp hc with rfl | hc
      · decide
      · exact @forall_isHexDigit (fun c => c.isAlphanum = true) c (by decide +kernel) (hds c hc)
  have htag : Compose.scalarTag true ('0' :: 'x' :: ds) none = .int :=
    implicitTag_hexadecimal hds hne
  refine .scalar (scalarAs_of_alphanum (by simp) hchars indent) (by rw [htag]; rfl) ?_
  rw [htag]
  show Value.int <$> intValue _ = _
  rw [Content.chars, intValue_hexadecimal hds hne]
  rfl

/-- **An integer to base sixteen is read whatever its length.** -/
theorem read_hexadecimal {name : List Char} (hname : ∀ c ∈ name, c.isAlphanum = true)
    (htag : implicitTag name = .str) (hlength : name.length ≤ 1024) :
    read (String.ofList (name ++ ':' :: ' ' :: '0' :: 'x' :: ds ++ ['\n'])) =
      .ok (.map none [(.str (String.ofList name), .int (hexNumber ds))]) := by
  have hnameNe : name ≠ [] := by
    rintro rfl
    exact absurd htag (by decide)
  have hscalar := scalarAs_of_alphanum hnameNe hname 2
  have hfair := (unmarked_of_alphanum hnameNe hname).fair
  have hinline : ∀ c ∈ name, isInline c = true := fun c hc => isInline_of_isFair (hfair c hc)
  have hlaid : Laid (.entries [(.str (String.ofList name), .int (hexNumber ds))]) 0
      (name ++ ':' :: ' ' :: '0' :: 'x' :: ds) :=
    .lastEntry (.simpleEntry hscalar htag hinline hlength (.keyLeaf (leaf_hexadecimal hds hne 2)))
  have hall : ∀ c ∈ name ++ ':' :: ' ' :: '0' :: 'x' :: ds, isFair c = true := by
    intro c hc
    rcases List.mem_append.mp hc with hc | hc
    · exact hfair c hc
    · simp only [List.mem_cons] at hc
      rcases hc with rfl | rfl | rfl | rfl | hc
      · decide
      · decide
      · decide
      · decide
      · exact @forall_isHexDigit (fun c => isFair c = true) c (by decide +kernel) (hds c hc)
  refine read_of_laid hlaid (fun c hc => ?_) fun hmark => absurd (hall _ hmark) (by decide)
  have hc := hall c hc
  rw [isFair, Bool.and_eq_true, Bool.not_eq_true'] at hc
  exact isAllowed_of_isSpecial hc.1

end

end Yaml

end AnnotatedApi
