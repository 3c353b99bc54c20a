/-
  Keys on the line of their value. Such a key is not broken into lines, so that what is written for
  it is known to the character (`keyText`): it takes no line break, and if it is no wider than a
  reader looks back for the start of a key, it is read as a key (`key_of_legible`).
-/
import AnnotatedApi.Proofs.Yaml.Styles

namespace AnnotatedApi.Yaml

/-! ## The characters of a scalar -/

/-- What the pen writes for a scalar without a tag: the characters of the text that need no escape,
visible ASCII characters and line breaks. -/
theorem Pen.adds_scalar {P : Char → Bool}
    (hascii : ∀ c : Char, 0x20 ≤ c.toNat → c.toNat ≤ 0x7E → P c = true) {key : Bool} {tag : Tag}
    {s : List Char} (htag : ScalarText.showsTag key ⟨tag, .text s, false⟩ = false)
    (hraw : ∀ c ∈ s, isSpecial c = false → P c = true)
    (hquoted : ∀ c ∈ s, needsEscape c.toNat = false → P c = true)
    (hbreak : key = false ∨ (∃ c ∈ s, isInnerBreak c = true) → P '\n' = true) (indent : Nat)
    (p : Pen) : Adds P p (p.scalar key indent ⟨tag, .text s, false⟩) := by
  have hsplit : (!key) = true → P '\n' = true := fun h => hbreak (Or.inl (by simpa using h))
  simp only [scalar, htag, Bool.false_eq_true, if_false]
  have hstyle := style_text key tag s
  split at hstyle
  · next h =>
    simp only [Bool.and_eq_true] at h
    rw [hstyle]
    refine adds_plain hascii (fun c hc => ?_) hsplit
    have hne : s ≠ [] := List.ne_nil_of_mem hc
    have hfair := (unmarked_of_plain hne h.1.2).fair c hc
    simp only [isFair, Bool.and_eq_true, Bool.not_eq_true'] at hfair
    exact hraw c hc hfair.1
  · split at hstyle
    · next h =>
      simp only [Bool.and_eq_true] at h
      rw [hstyle]
      refine adds_single hascii (fun c hc => hraw c hc (isSpecial_of_single h.1 c hc))
        fun hline => ?_
      exact hbreak (hline.imp_left fun h => by simpa using h)
    · rw [hstyle]
      exact adds_double hascii hquoted hsplit

/-! ## The text of a key -/

/-- A character between double quotes. -/
def inDouble (c : Char) : List Char :=
  if Pen.needsEscape c.toNat then Pen.escaped c.toNat else [c]

/-- What is written for a key on the line of its value. -/
def keyText (s : List Char) : List Char :=
  match ScalarText.style true ⟨.str, .text s, false⟩ with
  | .plain => s
  | .single => '\'' :: s.flatMap inSingle ++ ['\'']
  | _ => '"' :: s.flatMap inDouble ++ ['"']

/-- A key on the line of its value is not empty and has no line breaks. -/
theorem oneLine_of_simple {s : List Char}
    (h : ScalarText.isSimpleKey 0 ⟨.str, .text s, false⟩ = true) :
    s ≠ [] ∧ ∀ c ∈ s, isInnerBreak c = false := by
  simp only [ScalarText.isSimpleKey, Content.chars, Bool.and_eq_true, Bool.not_eq_true'] at h
  have hne : s ≠ [] := by
    rintro rfl
    exact absurd h.1.2 (by decide)
  have hempty : s.isEmpty = false := by simpa using hne
  have hmultiline := h.2
  simp only [analysis, hempty, Bool.false_eq_true, if_false, List.any_eq_false] at hmultiline
  exact ⟨hne, fun c hc => by simpa using hmultiline c hc⟩

namespace Pen

theorem Wrote.eq {p q : Pen} {o o' : List Char} (h : Wrote p q o) (h' : Wrote p q o') : o = o' := by
  have hsame := List.append_cancel_right (h.symm.trans h')
  exact List.reverse_inj.mp hsame

theorem wrote_plain {s : List Char} (hne : s ≠ []) (indent : Nat) (p : Pen) :
    Wrote p (p.plain false indent s) (p.lead ++ s) := by
  have hruns : ∀ (rs : List (RunKind × List Char)) (p : Pen),
      Wrote p (rs.foldl (plainStep false indent) p) (rs.flatMap Prod.snd) := by
    intro rs
    induction rs with
    | nil => exact fun p => rfl
    | cons e rs ih =>
      intro p
      refine Wrote.trans ?_ (ih _)
      unfold plainStep spaceRun
      split
      · exact wrote_put p e.2
      · exact wrote_put p e.2
  have hall := p.wrote_lead.trans (hruns (runs s) _)
  rwa [(runs_spec s).2, ← plain_eq hne] at hall

theorem wrote_single {s : List Char} (hbreak : ∀ c ∈ s, isInnerBreak c = false) (indent : Nat)
    (p : Pen) :
    Wrote p (p.single false indent s) (p.lead ++ ('\'' :: s.flatMap inSingle ++ ['\''])) := by
  have hruns : ∀ (rs : List (RunKind × List Char)), Runs rs → (∀ c ∈ rs.flatMap Prod.snd, c ∈ s) →
      ∀ (first : Bool) (p : Pen), Wrote p (singleRuns false indent first rs p)
        ((rs.flatMap Prod.snd).flatMap inSingle) := by
    intro rs hrs
    induction hrs with
    | nil => exact fun _ _ _ => rfl
    | @cons k r rs hne hkind _ _ ih =>
      intro hmem first p
      rw [List.flatMap_cons, List.flatMap_append]
      rw [List.flatMap_cons] at hmem
      refine Wrote.trans ?_ (ih (fun c hc => hmem c (List.mem_append_right _ hc)) false _)
      cases k with
      | spaces =>
        obtain ⟨j, rfl⟩ := eq_spaces_of_kind hne hkind
        have hsame : (spaces (j + 1)).flatMap inSingle = spaces (j + 1) := by
          simp [spaces, List.flatMap_replicate, inSingle]
        rw [hsame]
        exact wrote_put p _
      | breaks =>
        obtain ⟨c, hc⟩ := List.exists_mem_of_ne_nil r hne
        have hnone := hbreak c (hmem c (List.mem_append_left _ hc))
        rw [runKind_eq_breaks.mp (hkind c hc)] at hnone
        cases hnone
      | others => exact wrote_put p _
  obtain ⟨hrs, htext⟩ := runs_spec s
  have hbody := hruns (runs s) hrs (fun c hc => htext ▸ hc) true
    (p.indicator ['\''] true false false)
  rw [htext] at hbody
  exact wrote_quotes hbody

theorem wrote_double (s : List Char) (indent : Nat) (p : Pen) :
    Wrote p (p.double false indent (s.map Char.toNat))
      (p.lead ++ ('"' :: s.flatMap inDouble ++ ['"'])) := by
  have hrest : ∀ (first afterEscape : Bool) (p : Pen),
      Wrote p (doubleRest false indent first afterEscape (s.map Char.toNat) p)
        (s.flatMap inDouble) := by
    induction s with
    | nil => exact fun _ _ _ => rfl
    | cons c s ih =>
      intro first afterEscape p
      rw [List.map_cons, doubleRest, List.flatMap_cons, inDouble]
      simp only [Bool.false_and, Bool.false_eq_true, if_false, Char.ofNat_toNat]
      split
      · exact (wrote_put p _).trans (ih _ _ _)
      · exact (wrote_put p _).trans (ih _ _ _)
  exact wrote_quotes (hrest true true _)

/-- A key is written as its text. -/
theorem wrote_key {s : List Char} (hsimple : ScalarText.isSimpleKey 0 ⟨.str, .text s, false⟩ = true)
    (indent : Nat) (p : Pen) :
    Wrote p (p.scalar true indent ⟨.str, .text s, false⟩) (p.lead ++ keyText s) := by
  obtain ⟨hne, hbreak⟩ := oneLine_of_simple hsimple
  have hstyle := style_text true .str s
  simp only [scalar, showsTag_text, Bool.false_eq_true, if_false, keyText]
  cases hkind : ScalarText.style true ⟨.str, .text s, false⟩ with
  | plain => exact wrote_plain hne indent p
  | single => exact wrote_single hbreak indent p
  | double => exact wrote_double s indent p
  | literal =>
    rw [hkind] at hstyle
    split at hstyle
    · cases hstyle
    · split at hstyle <;> cases hstyle

end Pen

/-- A legible key is written in one line and read as the key. -/
theorem key_of_legible {s : List Char} {indent : Nat} (hpos : 0 < indent)
    (hsimple : ScalarText.isSimpleKey 0 ⟨.str, .text s, false⟩ = true)
    (h : legible true indent s = true) (p : Pen) :
    (∃ plain, Pen.WroteScalar indent p (p.scalar true indent ⟨.str, .text s, false⟩) (keyText s) s
      plain ∧ (plain = true → implicitTag s = .str)) ∧ ∀ c ∈ keyText s, isInline c = true := by
  obtain ⟨o, plain, hwrote, htag⟩ := scalar_of_legible hpos h p
  obtain ⟨-, hbreak⟩ := oneLine_of_simple hsimple
  have htext := Pen.wrote_key hsimple indent p
  have ho : o = keyText s := List.append_cancel_left (hwrote.wrote.eq htext)
  obtain ⟨o', ho', hinline⟩ := @Pen.adds_scalar isInline (fun c => isInline_of_ascii) true .str s
    (showsTag_text true s)
    (fun c hc hspecial => isInline_of_isFair (by simp [isFair, hspecial, hbreak c hc]))
    (fun c _ => isInline_of_needsEscape)
    (fun hline => by
      obtain ⟨c, hc, hline⟩ := hline.resolve_left (by simp)
      rw [hbreak c hc] at hline
      cases hline) indent p
  subst ho
  refine ⟨⟨plain, hwrote, htag⟩, fun c hc => hinline c ?_⟩
  rw [ho'.eq htext]
  exact List.mem_append_right _ hc

end AnnotatedApi.Yaml
