/-
  How a scalar is written and read back. A text is written plain if nothing in it could be taken for
  an indicator and its notation is not that of another type, else between single quotes, and between
  double quotes if something in it must be escaped.

  Main statement: a text that is `legible` is written as a scalar that is read as the text, and not
  as a value of another type (`scalar_of_legible`). Numerals and words are written plain
  (`scalar_of_word`).
-/
import AnnotatedApi.Proofs.Yaml.Characters
import AnnotatedApi.Proofs.Yaml.Words

namespace AnnotatedApi.Yaml

/-! ## The choice of a style -/

/-- What a text that may be written plain is like. -/
structure Unmarked (s : List Char) : Prop where
  ne_nil : s ≠ []
  fair : ∀ c ∈ s, isFair c = true
  first : s.head? ≠ some ' '
  last : s.getLast? ≠ some ' '
  indicator : firstIndicator s = false
  inner : innerIndicator s = false
  dashes : Text.startsWith ['-', '-', '-'] s = false
  dots : Text.startsWith ['.', '.', '.'] s = false

theorem edge_of_not {o : Option Char} (h : (o.any fun c => c = ' ' || isInnerBreak c) = false) :
    o ≠ some ' ' := by
  rintro rfl
  cases h

theorem unmarked_of_plain {s : List Char} (hne : s ≠ []) (h : (analysis s).plain = true) :
    Unmarked s := by
  have hempty : s.isEmpty = false := by simpa using hne
  simp only [analysis, hempty, Bool.false_eq_true, if_false, Bool.not_eq_true',
    Bool.or_eq_false_iff, List.any_eq_false] at h
  obtain ⟨⟨⟨⟨⟨hfirst, hlast⟩, -⟩, -, hspecial⟩, hbreak⟩, ⟨⟨hdashes, hdots⟩, hindicator⟩,
    hinner⟩ := h
  refine ⟨hne, fun c hc => ?_, edge_of_not hfirst, edge_of_not hlast, hindicator, hinner, hdashes,
    hdots⟩
  simp [isFair, hspecial c hc, hbreak c hc]

theorem adjacent_eq_false {p q : Char → Bool} {s : List Char}
    (h : ∀ a ∈ s, ∀ b ∈ s, (p a && q b) = false) : adjacent p q s = false := by
  induction s with
  | nil => rfl
  | cons a s ih =>
    cases s with
    | nil => rfl
    | cons b s =>
      rw [adjacent, Bool.or_eq_false_iff]
      exact ⟨h a (by simp) b (by simp),
        ih fun c hc d hd => h c (List.mem_cons_of_mem _ hc) d (List.mem_cons_of_mem _ hd)⟩

theorem plain_of_unmarked {s : List Char} (h : Unmarked s) : (analysis s).plain = true := by
  have hempty : s.isEmpty = false := by simpa using h.ne_nil
  have hfair : ∀ c ∈ s, isSpecial c = false ∧ isInnerBreak c = false := fun c hc => by
    simpa [isFair] using h.fair c hc
  have hedge : ∀ o : Option Char, (∀ c ∈ o, c ∈ s) → o ≠ some ' ' →
      (o.any fun c => c = ' ' || isInnerBreak c) = false := by
    intro o ho hne
    cases o with
    | none => rfl
    | some c =>
      have hc : c ≠ ' ' := fun e => hne (e ▸ rfl)
      simp [hc, (hfair c (ho c rfl)).2]
  simp only [analysis, hempty, Bool.false_eq_true, if_false, Bool.not_eq_true',
    Bool.or_eq_false_iff, List.any_eq_false]
  refine ⟨⟨⟨⟨⟨hedge _ (fun c hc => List.mem_of_head? hc) h.first,
    hedge _ (fun c hc => List.mem_of_getLast? hc) h.last⟩, ?_⟩, ?_, ?_⟩, ?_⟩,
    ⟨⟨h.dashes, h.dots⟩, h.indicator⟩, h.inner⟩
  · exact adjacent_eq_false fun a ha b _ => by simp [(hfair a ha).2]
  · exact adjacent_eq_false fun a _ b hb => by simp [(hfair b hb).2]
  · exact fun c hc => by simp [(hfair c hc).1]
  · exact fun c hc => by simp [(hfair c hc).2]

theorem isSpecial_of_single {s : List Char} (h : (analysis s).single = true) :
    ∀ c ∈ s, isSpecial c = false := by
  intro c hc
  have hempty : s.isEmpty = false := by simpa using List.ne_nil_of_mem hc
  simp only [analysis, hempty, Bool.false_eq_true, if_false, Bool.not_eq_true',
    Bool.or_eq_false_iff, List.any_eq_false] at h
  simpa using h.2.2 c hc

theorem mild_of_single {s : List Char} (h : (analysis s).single = true) (hnext : '\x85' ∉ s) :
    Mild s := by
  by_cases hne : s = []
  · subst hne
    exact ⟨by simp, by simp, rfl, rfl⟩
  · have hspecial := isSpecial_of_single h
    have hempty : s.isEmpty = false := by simpa using hne
    simp only [analysis, hempty, Bool.false_eq_true, if_false, Bool.not_eq_true',
      Bool.or_eq_false_iff] at h
    exact ⟨hspecial, hnext, h.1, h.2.1⟩

theorem Unmarked.goes {s : List Char} (h : Unmarked s) : Goes 'x' s := by
  obtain ⟨c, t, rfl⟩ := List.exists_cons_of_ne_nil h.ne_nil
  have hindicator := h.indicator
  simp only [firstIndicator, Bool.or_eq_false_iff] at hindicator
  refine ⟨h.fair, ?_, h.last, ?_⟩
  · rintro hc
    rw [Option.some.inj hc] at hindicator
    exact absurd hindicator.1 (by decide)
  · have hcolon : (c = ':' && endOr isGap t) = false := by
      have := hindicator.2
      simp only [Bool.and_eq_false_iff, Bool.or_eq_false_iff] at this ⊢
      exact this.imp_left fun h => h.1.2
    rw [innerIndicator, hcolon, h.inner]
    simp [isGap, isBreak]

theorem Unmarked.bare {s : List Char} (h : Unmarked s) : Bare (runs s) := by
  obtain ⟨hruns, htext⟩ := runs_spec s
  have hnil : runs s ≠ [] := fun hnil => by
    rw [hnil] at htext
    exact h.ne_nil htext.symm
  refine bare_of_runs (runs s) hruns (fun e he => ?_) hnil 'x' (htext.symm ▸ h.goes)
  cases hrs : runs s with
  | nil => exact absurd hrs hnil
  | cons e' rs =>
    rw [hrs] at hruns htext he
    cases he
    cases hruns with
    | cons hne hkind _ _ =>
      obtain ⟨c, t, rfl⟩ := List.exists_cons_of_ne_nil hne
      have hc : c ∈ s := htext ▸ by simp
      have hspace : c ≠ ' ' := fun e => h.first (by rw [← htext, e]; rfl)
      rw [← hkind c List.mem_cons_self]
      refine RunKind.eq_others (fun e => hspace (runKind_eq_spaces.mp e)) fun e => ?_
      have hfair := h.fair c hc
      simp [isFair, runKind_eq_breaks.mp e] at hfair

/-! ## Scalars -/

/-- The blank that the pen writes before a scalar if none is there. -/
def Pen.lead (p : Pen) : List Char := if p.blank then [] else [' ']

/-- The text `o` is written for the scalar `s`, plain or quoted. -/
inductive ScalarAs (indent : Nat) : List Char → List Char → Bool → Prop
  | plain {o s : List Char} (h : PlainAs indent o s) (hs : Unmarked s) : ScalarAs indent o s true
  | quoted {body s : List Char} (double : Bool) (h : QuotedAs double body (s.map Char.toNat)) :
      ScalarAs indent (closing double :: body ++ [closing double]) s false

/-- From `p` to `q` the pen wrote a scalar that is read as `s`. -/
structure Pen.WroteScalar (indent : Nat) (p q : Pen) (o s : List Char) (plain : Bool) : Prop where
  wrote : Wrote p q (p.lead ++ o)
  blank : q.blank = false
  margin : q.margin = false
  scalar : ScalarAs indent o s plain

namespace Pen

theorem wrote_lead (p : Pen) : Wrote p (if p.blank then p else p.put [' ']).inside p.lead := by
  unfold lead
  split
  · exact rfl
  · exact wrote_put p [' ']

theorem plain_spec (split : Bool) (indent : Nat) {s : List Char} (hs : Unmarked s) (p : Pen) :
    ∃ o, WroteScalar indent p (p.plain split indent s) o s true := by
  obtain ⟨w, q, hq, hwrote, hblank, hmargin, hplain⟩ := plain_of_bare split indent hs.bare
    (if p.blank then p else p.put [' ']).inside rfl rfl
  rw [(runs_spec s).2] at hplain
  rw [plain_eq hs.ne_nil, hq]
  exact ⟨w, p.wrote_lead.trans hwrote, hblank, hmargin, .plain hplain hs⟩

theorem wrote_indicator (p : Pen) (c : Char) (blank margin : Bool) :
    Wrote p (p.indicator [c] true blank margin) (p.lead ++ [c]) := by
  unfold lead indicator
  cases p.blank <;> rfl

/-- Quotes around what is written between them. -/
theorem wrote_quotes {p q : Pen} {c : Char} {body : List Char}
    (h : Wrote (p.indicator [c] true false false) q body) :
    Wrote p (q.indicator [c] false false false) (p.lead ++ (c :: body ++ [c])) := by
  have hclose : Wrote q (q.indicator [c] false false false) [c] := by
    unfold indicator
    cases q.blank <;> rfl
  have hall := (wrote_indicator p c false false).trans (h.trans hclose)
  rwa [List.append_assoc] at hall

theorem single_spec (split : Bool) {indent : Nat} (hpos : 0 < indent) {s : List Char} (hs : Mild s)
    (p : Pen) : ∃ o, WroteScalar indent p (p.single split indent s) o s false := by
  obtain ⟨hruns, htext⟩ := runs_spec s
  have hmargin : (p.indicator ['\''] true false false).margin = false := Bool.and_false _
  obtain ⟨body, q, hq, hwrote, hquoted, -⟩ := singleRuns_of_mild split hpos hruns
    (htext.symm ▸ hs) true (p.indicator ['\''] true false false) (Or.inl hmargin)
    fun _ => Or.inl hmargin
  rw [htext] at hquoted
  rw [single, hq]
  exact ⟨_, wrote_quotes hwrote, rfl, Bool.and_false _, .quoted false hquoted⟩

theorem double_spec (split : Bool) {indent : Nat} (hpos : 0 < indent) {s : List Char}
    (hs : split = true → indent < width ∨ blankBehindEscape s = false) (p : Pen) :
    ∃ o, WroteScalar indent p (p.double split indent (s.map Char.toNat)) o s false := by
  have hmargin : (p.indicator ['"'] true false false).margin = false := Bool.and_false _
  obtain ⟨body, hbody⟩ := doubleRest_of_calm split hpos hs true true _ hmargin
  exact ⟨_, wrote_quotes hbody.wrote, rfl, Bool.and_false _, .quoted true hbody.quoted⟩

end Pen

/-- Whether a text in a document survives being written and read: a next-line character does not
between single quotes, and beyond the width neither does a blank right behind an escape. -/
def legible (key : Bool) (indent : Nat) (s : List Char) : Bool :=
  match ScalarText.style key ⟨.str, .text s, false⟩ with
  | .single => !s.contains '\x85'
  | .double => key || indent < Pen.width || !Pen.blankBehindEscape s
  | _ => true

/-- The styles of scalars that are not asked to be blocks. -/
theorem style_text (key : Bool) (tag : Tag) (s : List Char) :
    ScalarText.style key ⟨tag, .text s, false⟩ =
      if (implicitTag s = tag && (analysis s).plain &&
          !(key && ((analysis s).empty || (analysis s).multiline))) = true then .plain
      else if ((analysis s).single && !(key && (analysis s).multiline)) = true then .single
      else .double := by
  simp only [ScalarText.style, ScalarText.plainFits, Content.chars, Bool.not_false, Bool.true_and,
    Bool.false_eq_true, if_false]
  rfl

/-- A text is written plain only if it is read as a text. -/
theorem implicitTag_of_plain {key : Bool} {tag : Tag} {s : List Char}
    (h : ScalarText.style key ⟨tag, .text s, false⟩ = .plain) :
    implicitTag s = tag ∧ (analysis s).plain = true := by
  rw [style_text] at h
  split at h
  · next hplain =>
    simp only [Bool.and_eq_true, decide_eq_true_eq] at hplain
    exact hplain.1
  · split at h <;> cases h

/-- The tag of a text is not written. -/
theorem showsTag_text (key : Bool) (s : List Char) :
    ScalarText.showsTag key ⟨.str, .text s, false⟩ = false := by
  unfold ScalarText.showsTag
  split
  · next h => simp [ScalarText.plainFits, Content.chars, (implicitTag_of_plain h).1]
  · rfl

/-- A text that is legible is written as a scalar that is read as it. -/
theorem scalar_of_legible {key : Bool} {indent : Nat} (hpos : 0 < indent) {s : List Char}
    (h : legible key indent s = true) (p : Pen) :
    ∃ o plain, Pen.WroteScalar indent p (p.scalar key indent ⟨.str, .text s, false⟩) o s plain ∧
      (plain = true → implicitTag s = .str) := by
  have hstyle := style_text key .str s
  simp only [Pen.scalar, showsTag_text, Bool.false_eq_true, if_false]
  cases hkind : ScalarText.style key ⟨.str, .text s, false⟩ with
  | literal =>
    rw [hkind] at hstyle
    split at hstyle
    · cases hstyle
    · split at hstyle <;> cases hstyle
  | plain =>
    obtain ⟨htag, hplain⟩ := implicitTag_of_plain hkind
    have hne : s ≠ [] := by
      rintro rfl
      exact absurd htag (by decide)
    obtain ⟨o, ho⟩ := Pen.plain_spec (!key) indent (unmarked_of_plain hne hplain) p
    exact ⟨o, true, ho, fun _ => htag⟩
  | single =>
    rw [hkind] at hstyle
    split at hstyle
    · cases hstyle
    · split at hstyle
      · next hsingle =>
        simp only [Bool.and_eq_true] at hsingle
        have hnext : '\x85' ∉ s := by simpa [legible, hkind] using h
        obtain ⟨o, ho⟩ := Pen.single_spec (!key) hpos (mild_of_single hsingle.1 hnext) p
        exact ⟨o, false, ho, fun h => by cases h⟩
      · cases hstyle
  | double =>
    have hcalm : (!key) = true → indent < Pen.width ∨ Pen.blankBehindEscape s = false := by
      intro hkey
      rw [legible, hkind] at h
      simpa [(Bool.not_eq_true' key).mp hkey] using h
    obtain ⟨o, ho⟩ := Pen.double_spec (!key) hpos hcalm p
    exact ⟨o, false, ho, fun h => by cases h⟩

section

variable {tag : Tag} {s : List Char} (hs : Unmarked s) (htag : implicitTag s = tag)

include hs htag

theorem style_word : ScalarText.style false ⟨tag, .text s, false⟩ = .plain := by
  rw [style_text, if_pos]
  simp [htag, plain_of_unmarked hs]

theorem showsTag_word : ScalarText.showsTag false ⟨tag, .text s, false⟩ = false := by
  simp [ScalarText.showsTag, style_word hs htag, ScalarText.plainFits, Content.chars, htag]

/-- A word that has the type it is written for is written plain. -/
theorem scalar_of_word (indent : Nat) (p : Pen) :
    ∃ o, Pen.WroteScalar indent p (p.scalar false indent ⟨tag, .text s, false⟩) o s true := by
  obtain ⟨o, ho⟩ := Pen.plain_spec true indent hs p
  refine ⟨o, ?_⟩
  simpa only [Pen.scalar, showsTag_word hs htag, style_word hs htag, Bool.false_eq_true, if_false,
    Content.chars, Bool.not_false] using ho

end

theorem innerIndicator_eq_false {s : List Char} (h : ∀ c ∈ s, c ≠ ':' ∧ c ≠ '#') :
    innerIndicator s = false := by
  induction s with
  | nil => rfl
  | cons a s ih =>
    cases s with
    | nil => rfl
    | cons b s =>
      rw [innerIndicator, ih fun c hc => h c (List.mem_cons_of_mem _ hc)]
      simp [h b (by simp)]

/-- Numerals may be written plain. -/
theorem unmarked_whole {ds : List Char} (h : Whole ds) (minus : Bool) :
    Unmarked (minusSign minus ++ ds) := by
  obtain ⟨c, s, rfl, hc⟩ := h.head
  have hmem : ∀ d ∈ minusSign minus ++ c :: s, d = '-' ∨ Text.isAsciiDigit d = true := by
    intro d hd
    rcases List.mem_append.mp hd with hd | hd
    · cases minus with
      | true => exact Or.inl (List.mem_singleton.mp hd)
      | false => cases hd
    · exact Or.inr (h.digits d hd)
  have hne : ∀ e : Char, e ≠ '-' → Text.isAsciiDigit e = false →
      ∀ d ∈ minusSign minus ++ c :: s, d ≠ e := fun e he hdigit d hd =>
    (hmem d hd).elim (fun h => h ▸ Ne.symm he) fun h => ne_of_isAsciiDigit h e hdigit
  refine ⟨by simp, ?_, ?_, ?_, ?_, ?_, ?_, ?_⟩
  · intro d hd
    rcases hmem d hd with rfl | hd
    · decide
    · exact @forall_isAsciiDigit (fun d => isFair d = true) (by decide) d hd
  · exact fun hhead => hne ' ' (by decide) (by decide) _ (List.mem_of_head? hhead) rfl
  · exact fun hlast => hne ' ' (by decide) (by decide) _ (List.mem_of_getLast? hlast) rfl
  · have hgap := @forall_isAsciiDigit (fun d => isGap d = false ∧
      "#,[]\x7b\x7d&*!|>'\"%@`".toList.contains d = false ∧ d ≠ '?' ∧ d ≠ ':' ∧ d ≠ '-')
      (by decide) c hc
    cases minus with
    | true =>
      show firstIndicator ('-' :: c :: s) = false
      rw [firstIndicator, endOr, hgap.1]
      rfl
    | false =>
      show firstIndicator (c :: s) = false
      rw [firstIndicator, hgap.2.1]
      simp [hgap]
  · exact innerIndicator_eq_false fun d hd =>
      ⟨hne ':' (by decide) (by decide) d hd, hne '#' (by decide) (by decide) d hd⟩
  · have hdash := ne_of_isAsciiDigit hc '-' (by decide)
    cases minus <;> simp [minusSign, Text.startsWith, Text.after?, Ne.symm hdash]
  · have hdot := ne_of_isAsciiDigit hc '.' (by decide)
    cases minus <;> simp [minusSign, Text.startsWith, Text.after?, Ne.symm hdot]

end AnnotatedApi.Yaml
