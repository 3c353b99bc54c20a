/-
  The characters that the pen writes for a scalar. For a class that holds the visible characters of
  ASCII, what the pen adds is of the class if the characters of the text are that it writes as they
  are, and the line feed is, in case a line is broken (`Adds`).
-/
import AnnotatedApi.Proofs.Yaml.DoubleQuotes

namespace AnnotatedApi.Yaml

namespace Pen

/-- From `p` to `q` the pen wrote characters of the class `P` only. -/
def Adds (P : Char → Bool) (p q : Pen) : Prop := ∃ o, Wrote p q o ∧ ∀ c ∈ o, P c = true

section

variable {P : Char → Bool} {p q r : Pen} {s : List Char}

theorem adds_of_out (h : q.out = p.out) : Adds P p q := ⟨[], h, by simp⟩

theorem Adds.trans (h : Adds P p q) (h' : Adds P q r) : Adds P p r := by
  obtain ⟨o, ho, hP⟩ := h
  obtain ⟨o', ho', hP'⟩ := h'
  exact ⟨o ++ o', ho.trans ho', fun c hc => (List.mem_append.mp hc).elim (hP c) (hP' c)⟩

theorem adds_put (hs : ∀ c ∈ s, P c = true) : Adds P p (p.put s) := ⟨s, wrote_put p s, hs⟩

theorem adds_foldl {α : Type} {step : Pen → α → Pen} {xs : List α}
    (h : ∀ x ∈ xs, ∀ p, Adds P p (step p x)) : Adds P p (xs.foldl step p) := by
  induction xs generalizing p with
  | nil => exact adds_of_out rfl
  | cons x xs ih =>
    exact (h x List.mem_cons_self p).trans (ih fun y hy => h y (List.mem_cons_of_mem _ hy))

theorem adds_lineBreak {c : Char} (hc : P c = true) : Adds P p (p.lineBreak c) :=
  ⟨[c], rfl, by simpa using hc⟩

variable (hascii : ∀ c : Char, 0x20 ≤ c.toNat → c.toNat ≤ 0x7E → P c = true)

include hascii

theorem adds_indicator (hs : ∀ c ∈ s, P c = true) (p : Pen) (needBlank blank margin : Bool) :
    Adds P p (p.indicator s needBlank blank margin) := by
  refine (adds_put ?_).trans (adds_of_out rfl)
  split
  · exact hs
  · exact List.forall_mem_cons.mpr ⟨hascii _ (by decide) (by decide), hs⟩

theorem adds_indentTo {indent : Nat} (hbreak : P '\n' = true) : Adds P p (p.indentTo indent) := by
  have hspaces : ∀ n, ∀ c ∈ List.replicate n ' ', P c = true := fun n c hc => by
    rw [List.eq_of_mem_replicate hc]
    exact hascii _ (by decide) (by decide)
  have hline : Adds P p (if !p.margin || indent < p.column || (p.column = indent && !p.blank)
      then p.lineBreak '\n' else p) := by
    split
    · exact adds_lineBreak hbreak
    · exact adds_of_out rfl
  refine hline.trans ?_
  unfold indentTo
  dsimp only
  generalize (if !p.margin || indent < p.column || (p.column = indent && !p.blank)
      then p.lineBreak '\n' else p) = q
  split
  · exact (adds_put (hspaces _)).trans (adds_of_out rfl)
  · exact adds_of_out rfl

theorem adds_spaceRun {fold : Bool} {indent : Nat} (hs : ∀ c ∈ s, P c = true)
    (hbreak : fold = true → P '\n' = true) : Adds P p (p.spaceRun fold indent s) := by
  unfold spaceRun
  split
  · next h =>
    simp only [Bool.and_eq_true] at h
    exact adds_indentTo hascii (hbreak h.1.1)
  · exact adds_put hs

theorem adds_plain {split : Bool} {indent : Nat} (hs : ∀ c ∈ s, P c = true)
    (hbreak : split = true → P '\n' = true) : Adds P p (p.plain split indent s) := by
  by_cases hne : s = []
  · subst hne
    exact adds_of_out rfl
  · have hmem : ∀ e ∈ runs s, ∀ c ∈ e.2, P c = true := fun e he c hc =>
      hs c ((runs_spec s).2 ▸ List.mem_flatMap.mpr ⟨e, he, hc⟩)
    rw [plain_eq hne]
    refine Adds.trans ?_ (adds_foldl fun e he q => ?_)
    · split
      · exact adds_of_out rfl
      · exact (adds_put (by simpa using hascii ' ' (by decide) (by decide))).trans (adds_of_out rfl)
    · unfold plainStep
      split
      · exact (adds_spaceRun hascii (hmem e he) hbreak).trans (adds_of_out rfl)
      · exact adds_put (hmem e he)

/-- Whether a line break is written: a long line is broken, or the text has one. -/
theorem adds_single {split : Bool} {indent : Nat} (hs : ∀ c ∈ s, P c = true)
    (hbreak : split = true ∨ (∃ c ∈ s, isInnerBreak c = true) → P '\n' = true) :
    Adds P p (p.single split indent s) := by
  have hquote : ∀ c ∈ ['\''], P c = true := by simpa using hascii '\'' (by decide) (by decide)
  have hruns : ∀ (rs : List (RunKind × List Char)), Runs rs → (∀ c ∈ rs.flatMap Prod.snd, c ∈ s) →
      ∀ (first : Bool) (p : Pen), Adds P p (singleRuns split indent first rs p) := by
    intro rs hrs
    induction hrs with
    | nil => exact fun _ _ _ => adds_of_out rfl
    | @cons k r rs hne hkind _ _ ih =>
      intro hmem first p
      rw [List.flatMap_cons] at hmem
      have hr : ∀ c ∈ r, c ∈ s := fun c hc => hmem c (List.mem_append_left _ hc)
      refine Adds.trans ?_ (ih (fun c hc => hmem c (List.mem_append_right _ hc)) false _)
      cases k with
      | spaces =>
        refine adds_spaceRun hascii (fun c hc => hs c (hr c hc)) fun hfold => hbreak (Or.inl ?_)
        simp only [Bool.and_eq_true] at hfold
        exact hfold.1.1
      | breaks =>
        obtain ⟨b, hb⟩ := List.exists_mem_of_ne_nil r hne
        have hnl := hbreak (Or.inr ⟨b, hr b hb, runKind_eq_breaks.mp (hkind b hb)⟩)
        refine Adds.trans (Adds.trans ?_ (adds_foldl fun c hc q => adds_lineBreak (hs c (hr c hc))))
          (adds_indentTo hascii hnl)
        split
        · exact adds_lineBreak hnl
        · exact adds_of_out rfl
      | others =>
        refine adds_put fun c hc => ?_
        obtain ⟨d, hd, hc⟩ := List.mem_flatMap.mp hc
        split at hc
        · exact hquote c (by simpa using hc)
        · rw [List.mem_singleton.mp hc]
          exact hs d (hr d hd)
  obtain ⟨hrs, htext⟩ := runs_spec s
  have hinner := hruns (runs s) hrs (fun c hc => htext ▸ hc) true
    (p.indicator ['\''] true false false)
  exact (adds_indicator hascii hquote p _ _ _).trans
    (hinner.trans (adds_indicator hascii hquote _ _ _ _))

theorem mem_escaped {n : Nat} {c : Char} (h : c ∈ escaped n) : P c = true := by
  have hhex : ∀ (l : Char) (width : Nat), 0x20 ≤ l.toNat → l.toNat ≤ 0x7E →
      ∀ c ∈ '\\' :: l :: Text.hexPadded true width n, P c = true := by
    intro l width hlow hhigh
    refine List.forall_mem_cons.mpr ⟨hascii _ (by decide) (by decide),
      List.forall_mem_cons.mpr ⟨hascii l hlow hhigh, fun c hc => ?_⟩⟩
    obtain ⟨hlow, hhigh⟩ := ascii_hexPadded true width n c hc
    exact hascii c hlow hhigh
  have hletters : ∀ e ∈ escapeLetters, 0x20 ≤ e.2.toNat ∧ e.2.toNat ≤ 0x7E := by decide
  unfold escaped at h
  split at h
  · next l hl =>
    obtain ⟨hlow, hhigh⟩ := hletters _ (mem_of_lookup hl)
    simp only [List.mem_cons, List.not_mem_nil, or_false] at h
    rcases h with rfl | rfl
    · exact hascii _ (by decide) (by decide)
    · exact hascii _ hlow hhigh
  · split at h
    · exact hhex 'x' 2 (by decide) (by decide) c h
    · split at h
      · exact hhex 'u' 4 (by decide) (by decide) c h
      · exact hhex 'U' 8 (by decide) (by decide) c h

theorem adds_doubleBreak {indent : Nat} {next : Option Nat} (hbreak : P '\n' = true) :
    Adds P p (p.doubleBreak indent next) := by
  have hslash : ∀ c ∈ ['\\'], P c = true := by simpa using hascii '\\' (by decide) (by decide)
  have hline : Adds P p ((p.put ['\\']).indentTo indent).inside :=
    (adds_put hslash).trans ((adds_indentTo hascii hbreak).trans (adds_of_out rfl))
  unfold doubleBreak
  dsimp only
  split
  · exact hline.trans (adds_put hslash)
  · exact hline

theorem adds_double {split : Bool} {indent : Nat}
    (hs : ∀ c ∈ s, needsEscape c.toNat = false → P c = true)
    (hbreak : split = true → P '\n' = true) :
    Adds P p (p.double split indent (s.map Char.toNat)) := by
  have hquote : ∀ c ∈ ['"'], P c = true := by simpa using hascii '"' (by decide) (by decide)
  have hrest : ∀ (first afterEscape : Bool) (p : Pen),
      Adds P p (doubleRest split indent first afterEscape (s.map Char.toNat) p) := by
    induction s with
    | nil => exact fun _ _ _ => adds_of_out rfl
    | cons c s ih =>
      intro first afterEscape p
      have hmore := ih fun d hd => hs d (List.mem_cons_of_mem _ hd)
      have hfold : ∀ (b : Bool) (q : Pen) (next : Option Nat), (b = true → split = true) →
          Adds P q (if b = true then q.doubleBreak indent next else q) := by
        intro b q next hb
        split
        · next h => exact adds_doubleBreak hascii (hbreak (hb h))
        · exact adds_of_out rfl
      rw [List.map_cons, doubleRest]
      split
      · refine (adds_put fun d hd => mem_escaped hascii hd).trans
          ((hfold _ _ _ ?_).trans (hmore _ _ _))
        simp only [Bool.and_eq_true]
        exact fun h => h.1.1.1
      · next hescape =>
        rw [Char.ofNat_toNat]
        refine ((hfold _ _ _ ?_).trans (adds_put ?_)).trans (hmore _ _ _)
        · simp only [Bool.and_eq_true]
          exact fun h => h.1.1.1.1
        · simpa using hs c List.mem_cons_self (Bool.eq_false_iff.mpr hescape)
  exact (adds_indicator hascii hquote p _ _ _).trans
    ((hrest true true _).trans (adds_indicator hascii hquote _ _ _ _))

end

end Pen

end AnnotatedApi.Yaml
