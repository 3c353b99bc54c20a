/-
  What the pen writes for a text without quotes and between single quotes. A text falls into runs of
  blanks, of line breaks and of other characters (`Runs`). Between the runs a long line may be
  broken in the place of a single blank, and line breaks of the text are written so that folding
  gives them back.

  Main statements: the runs of a plain scalar are written as text that is read as it
  (`Pen.plain_of_bare`), and so are those of a text between single quotes, if no blank stands beside
  a line break and no next-line character is among them (`Pen.singleRuns_of_mild`).
-/
import AnnotatedApi.Proofs.Yaml.Unquoted
import AnnotatedApi.Yaml.Pen

namespace AnnotatedApi.Yaml

/-! ## Runs -/

/-- Stretches of characters of one kind, no two of the same kind next to each other. -/
inductive Runs : List (RunKind × List Char) → Prop
  | nil : Runs []
  | cons {k : RunKind} {r : List Char} {rs : List (RunKind × List Char)} (hne : r ≠ [])
      (hkind : ∀ c ∈ r, runKind c = k) (hapart : ∀ e ∈ rs.head?, e.1 ≠ k) (hrs : Runs rs) :
      Runs ((k, r) :: rs)

theorem runs_spec (s : List Char) : Runs (runs s) ∧ (runs s).flatMap Prod.snd = s := by
  induction s with
  | nil => exact ⟨.nil, rfl⟩
  | cons c s ih =>
    rw [runs]
    cases h : runs s with
    | nil =>
      rw [h] at ih
      refine ⟨.cons (by simp) (by simp) (by simp) .nil, by simp [← ih.2]⟩
    | cons e rest =>
      obtain ⟨k, r⟩ := e
      rw [h] at ih
      obtain ⟨hruns, htext⟩ := ih
      dsimp only
      split
      · next hk =>
        cases hruns with
        | cons hne hkind hapart hrs =>
          refine ⟨.cons (by simp) ?_ hapart hrs, by simp [← htext]⟩
          exact List.forall_mem_cons.mpr ⟨hk.symm, hkind⟩
      · next hk =>
        refine ⟨.cons (by simp) (by simp) ?_ hruns, by simp [← htext]⟩
        rintro e he
        cases he
        exact hk

theorem RunKind.eq_others {k : RunKind} (hspaces : k ≠ .spaces) (hbreaks : k ≠ .breaks) :
    k = .others := by
  cases k <;> simp_all

theorem RunKind.eq_spaces {k : RunKind} (hothers : k ≠ .others) (hbreaks : k ≠ .breaks) :
    k = .spaces := by
  cases k <;> simp_all

theorem runKind_eq_spaces {c : Char} : runKind c = .spaces ↔ c = ' ' := by
  unfold runKind
  split
  · simp_all
  · split <;> simp_all

theorem runKind_eq_breaks {c : Char} : runKind c = .breaks ↔ isInnerBreak c = true := by
  unfold runKind
  split
  · next h => subst h; decide
  · split <;> simp_all

theorem eq_spaces_of_kind {r : List Char} (hne : r ≠ []) (hkind : ∀ c ∈ r, runKind c = .spaces) :
    ∃ j, r = spaces (j + 1) := by
  have hr : r = spaces r.length :=
    List.eq_replicate_iff.mpr ⟨rfl, fun c hc => runKind_eq_spaces.mp (hkind c hc)⟩
  have hpos := List.length_pos_iff.mpr hne
  exact ⟨r.length - 1, by rw [Nat.sub_add_cancel hpos]; exact hr⟩

/-! ## The pen -/

namespace Pen

/-- From `p` to `q` the pen wrote `o`. -/
def Wrote (p q : Pen) (o : List Char) : Prop := q.out = o.reverse ++ p.out

theorem Wrote.trans {p q r : Pen} {o o' : List Char} (h : Wrote p q o) (h' : Wrote q r o') :
    Wrote p r (o ++ o') := by
  unfold Wrote at *
  rw [h', h, List.reverse_append, List.append_assoc]

theorem wrote_put (p : Pen) (s : List Char) : Wrote p (p.put s) s := rfl

theorem wrote_mk (p : Pen) (o : List Char) (column : Nat) (blank margin : Bool) :
    Wrote p ⟨o.reverse ++ p.out, column, blank, margin⟩ o := rfl

/-- The pen goes to a new line unless it stands in the margin at the column or before it. -/
theorem indentTo_newLine {p : Pen} {indent : Nat} (h : p.margin = false ∨ indent < p.column) :
    p.indentTo indent = ⟨('\n' :: spaces indent).reverse ++ p.out, indent, true, true⟩ := by
  have hbreak : (!p.margin || indent < p.column || (p.column = indent && !p.blank)) = true := by
    rcases h with h | h <;> simp [h]
  unfold indentTo
  simp only [hbreak, if_true, lineBreak]
  cases indent with
  | zero => rfl
  | succ n => simp [put, spaces]

/-- In the margin before the column, the pen only moves on. -/
theorem indentTo_sameLine {p : Pen} {j : Nat} (hmargin : p.margin = true) (hj : 0 < j) :
    p.indentTo (p.column + j) = ⟨(spaces j).reverse ++ p.out, p.column + j, true, true⟩ := by
  have hbreak : (!p.margin || p.column + j < p.column ||
      (p.column = p.column + j && !p.blank)) = false := by
    simp [hmargin]
    omega
  unfold indentTo
  simp only [hbreak, Bool.false_eq_true, if_false]
  rw [if_pos (by omega), Nat.add_sub_cancel_left]
  simp [put, spaces, hmargin]

end Pen

/-! ## Plain scalars -/

/-- Characters that a scalar may hold without an escape, other than line breaks. -/
def isFair (c : Char) : Bool := !isSpecial c && !isInnerBreak c

theorem isAllowed_of_isSpecial {c : Char} (h : isSpecial c = false) : isAllowed c = true := by
  simp only [isSpecial, Bool.not_eq_false', Bool.or_eq_true, Bool.and_eq_true,
    decide_eq_true_eq] at h
  simp only [isAllowed, Bool.or_eq_true, Bool.and_eq_true, decide_eq_true_eq]
  omega

theorem isInline_of_isFair {c : Char} (h : isFair c = true) : isInline c = true :=
  isInline_of_class h (by decide)

theorem isGap_of_isFair {c : Char} (h : isFair c = true) (hc : c ≠ ' ') : isGap c = false := by
  have htab : c ≠ '\t' := by
    rintro rfl
    exact absurd h (by decide)
  simp [isGap, hc, htab, isBreak_of_isInline (isInline_of_isFair h)]

/-- A stretch of such characters is no stretch of line breaks. -/
theorem kind_ne_breaks {k : RunKind} {r : List Char} (hne : r ≠ [])
    (hkind : ∀ c ∈ r, runKind c = k) (hfair : ∀ c ∈ r, isFair c = true) : k ≠ .breaks := by
  rintro rfl
  obtain ⟨c, r, rfl⟩ := List.exists_cons_of_ne_nil hne
  have hbreak := runKind_eq_breaks.mp (hkind c List.mem_cons_self)
  have hc := hfair c List.mem_cons_self
  simp [isFair, hbreak] at hc

theorem innerIndicator_tail {a : Char} {s : List Char} (h : innerIndicator (a :: s) = false) :
    innerIndicator s = false := by
  cases s with
  | nil => rfl
  | cons b s =>
    simp only [innerIndicator, Bool.or_eq_false_iff] at h
    exact h.2

theorem innerIndicator_suffix {s t : List Char} (h : innerIndicator (s ++ t) = false) :
    innerIndicator t = false := by
  induction s with
  | nil => exact h
  | cons a s ih => exact ih (innerIndicator_tail h)

/-- A stretch without blanks in which no colon ends a key is read as it stands. -/
theorem plainRun_of_innerIndicator {a : Char} {r t : List Char} (hr : ∀ c ∈ r, isGap c = false)
    (ht : endOr isGap t = true) (h : innerIndicator (a :: (r ++ t)) = false) :
    plainRun false r = r := by
  induction r generalizing a with
  | nil => rfl
  | cons c r ih =>
    have hcolon : (c = ':' && endOr isGap (r ++ t)) = false := by
      simp only [List.cons_append, innerIndicator, Bool.or_eq_false_iff] at h
      exact h.1.1
    have hstop :
        (c = ':' && endOr (fun d => isGap d || (false && isFlowIndicator d)) r) = false := by
      cases r with
      | nil =>
        rw [List.nil_append, ht] at hcolon
        exact hcolon
      | cons d r => simp [endOr, hr d (by simp)]
    rw [plainRun, hr c List.mem_cons_self, hstop]
    simp only [Bool.or_self, Bool.false_and, Bool.false_eq_true, if_false]
    rw [ih (fun d hd => hr d (List.mem_cons_of_mem _ hd)) (innerIndicator_tail h)]

/-- The runs of a plain scalar: stretches that are read as they stand, with blanks between them. -/
inductive Bare : List (RunKind × List Char) → Prop
  | run {r : List Char} (hr : PlainRun r) : Bare [(.others, r)]
  | more {r : List Char} {j : Nat} {rs : List (RunKind × List Char)} (hr : PlainRun r)
      (hrs : Bare rs) : Bare ((.others, r) :: (.spaces, spaces (j + 1)) :: rs)

/-- Text that may stand in a plain scalar behind the character `a`. -/
structure Goes (a : Char) (s : List Char) : Prop where
  fair : ∀ c ∈ s, isFair c = true
  head : s.head? ≠ some '#'
  last : s.getLast? ≠ some ' '
  inner : innerIndicator (a :: s) = false

theorem Goes.plainRun {a : Char} {r t : List Char} (h : Goes a (r ++ t)) (hne : r ≠ [])
    (hkind : ∀ c ∈ r, runKind c = .others) (ht : endOr isGap t = true) : PlainRun r := by
  have hfair : ∀ c ∈ r, isFair c = true := fun c hc => h.fair c (List.mem_append_left _ hc)
  have hgap : ∀ c ∈ r, isGap c = false := fun c hc => isGap_of_isFair (hfair c hc) fun e => by
    have hspaces := hkind c hc
    rw [runKind_eq_spaces.mpr e] at hspaces
    cases hspaces
  refine ⟨hne, plainRun_of_innerIndicator hgap ht h.inner,
    fun c hc => isInline_of_isFair (hfair c hc), ?_⟩
  cases r with
  | nil => exact absurd rfl hne
  | cons c r => exact h.head

theorem Goes.behind_spaces {a : Char} {r t : List Char} {j : Nat}
    (h : Goes a (r ++ (spaces (j + 1) ++ t))) : Goes ' ' t := by
  have hsplit : a :: (r ++ (spaces (j + 1) ++ t)) = (a :: (r ++ spaces j)) ++ (' ' :: t) := by
    simp [spaces, List.replicate_succ']
  have hinner : innerIndicator (' ' :: t) = false := innerIndicator_suffix (hsplit ▸ h.inner)
  refine ⟨fun c hc => h.fair c (by simp [hc]), ?_, fun hlast => h.last ?_, hinner⟩
  · cases t with
    | nil => simp
    | cons c t =>
      rintro hc
      cases hc
      simp [innerIndicator, isGap] at hinner
  · simp [List.getLast?_append, hlast]

theorem bare_of_runs : (rs : List (RunKind × List Char)) → Runs rs →
    (∀ e ∈ rs.head?, e.1 = .others) → rs ≠ [] → (a : Char) → Goes a (rs.flatMap Prod.snd) → Bare rs
  | [], _ => fun _ hne => absurd rfl hne
  | (k, r) :: rs, .cons hne hkind hapart hrs => fun hfirst _ a hgoes => by
    obtain rfl : k = .others := hfirst _ rfl
    cases rs with
    | nil => exact .run (hgoes.plainRun hne hkind rfl)
    | cons e rest =>
      obtain ⟨k', sp⟩ := e
      have htext : ((RunKind.others, r) :: (k', sp) :: rest).flatMap Prod.snd =
          r ++ (sp ++ rest.flatMap Prod.snd) := by simp
      rw [htext] at hgoes
      cases hrs with
      | cons hspne hspkind hspapart hrest =>
        have hspfair : ∀ c ∈ sp, isFair c = true := fun c hc =>
          hgoes.fair c (List.mem_append_right _ (List.mem_append_left _ hc))
        obtain rfl : k' = .spaces := by
          have hothers := hapart _ rfl
          have hbreaks := kind_ne_breaks hspne hspkind hspfair
          exact RunKind.eq_spaces hothers hbreaks
        obtain ⟨j, rfl⟩ := eq_spaces_of_kind hspne hspkind
        -- the last blank stands before the rest, which is not empty
        have hrestne : rest ≠ [] := by
          rintro rfl
          apply hgoes.last
          simp [spaces, List.getLast?_append, List.getLast?_replicate]
        have hrestfair : ∀ c ∈ rest.flatMap Prod.snd, isFair c = true := fun c hc =>
          hgoes.fair c (List.mem_append_right _ (List.mem_append_right _ hc))
        refine .more (hgoes.plainRun hne hkind (by rw [spaces_succ]; rfl))
          (bare_of_runs rest hrest ?_ hrestne ' ' (hgoes.behind_spaces))
        intro e he
        cases hrest with
        | nil => exact absurd rfl hrestne
        | cons hne' hkind' _ _ =>
          cases he
          have hspaces := hspapart _ rfl
          have hbreaks := kind_ne_breaks hne' hkind' fun c hc =>
            hrestfair c (by simp [hc])
          exact RunKind.eq_others hspaces hbreaks

/-- The step with which the pen writes a run of a plain scalar. -/
def Pen.plainStep (split : Bool) (indent : Nat) (p : Pen) (e : RunKind × List Char) : Pen :=
  if e.1 = .spaces then (p.spaceRun split indent e.2).inside else p.put e.2

theorem Pen.plain_eq {split : Bool} {indent : Nat} {s : List Char} {p : Pen} (hs : s ≠ []) :
    p.plain split indent s =
      (runs s).foldl (plainStep split indent) (if p.blank then p else p.put [' ']).inside := by
  have hempty : s.isEmpty = false := by simpa using hs
  rw [plain, hempty]
  rfl

/-- The runs of a plain scalar written one after the other. -/
theorem Pen.plain_of_bare (split : Bool) (indent : Nat) {rs : List (RunKind × List Char)}
    (h : Bare rs) (p : Pen) (hblank : p.blank = false) (hmargin : p.margin = false) :
    ∃ w q, rs.foldl (plainStep split indent) p = q ∧ Wrote p q w ∧ q.blank = false ∧
      q.margin = false ∧ PlainAs indent w (rs.flatMap Prod.snd) := by
  induction h generalizing p with
  | @run r hr => exact ⟨r, _, rfl, wrote_put p r, hblank, hmargin, by simpa using .run hr⟩
  | @more r j rs hr hrs ih =>
    by_cases hfold : (split && (spaces (j + 1)).length = 1 && width < (p.put r).column) = true
    · obtain ⟨w, q, hq, hwrote, hqblank, hqmargin, hplain⟩ :=
        ih ((p.put r).indentTo indent).inside rfl rfl
      refine ⟨r ++ ('\n' :: spaces indent ++ w), q, ?_, ?_, hqblank, hqmargin, ?_⟩
      · rw [← hq]
        show rs.foldl _ ((p.put r).spaceRun split indent (spaces (j + 1))).inside = _
        rw [spaceRun, if_pos hfold]
      · refine (wrote_put p r).trans (Wrote.trans ?_ hwrote)
        rw [indentTo_newLine (p := p.put r) (Or.inl hmargin)]
        rfl
      · have hone : spaces (j + 1) = [' '] := by
          simp only [length_spaces, Bool.and_eq_true, decide_eq_true_eq] at hfold
          rw [show j = 0 by omega]
          rfl
        simpa [hone] using PlainAs.fold hr hplain
    · obtain ⟨w, q, hq, hwrote, hqblank, hqmargin, hplain⟩ :=
        ih ((p.put r).put (spaces (j + 1))).inside rfl rfl
      refine ⟨r ++ (spaces (j + 1) ++ w), q, ?_, ?_, hqblank, hqmargin, ?_⟩
      · rw [← hq]
        show rs.foldl _ ((p.put r).spaceRun split indent (spaces (j + 1))).inside = _
        rw [spaceRun, if_neg hfold]
      · have hspaces :
            Wrote (p.put r) ((p.put r).put (spaces (j + 1))).inside (spaces (j + 1)) := rfl
        exact (wrote_put p r).trans (hspaces.trans hwrote)
      · simpa using PlainAs.blanks hr hplain

/-! ## Single quotes -/

theorem adjacent_suffix {p q : Char → Bool} {r t : List Char} (h : adjacent p q (r ++ t) = false) :
    adjacent p q t = false := by
  induction r with
  | nil => exact h
  | cons a r ih =>
    refine ih ?_
    cases hr : r ++ t with
    | nil => rfl
    | cons b s =>
      rw [List.cons_append, hr, adjacent, Bool.or_eq_false_iff] at h
      exact h.2

/-- Behind a stretch of the first class stands no character of the second. -/
theorem adjacent_head {p q : Char → Bool} {r t : List Char} (h : adjacent p q (r ++ t) = false)
    (hne : r ≠ []) (hr : ∀ c ∈ r, p c = true) : ∀ d ∈ t.head?, q d = false := by
  intro d hd
  have hlast : r = r.dropLast ++ [r.getLast hne] := (List.dropLast_concat_getLast hne).symm
  cases t with
  | nil => cases hd
  | cons e t =>
    cases hd
    rw [hlast, List.append_assoc] at h
    have hend := adjacent_suffix h
    rw [List.singleton_append, adjacent, Bool.or_eq_false_iff, hr _ (List.getLast_mem hne)] at hend
    simpa using hend.1

/-- Text that may stand in single quotes and survives there. -/
structure Mild (s : List Char) : Prop where
  plain : ∀ c ∈ s, isSpecial c = false
  next : '\x85' ∉ s
  breakSpace : adjacent isInnerBreak (· = ' ') s = false
  spaceBreak : adjacent (· = ' ') isInnerBreak s = false

theorem Mild.suffix {r t : List Char} (h : Mild (r ++ t)) : Mild t :=
  ⟨fun c hc => h.plain c (List.mem_append_right _ hc),
    fun hc => h.next (List.mem_append_right _ hc), adjacent_suffix h.breakSpace,
    adjacent_suffix h.spaceBreak⟩

/-- Blanks and line breaks are followed by other characters, or end the text. -/
theorem Mild.others_next {k : RunKind} {r : List Char} {rs : List (RunKind × List Char)}
    (h : Mild (r ++ rs.flatMap Prod.snd)) (hruns : Runs ((k, r) :: rs)) (hk : k ≠ .others) :
    ∀ e ∈ rs.head?, e.1 = .others := by
  intro e he
  cases hruns with
  | cons hne hkind hapart hrs =>
    have hother := hapart e he
    cases hrs with
    | nil => cases he
    | @cons k' r' rs' hne' hkind' hapart' hrs' =>
      cases he
      obtain ⟨d, r', rfl⟩ := List.exists_cons_of_ne_nil hne'
      have hd := hkind' d List.mem_cons_self
      cases k with
      | others => exact absurd rfl hk
      | spaces =>
        have hbreak : isInnerBreak d = false :=
          adjacent_head h.spaceBreak hne
            (fun c hc => by simp [runKind_eq_spaces.mp (hkind c hc)]) d rfl
        refine RunKind.eq_others hother fun e => ?_
        dsimp only at e
        rw [e, runKind_eq_breaks, hbreak] at hd
        cases hd
      | breaks =>
        have hblank : (d = ' ' : Bool) = false :=
          adjacent_head h.breakSpace hne
            (fun c hc => runKind_eq_breaks.mp (hkind c hc)) d rfl
        refine RunKind.eq_others (fun e => ?_) hother
        dsimp only at e
        rw [e, runKind_eq_spaces] at hd
        simp [hd] at hblank

/-- A character between single quotes, with a quote doubled. -/
def inSingle (c : Char) : List Char := if c = '\'' then ['\'', '\''] else [c]

theorem isGap_of_others {c : Char} (hc : isSpecial c = false) (hk : runKind c = .others) :
    isGap c = false := by
  refine isGap_of_isFair ?_ fun e => ?_
  · have hbreak : isInnerBreak c = false := Bool.eq_false_iff.mpr fun h => by
      rw [runKind_eq_breaks.mpr h] at hk
      cases hk
    simp [isFair, hc, hbreak]
  · rw [runKind_eq_spaces.mpr e] at hk
    cases hk

theorem quotedAs_others {r body : List Char} {ns : List Nat} (h : QuotedAs false body ns)
    (hr : ∀ c ∈ r, isGap c = false) :
    QuotedAs false (r.flatMap inSingle ++ body) (r.map Char.toNat ++ ns) := by
  induction r with
  | nil => exact h
  | cons c r ih =>
    have hrest := ih fun d hd => hr d (List.mem_cons_of_mem _ hd)
    rw [List.flatMap_cons, List.append_assoc, List.map_cons, inSingle]
    split
    · next hc => subst hc; exact hrest.quote
    · next hc => exact hrest.char (by simp [isOrdinary, closing, hr c List.mem_cons_self, hc])

theorem solid_others {r body : List Char} (hne : r ≠ []) (hr : ∀ c ∈ r, isGap c = false) :
    Solid (r.flatMap inSingle ++ body) := by
  obtain ⟨c, r, rfl⟩ := List.exists_cons_of_ne_nil hne
  rw [List.flatMap_cons, inSingle]
  split
  · exact solid_of_isGap (by decide) _
  · exact solid_of_isGap (hr c List.mem_cons_self) _

theorem quotedAs_spaces {double : Bool} {body : List Char} {ns : List Nat}
    (h : QuotedAs double body ns) (hbody : Solid body) (j : Nat) :
    QuotedAs double (spaces j ++ body) ((spaces j).map Char.toNat ++ ns) := by
  induction j with
  | zero => exact h
  | succ j ih => exact ih.blank ⟨j, body, rfl, hbody⟩

/-- Line breaks are written so that folding them gives them back, but for the next-line character,
which is read as a line feed. -/
theorem quotedAs_breaks {r body : List Char} {ns : List Nat} {k : Nat}
    (h : QuotedAs false body ns) (hbody : Solid body) (hne : r ≠ [])
    (hr : ∀ c ∈ r, isInnerBreak c = true) (hnext : '\x85' ∉ r) (hk : 0 < k) :
    QuotedAs false ((if r.head? = some '\n' then ['\n'] else []) ++ r ++ spaces k ++ body)
      (r.map Char.toNat ++ ns) := by
  have hread : ∀ c ∈ r, readBreak c = c := by
    intro c hc
    have hbreak := hr c hc
    simp only [isInnerBreak, Bool.or_eq_true, decide_eq_true_eq] at hbreak
    rcases hbreak with ((rfl | rfl) | rfl) | rfl
    · rfl
    · exact absurd hc hnext
    · rfl
    · rfl
  have hmap : r.map readBreak = r := (List.map_congr_left hread).trans (List.map_id r)
  obtain ⟨b, bs, rfl⟩ := List.exists_cons_of_ne_nil hne
  by_cases hb : b = '\n'
  · subst hb
    have hfold := @QuotedAs.fold false body ns '\n' ('\n' :: bs) k h hbody
      (List.forall_mem_cons.mpr ⟨by decide, hr⟩) hk
    rw [hmap] at hfold
    exact hfold
  · have hfold := @QuotedAs.fold false body ns b bs k h hbody hr hk
    obtain ⟨hreadb, hmapbs⟩ := List.cons.inj hmap
    rw [hmapbs, hreadb, folded, if_pos hb] at hfold
    simpa [hb] using hfold

namespace Pen

theorem foldl_lineBreak {r : List Char} (hne : r ≠ []) (p : Pen) :
    r.foldl (fun p c => p.lineBreak c) p = ⟨r.reverse ++ p.out, 0, true, true⟩ := by
  induction r generalizing p with
  | nil => exact absurd rfl hne
  | cons c r ih =>
    cases r with
    | nil => rfl
    | cons d r =>
      rw [List.foldl_cons, ih (by simp)]
      simp [lineBreak]

theorem singleRun_breaks {fold : Bool} {indent : Nat} {r : List Char} (hne : r ≠ [])
    (hpos : 0 < indent) (p : Pen) :
    p.singleRun fold indent .breaks r =
      ⟨((if r.head? = some '\n' then ['\n'] else []) ++ r ++ spaces indent).reverse ++ p.out,
        indent, true, true⟩ := by
  have hmargin : ∀ out : List Char, (⟨out, 0, true, true⟩ : Pen).indentTo indent =
      ⟨(spaces indent).reverse ++ out, indent, true, true⟩ := fun out => by
    have h := @indentTo_sameLine ⟨out, 0, true, true⟩ indent rfl hpos
    simpa using h
  show (r.foldl (fun p c => p.lineBreak c)
    (if r.head? = some '\n' then p.lineBreak '\n' else p)).indentTo indent = _
  rw [foldl_lineBreak hne, hmargin]
  split <;> simp [lineBreak]

/-- Inside single quotes the pen has left the margin, or stands at the indentation or behind it. -/
def Inside (indent : Nat) (p : Pen) : Prop := p.margin = false ∨ indent ≤ p.column

/-- The runs of a text between single quotes, one after the other. Where a blank comes next the pen
stands behind the indentation, so that a folded line is a new one. -/
theorem singleRuns_of_mild (split : Bool) {indent : Nat} (hpos : 0 < indent)
    {rs : List (RunKind × List Char)} (hruns : Runs rs) (htext : Mild (rs.flatMap Prod.snd))
    (first : Bool) (p : Pen) (hp : Inside indent p)
    (hspaces : (∃ e ∈ rs.head?, e.1 = .spaces) → p.margin = false ∨ indent < p.column) :
    ∃ body q, singleRuns split indent first rs p = q ∧ Wrote p q body ∧
      QuotedAs false body ((rs.flatMap Prod.snd).map Char.toNat) ∧
      ((∀ e ∈ rs.head?, e.1 = .others) → Solid body) := by
  induction hruns generalizing first p with
  | nil => exact ⟨[], p, rfl, rfl, quotedAs_nil false, fun _ c hc => by cases hc⟩
  | @cons k r rs hne hkind hapart hrs ih =>
    rw [List.flatMap_cons] at htext ⊢
    rw [List.map_append]
    have hnext := htext.others_next (.cons hne hkind hapart hrs)
    have hstep := ih htext.suffix false
      (p.singleRun (split && !first && !rs.isEmpty) indent k r)
    cases k with
    | others =>
      have hgap : ∀ c ∈ r, isGap c = false := fun c hc =>
        isGap_of_others (htext.plain c (List.mem_append_left _ hc)) (hkind c hc)
      have hstrict : (p.put (r.flatMap inSingle)).margin = false ∨
          indent < (p.put (r.flatMap inSingle)).column := by
        rcases hp with hmargin | hcolumn
        · exact Or.inl hmargin
        · right
          have hlen : 0 < (r.flatMap inSingle).length := by
            obtain ⟨c, r, rfl⟩ := List.exists_cons_of_ne_nil hne
            rw [List.flatMap_cons, inSingle]
            split <;> simp
          show indent < p.column + (r.flatMap inSingle).length
          omega
      obtain ⟨body, q, hq, hwrote, hquoted, -⟩ :=
        hstep (hstrict.imp_right Nat.le_of_lt) fun _ => hstrict
      exact ⟨r.flatMap inSingle ++ body, q, hq, (wrote_put p _).trans hwrote,
        quotedAs_others hquoted hgap, fun _ => solid_others hne hgap⟩
    | spaces =>
      obtain ⟨j, rfl⟩ := eq_spaces_of_kind hne hkind
      have hnext := hnext (by simp)
      have hnotSpaces : ¬∃ e ∈ rs.head?, e.1 = RunKind.spaces := by
        rintro ⟨e, he, hspaces⟩
        rw [hnext e he] at hspaces
        cases hspaces
      have hbehind := hspaces ⟨_, rfl, rfl⟩
      have hnotSolid : ∀ body, ((∀ e ∈ ((RunKind.spaces, spaces (j + 1)) :: rs).head?,
          e.1 = .others) → Solid body) := fun body h => by cases h _ rfl
      rw [singleRuns]
      rw [singleRun, spaceRun] at hstep ⊢
      split at hstep
      · next hfold =>
        rw [if_pos hfold]
        rw [indentTo_newLine hbehind] at hstep ⊢
        obtain ⟨body, q, hq, hwrote, hquoted, hsolid⟩ :=
          hstep (Or.inr (Nat.le_refl _)) fun h => absurd h hnotSpaces
        have hone : spaces (j + 1) = [' '] := by
          simp only [length_spaces, Bool.and_eq_true, decide_eq_true_eq] at hfold
          rw [show j = 0 by omega]
          rfl
        refine ⟨'\n' :: spaces indent ++ body, q, hq, (wrote_mk p _ _ _ _).trans hwrote, ?_,
          hnotSolid _⟩
        rw [hone]
        exact @QuotedAs.fold false body _ '\n' [] indent hquoted (hsolid hnext)
          (by simp; decide) hpos
      · next hfold =>
        rw [if_neg hfold]
        obtain ⟨body, q, hq, hwrote, hquoted, hsolid⟩ :=
          hstep (hp.imp_right fun h => Nat.le_trans h (Nat.le_add_right _ _))
            fun h => absurd h hnotSpaces
        exact ⟨spaces (j + 1) ++ body, q, hq, (wrote_put p _).trans hwrote,
          quotedAs_spaces hquoted (hsolid hnext) (j + 1), hnotSolid _⟩
    | breaks =>
      have hnext := hnext (by simp)
      have hnotSpaces : ¬∃ e ∈ rs.head?, e.1 = RunKind.spaces := by
        rintro ⟨e, he, hspaces⟩
        rw [hnext e he] at hspaces
        cases hspaces
      rw [singleRuns]
      rw [singleRun_breaks hne hpos] at hstep ⊢
      obtain ⟨body, q, hq, hwrote, hquoted, hsolid⟩ :=
        hstep (Or.inr (Nat.le_refl _)) fun h => absurd h hnotSpaces
      refine ⟨_, q, hq, (wrote_mk p _ _ _ _).trans hwrote, ?_, fun h => by cases h _ rfl⟩
      exact quotedAs_breaks hquoted (hsolid hnext) hne
        (fun c hc => runKind_eq_breaks.mp (hkind c hc))
        (fun h => htext.next (List.mem_append_left _ h)) hpos

end Pen

end AnnotatedApi.Yaml
