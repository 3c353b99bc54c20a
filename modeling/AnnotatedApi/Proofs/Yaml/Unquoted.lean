/-
  Reading plain scalars. A plain scalar is made of runs without blanks, with blanks or a folded line
  between them (`PlainAs`); it goes on as long as a line is indented far enough. It is read as its
  runs with the blanks between them and one blank for each folded line (`plainRest_of_plainAs`).
  Where it ends the space behind it is read with it: nothing before a colon (`ends_colon`), or
  the line break and the indentation of a line that belongs to an outer block (`ends_break`).
-/
import AnnotatedApi.Proofs.Yaml.Quoting

namespace AnnotatedApi.Yaml

/-! ## Runs -/

/-- A stretch of a plain scalar without blanks, as it is read on its own. -/
structure PlainRun (run : List Char) : Prop where
  ne_nil : run ≠ []
  whole : plainRun false run = run
  inline : ∀ c ∈ run, isInline c = true
  head : run.head? ≠ some '#'

theorem plainRun_append {flow : Bool} {run r : List Char} (hrun : plainRun flow run = run)
    (hr : plainRun flow r = []) : plainRun flow (run ++ r) = run := by
  induction run with
  | nil => exact hr
  | cons c run ih =>
    rw [plainRun] at hrun
    split at hrun
    · cases hrun
    · next hc =>
      have htail := ih (List.cons.inj hrun).2
      rw [List.cons_append, plainRun, if_neg, htail]
      -- a colon at the end of the run would have cut it off already
      cases run with
      | nil => simp_all [endOr]
      | cons d run => exact hc

theorem plainRun_of_isGap {c : Char} (h : isGap c = true) (flow : Bool) (r : List Char) :
    plainRun flow (c :: r) = [] := by
  simp [plainRun, h]

theorem plainRun_colon {r : List Char} (h : endOr isGap r = true) :
    plainRun false (':' :: r) = [] := by
  simp [plainRun, h]

theorem PlainRun.solid {run : List Char} (h : PlainRun run) (r : List Char) : Solid (run ++ r) := by
  obtain ⟨hne, hwhole, -, -⟩ := h
  cases run with
  | nil => exact absurd rfl hne
  | cons c run =>
    refine solid_of_isGap (Bool.eq_false_iff.mpr fun hgap => ?_) _
    rw [plainRun_of_isGap hgap] at hwhole
    cases hwhole

/-! ## The space between two runs -/

section

variable {p : Cursor} {s : List Char}

theorem plainGap_blanks {j : Nat} (hp : p.rest = spaces j ++ s) (hs : Solid s) :
    plainGap p = (spaces j, p.after (spaces j), false) := by
  have hrun : (p.run fun c => c = ' ') = (spaces j, p.after (spaces j)) :=
    Cursor.run_eq hp (fun c hc => by simp [eq_space_of_mem_spaces hc])
      (fun c => isInline_of_mem_spaces) (fun c hc => by simp [(hs.not_blank c hc).1])
  have hbreak : (p.after (spaces j)).lineBreak = none :=
    Cursor.lineBreak_of_none (Cursor.rest_after hp ▸ fun c hc => isBreak_of_isGap (hs c hc))
  simp only [plainGap, hrun, hbreak]

/-- The break of a line and the indentation of the next one. -/
theorem plainGap_break {k : Nat} (hfits : p.Fits) (hp : p.rest = '\n' :: (spaces k ++ s))
    (hs : Solid s) (hmark : p.next.atSeparator = false) :
    plainGap p = ([' '], p.after ('\n' :: spaces k), true) := by
  have hrun : (p.run fun c => c = ' ') = ([], p) :=
    @Cursor.run_eq p [] _ _ hp (by simp) (by simp) fun c hc => by cases hc; decide
  have hnext := Cursor.rest_next hp
  have hbreak : (p.next.after (spaces k)).lineBreak = none :=
    Cursor.lineBreak_of_none (Cursor.rest_after hnext ▸ fun c hc => isBreak_of_isGap (hs c hc))
  have hbreaks : plainBreaks p.next.left p.next = (some [], p.next.after (spaces k)) := by
    rw [hfits.next.left_eq, hnext]
    cases h : (spaces k ++ s).length with
    | zero =>
      have hnil := List.append_eq_nil_iff.mp (List.length_eq_zero_iff.mp h)
      rw [hnil.1]
      rfl
    | succ n =>
      rw [plainBreaks, Cursor.skipSpaces_eq hnext fun c hc => (hs.not_blank c hc).1]
      simp only [hbreak]
  simp only [plainGap, hrun, Cursor.lineBreak_of_break hp (by decide) (by decide), hmark, hbreaks]
  rfl

/-- Before the mark that starts or ends a document only the break is read. -/
theorem plainGap_mark (hp : p.rest = '\n' :: s) (hmark : p.next.atSeparator = true) :
    plainGap p = ([], p.next, true) := by
  have hrun : (p.run fun c => c = ' ') = ([], p) :=
    @Cursor.run_eq p [] _ _ hp (by simp) (by simp) fun c hc => by cases hc; decide
  simp only [plainGap, hrun, Cursor.lineBreak_of_break hp (by decide) (by decide), hmark, if_true]

end

/-! ## Whole scalars -/

/-- The text `w` is written for `s`: runs, and between them blanks or a line break that is followed
by an indentation to `indent` and stands for one blank. -/
inductive PlainAs (indent : Nat) : List Char → List Char → Prop
  | run {run : List Char} (hrun : PlainRun run) : PlainAs indent run run
  | blanks {run w s : List Char} {j : Nat} (hrun : PlainRun run) (hw : PlainAs indent w s) :
      PlainAs indent (run ++ (spaces (j + 1) ++ w)) (run ++ spaces (j + 1) ++ s)
  | fold {run w s : List Char} (hrun : PlainRun run) (hw : PlainAs indent w s) :
      PlainAs indent (run ++ ('\n' :: spaces indent ++ w)) (run ++ [' '] ++ s)

variable {indent : Nat} {w s : List Char}

/-- The run that a plain scalar starts with stands at the start of what is written and of what is
read. -/
theorem PlainAs.head (h : PlainAs indent w s) : ∃ run t t', w = run ++ t ∧ s = run ++ t' ∧
    PlainRun run ∧ (∀ c ∈ t.head?, isGap c = true) ∧ endOr isGap t' = true := by
  cases h with
  | run hrun => exact ⟨w, [], [], by simp, by simp, hrun, by simp, rfl⟩
  | blanks hrun _ =>
    exact ⟨_, _, _, rfl, List.append_assoc _ _ _, hrun, by simp [spaces_succ]; decide, rfl⟩
  | fold hrun _ => exact ⟨_, _, _, rfl, List.append_assoc _ _ _, hrun, by simp; decide, rfl⟩

theorem PlainAs.ne_nil (h : PlainAs indent w s) : s ≠ [] := by
  cases h with
  | run hrun => exact hrun.ne_nil
  | blanks hrun _ => simp [hrun.ne_nil]
  | fold hrun _ => simp [hrun.ne_nil]

theorem PlainAs.solid (h : PlainAs indent w s) (r : List Char) : Solid (w ++ r) := by
  obtain ⟨run, t, -, rfl, -, hrun, -⟩ := h.head
  rw [List.append_assoc]
  exact hrun.solid _

theorem PlainAs.head_ne (h : PlainAs indent w s) (r : List Char) : (w ++ r).head? ≠ some '#' := by
  obtain ⟨run, t, -, rfl, -, ⟨hne, -, -, hhash⟩, -⟩ := h.head
  cases run with
  | nil => exact absurd rfl hne
  | cons c run => exact hhash

/-- Where a plain scalar ends: what follows cuts its last run off, and the space behind it does not
go on with it. -/
structure Ends (limit : Int) (p q : Cursor) (wrapped : Bool) : Prop where
  cut : plainRun false p.rest = []
  stops : ∃ gap, plainGap p = (gap, q, wrapped) ∧
    (gap.isEmpty || q.sees '#' || (q.column : Int) < limit) = true

theorem sees_eq_false {p : Cursor} {c : Char} (h : p.rest.head? ≠ some c) : p.sees c = false := by
  simp [Cursor.sees, Cursor.peek, h]

/-- One run of a plain scalar, and what is decided behind it. -/
theorem plainRest_step {p : Cursor} {run r : List Char} {limit : Int} {newLine : Bool} {fuel : Nat}
    (hrun : PlainRun run) (hp : p.rest = run ++ r) (hr : plainRun false r = []) :
    plainRest false limit newLine (fuel + 1) p =
      let (gap, q, wrapped) := plainGap (p.after run)
      if gap.isEmpty || q.sees '#' || (q.column : Int) < limit then (run, q, wrapped)
      else
        let (more, r, wrapped) := plainRest false limit wrapped fuel q
        if more.isEmpty then (run, r, wrapped) else (run ++ gap ++ more, r, wrapped) := by
  have hwhole : plainRun false p.rest = run := by rw [hp, plainRun_append hrun.whole hr]
  have hhead : p.sees '#' = false := by
    refine sees_eq_false ?_
    rw [hp]
    obtain ⟨hne, -, -, hhash⟩ := hrun
    cases run with
    | nil => exact absurd rfl hne
    | cons c run => exact hhash
  have hempty : run.isEmpty = false := by simpa using hrun.ne_nil
  rw [plainRest, hwhole, hhead, hempty, Cursor.skip_eq_after hp hrun.inline]
  simp only [Bool.or_self, Bool.false_eq_true, if_false, Bool.not_false, Bool.true_and]

/-- A run with more behind it. -/
theorem plainRest_more {p q q' : Cursor} {run r g : List Char} {limit : Int}
    {newLine wrapped wrapped' : Bool} {fuel : Nat} (hrun : PlainRun run) (hp : p.rest = run ++ r)
    (hr : plainRun false r = []) (hgap : plainGap (p.after run) = (g, q', wrapped')) (hg : g ≠ [])
    (hhead : q'.rest.head? ≠ some '#') (hcolumn : limit ≤ q'.column)
    (hmore : plainRest false limit wrapped' fuel q' = (s, q, wrapped)) (hs : s ≠ []) :
    plainRest false limit newLine (fuel + 1) p = (run ++ g ++ s, q, wrapped) := by
  have hgoes : (g.isEmpty || q'.sees '#' || (q'.column : Int) < limit) = false := by
    simp [hg, sees_eq_false hhead, Int.not_lt.mpr hcolumn]
  have hempty : s.isEmpty = false := by simpa using hs
  rw [plainRest_step hrun hp hr, hgap]
  simp only [hgoes, hmore, hempty, Bool.false_eq_true, if_false]

/-- A plain scalar is read as what it is written for, up to the place where it ends. -/
theorem plainRest_of_plainAs (h : PlainAs indent w s) {limit : Int} {p q : Cursor} {r : List Char}
    {wrapped newLine : Bool} {fuel : Nat} (hfits : p.Fits) (hp : p.rest = w ++ r)
    (hcolumn : limit ≤ p.column + 1) (hindent : limit ≤ indent) (hpos : 0 < indent)
    (hends : Ends limit (p.after w) q wrapped) (hfuel : w.length < fuel) :
    plainRest false limit newLine fuel p = (s, q, wrapped) := by
  induction h generalizing p newLine fuel with
  | run hrun =>
    obtain ⟨fuel, rfl⟩ := Nat.exists_eq_add_of_le' (show 1 ≤ fuel by omega)
    obtain ⟨hcut, gap, hgap, hstops⟩ := hends
    rw [Cursor.rest_after hp] at hcut
    rw [plainRest_step hrun hp hcut, hgap]
    simp only [hstops, if_true]
  | @blanks run w s j hrun hw ih =>
    simp only [List.length_append, length_spaces] at hfuel
    obtain ⟨fuel, rfl⟩ := Nat.exists_eq_add_of_le' (show 1 ≤ fuel by omega)
    rw [List.append_assoc, List.append_assoc] at hp
    rw [Cursor.after_append, Cursor.after_append] at hends
    have hbehind := Cursor.rest_after hp
    have hrest := Cursor.rest_after hbehind
    have hlater : limit ≤ ((p.after run).after (spaces (j + 1))).column := by
      rw [(Cursor.line_after hbehind fun c => isInline_of_mem_spaces).2,
        (Cursor.line_after hp hrun.inline).2]
      simp only [length_spaces]
      omega
    exact plainRest_more hrun hp (plainRun_of_isGap (by decide) _ _)
      (plainGap_blanks hbehind (hw.solid r)) (by simp [spaces_succ]) (hrest ▸ hw.head_ne r) hlater
      (ih (hfits.after _ |>.after _) hrest (by omega) hends (by omega)) hw.ne_nil
  | @fold run w s hrun hw ih =>
    simp only [List.length_append, List.length_cons, length_spaces] at hfuel
    obtain ⟨fuel, rfl⟩ := Nat.exists_eq_add_of_le' (show 1 ≤ fuel by omega)
    rw [List.append_assoc, List.append_assoc] at hp
    rw [Cursor.after_append, Cursor.after_append] at hends
    have hbehind := Cursor.rest_after hp
    have hrest := Cursor.rest_after hbehind
    have hlater : limit ≤ ((p.after run).after ('\n' :: spaces indent)).column := by
      rw [Cursor.column_after_break hbehind (by decide) (by decide)]
      exact hindent
    have hmark : (p.after run).next.atSeparator = false := by
      obtain ⟨k, rfl⟩ := Nat.exists_eq_add_of_le' hpos
      exact atSeparator_of_isGap (Cursor.rest_next hbehind) (by decide)
    exact plainRest_more hrun hp (plainRun_of_isGap (by decide) _ _)
      (plainGap_break (hfits.after _) hbehind (hw.solid r) hmark) (by simp)
      (hrest ▸ hw.head_ne r) hlater
      (ih (hfits.after _ |>.after _) hrest (by omega) hends (by omega)) hw.ne_nil

/-- Before a colon that ends a key nothing is read. -/
theorem ends_colon {p : Cursor} {r : List Char} (hp : p.rest = ':' :: r)
    (hr : endOr isGap r = true) (limit : Int) : Ends limit p p false := by
  refine ⟨hp ▸ plainRun_colon hr, [], ?_, rfl⟩
  exact @plainGap_blanks p _ 0 hp (solid_of_isGap (by decide) _)

/-- Behind the last line of a scalar the break is read, with the indentation of the next line or
without it. -/
theorem ends_break {p : Cursor} {r : List Char} {k : Nat} {limit : Int} (hfits : p.Fits)
    (hp : p.rest = '\n' :: (spaces k ++ r)) (hr : Solid r) (hk : (k : Int) < limit) :
    ∃ q, Ends limit p q true ∧ (q = p.next ∨ q = p.after ('\n' :: spaces k)) := by
  have hcut : plainRun false p.rest = [] := hp ▸ plainRun_of_isGap (by decide) _ _
  cases hmark : p.next.atSeparator with
  | true => exact ⟨_, ⟨hcut, [], plainGap_mark hp hmark, rfl⟩, Or.inl rfl⟩
  | false =>
    have hcolumn := Cursor.column_after_break hp (by decide) (by decide)
    exact ⟨_, ⟨hcut, [' '], plainGap_break hfits hp hr hmark, by simp [hcolumn, hk]⟩, Or.inr rfl⟩

end AnnotatedApi.Yaml
