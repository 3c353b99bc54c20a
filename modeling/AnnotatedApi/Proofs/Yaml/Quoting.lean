/-
  Reading quoted scalars. `QuotedAs double body ns` says that behind the opening quote the text
  `body` and the closing quote are read as the code points `ns`, whatever the fuel beyond the length
  of the text. A body is put together from the front: an ordinary character, a blank, a doubled
  quote, an escape, a line break that is folded, a line break that a backslash takes away.
-/
import AnnotatedApi.Proofs.Numerals
import AnnotatedApi.Proofs.Run
import AnnotatedApi.Proofs.Yaml.Places
import AnnotatedApi.Yaml.Style

namespace AnnotatedApi.Yaml

/-- The quote that closes a scalar. -/
def closing (double : Bool) : Char := if double then '"' else '\''

/-- Whether a character stands for itself between quotes. -/
def isOrdinary (double : Bool) (c : Char) : Bool :=
  !isGap c && c ≠ closing double && !(double && c = '\\')

theorem isBreak_of_isGap {c : Char} (h : isGap c = false) : isBreak c = false := by
  simp only [isGap, Bool.or_eq_false_iff] at h
  exact h.2

theorem isGap_closing (double : Bool) : isGap (closing double) = false := by
  cases double <;> decide

/-! ## Single steps -/

section

variable {double : Bool} {p : Cursor} {c : Char} {r : List Char} {fuel : Nat}

theorem quotedRest_closing (hp : p.rest = closing double :: r) (hr : r.head? ≠ some '\'') :
    quotedRest double (fuel + 1) p = .ok ([], p.next) := by
  rw [quotedRest, hp]
  cases double with
  | false => simp [closing, hr]
  | true => simp [closing]

theorem quotedRest_ordinary (hp : p.rest = c :: r) (hc : isOrdinary double c = true) :
    quotedRest double (fuel + 1) p =
      (quotedRest double fuel p.next >>= fun x => .ok (c.toNat :: x.1, x.2)) := by
  rw [quotedRest, hp]
  simp only [isOrdinary, closing, Bool.and_eq_true, Bool.not_eq_true'] at hc
  cases double <;> simp_all <;> rfl

theorem quotedRest_quote (hp : p.rest = '\'' :: '\'' :: r) :
    quotedRest false (fuel + 1) p =
      (quotedRest false fuel p.next.next >>= fun x => .ok ('\''.toNat :: x.1, x.2)) := by
  rw [quotedRest, hp]
  rfl

theorem quotedRest_escape (hp : p.rest = '\\' :: r) :
    quotedRest true (fuel + 1) p =
      (escapeSequence fuel p.next >>= fun x =>
        quotedRest true fuel x.2 >>= fun y => .ok (x.1 ++ y.1, y.2)) := by
  rw [quotedRest, hp]
  rfl

/-- Between quotes a stretch of blanks and line breaks: the blanks count if no break follows. -/
theorem quotedRest_gap (hp : p.rest = c :: r) (hc : isGap c = true) :
    quotedRest double (fuel + 1) p =
      let x := p.run fun c => c = ' ' || c = '\t'
      match x.2.lineBreak with
      | some (b, q) =>
        flowBreaks fuel q >>= fun y => quotedRest double fuel y.2 >>= fun z =>
          .ok ((folded b y.1).map Char.toNat ++ z.1, z.2)
      | none => quotedRest double fuel x.2 >>= fun z => .ok (x.1.map Char.toNat ++ z.1, z.2) := by
  have hquotes : c ≠ '"' ∧ c ≠ '\'' ∧ c ≠ '\\' := by
    refine ⟨?_, ?_, ?_⟩ <;> rintro rfl <;> exact absurd hc (by decide)
  rw [quotedRest, hp]
  simp only [hquotes, decide_false, Bool.false_and, Bool.false_eq_true, if_false, hc, if_true]
  rfl

end

/-! ## Bodies of quoted scalars -/

/-- The text `body` up to the closing quote is read as `ns`. A single quote closes a scalar only if
no other follows. -/
def QuotedAs (double : Bool) (body : List Char) (ns : List Nat) : Prop :=
  ∀ (p : Cursor) (r : List Char) (fuel : Nat), p.rest = body ++ closing double :: r →
    r.head? ≠ some '\'' → body.length < fuel →
    quotedRest double fuel p = .ok (ns, p.after (body ++ [closing double]))

variable {double : Bool} {body : List Char} {ns : List Nat}

theorem quotedAs_nil (double : Bool) : QuotedAs double [] [] := by
  intro p r fuel hp hr hfuel
  obtain ⟨fuel, rfl⟩ := Nat.exists_eq_add_of_le' hfuel
  exact quotedRest_closing hp hr

theorem QuotedAs.char {c : Char} (h : QuotedAs double body ns) (hc : isOrdinary double c = true) :
    QuotedAs double (c :: body) (c.toNat :: ns) := by
  intro p r fuel hp hr hfuel
  rw [List.length_cons] at hfuel
  obtain ⟨fuel, rfl⟩ := Nat.exists_eq_add_of_le' (show 1 ≤ fuel by omega)
  rw [quotedRest_ordinary hp hc, h p.next r fuel (Cursor.rest_next hp) hr (by omega)]
  rfl

theorem QuotedAs.quote (h : QuotedAs false body ns) :
    QuotedAs false ('\'' :: '\'' :: body) ('\''.toNat :: ns) := by
  intro p r fuel hp hr hfuel
  simp only [List.length_cons] at hfuel
  obtain ⟨fuel, rfl⟩ := Nat.exists_eq_add_of_le' (show 1 ≤ fuel by omega)
  have hrest := Cursor.rest_next (Cursor.rest_next hp)
  rw [quotedRest_quote hp, h p.next.next r fuel hrest hr (by omega)]
  rfl

/-- An escape in front: what it stands for, and the place behind it. -/
theorem QuotedAs.escape {e : List Char} {ms : List Nat} (h : QuotedAs true body ns)
    (he : ∀ (p : Cursor) (r : List Char) (fuel : Nat), p.rest = e ++ (body ++ '"' :: r) →
      e.length + body.length < fuel → escapeSequence fuel p = .ok (ms, p.after e)) :
    QuotedAs true ('\\' :: (e ++ body)) (ms ++ ns) := by
  intro p r fuel hp hr hfuel
  simp only [List.length_cons, List.length_append] at hfuel
  obtain ⟨fuel, rfl⟩ := Nat.exists_eq_add_of_le' (show 1 ≤ fuel by omega)
  have hbehind : p.next.rest = e ++ (body ++ '"' :: r) := by
    rw [Cursor.rest_next hp, List.append_eq, List.append_assoc]
    rfl
  rw [quotedRest_escape hp, he p.next r fuel hbehind (by omega), ok_bind,
    h _ r fuel (Cursor.rest_after hbehind) hr (by omega), ok_bind, List.cons_append,
    Cursor.after_cons, List.append_assoc, Cursor.after_append p.next]

theorem QuotedAs.letter {l c : Char} (h : QuotedAs true body ns) (hl : escape? l = some c) :
    QuotedAs true ('\\' :: l :: body) (c.toNat :: ns) := by
  refine @QuotedAs.escape body ns [l] [c.toNat] h fun p r fuel hp _ => ?_
  rw [escapeSequence, hp]
  simp only [List.cons_append, hl]
  rfl

/-- A numeric escape: as many digits to base sixteen as the letter says. -/
theorem QuotedAs.number {l : Char} {ds : List Char} {n : Nat} (h : QuotedAs true body ns)
    (hl : escape? l = none) (hwidth : escapeWidth? l = some ds.length)
    (hds : (ds.mapM Text.hexValue?).map (Text.ofDigits 16) = some n) (hn : n < 0x110000)
    (hinline : ∀ c ∈ l :: ds, isInline c = true) :
    QuotedAs true ('\\' :: l :: ds ++ body) (n :: ns) := by
  refine @QuotedAs.escape body ns (l :: ds) [n] h fun p r fuel hp _ => ?_
  have hpoint : hexPoint? ds.length (ds ++ (body ++ '"' :: r)) = some n := by
    rw [hexPoint?, List.take_left, if_pos rfl, hds]
  rw [escapeSequence, hp]
  simp only [List.cons_append, hl, hwidth, hpoint, codePoint, if_pos hn, List.take_left]
  rw [← Cursor.skip_eq_after hp hinline]
  rfl

/-! ## Line breaks and blanks -/

/-- The text that follows starts with no blank and no line break. -/
def Solid (s : List Char) : Prop := ∀ c ∈ s.head?, isGap c = false

theorem Solid.closing {s : List Char} (h : Solid s) (double : Bool) (r : List Char) :
    Solid (s ++ Yaml.closing double :: r) := by
  cases s with
  | nil => exact fun c hc => Option.some.inj hc ▸ isGap_closing double
  | cons c s => exact h

theorem solid_of_isGap {c : Char} (h : isGap c = false) (s : List Char) : Solid (c :: s) :=
  fun _ hd => Option.some.inj hd ▸ h

theorem Solid.not_blank {s : List Char} (h : Solid s) : ∀ c ∈ s.head?, c ≠ ' ' ∧ c ≠ '\t' :=
  fun c hc => ⟨fun e => by rw [e] at hc; exact absurd (h _ hc) (by decide),
    fun e => by rw [e] at hc; exact absurd (h _ hc) (by decide)⟩

/-- Where a line starts with a blank or a line break, no document ends. -/
theorem atSeparator_of_isGap {p : Cursor} {c : Char} {r : List Char} (h : p.rest = c :: r)
    (hc : isGap c = true) : p.atSeparator = false := by
  have hmark : ∀ mark, isGap mark = false → p.atMark mark = false := by
    intro mark hmark
    have hne : c ≠ mark := fun e => by rw [e, hmark] at hc; cases hc
    unfold Cursor.atMark
    rw [h]
    split
    · next heq => simp [← (List.cons.inj heq).1, hne]
    · rfl
  rw [Cursor.atSeparator, hmark '-' (by decide), hmark '.' (by decide)]
  rfl

theorem isBreak_of_isInnerBreak {b : Char} (h : isInnerBreak b = true) :
    isBreak b = true ∧ b ≠ '\r' := by
  simp only [isInnerBreak, Bool.or_eq_true, decide_eq_true_eq] at h
  rcases h with ((rfl | rfl) | rfl) | rfl <;> decide

theorem isGap_of_isBreak {b : Char} (h : isBreak b = true) : isGap b = true := by
  simp [isGap, h]

/-- The breaks of empty lines, up to a line that is indented. -/
theorem flowBreaks_eq {p : Cursor} {bs s : List Char} {k fuel : Nat}
    (hp : p.rest = bs ++ (spaces k ++ s)) (hbs : ∀ b ∈ bs, isInnerBreak b = true) (hk : 0 < k)
    (hs : Solid s) (hfuel : bs.length < fuel) :
    flowBreaks fuel p = .ok (bs.map readBreak, p.after (bs ++ spaces k)) := by
  induction bs generalizing p fuel with
  | nil =>
    rw [List.nil_append] at hp
    obtain ⟨fuel, rfl⟩ := Nat.exists_eq_add_of_le' (show 1 ≤ fuel from hfuel)
    obtain ⟨k, rfl⟩ := Nat.exists_eq_add_of_le' hk
    have hbreak : (p.after (spaces (k + 1))).lineBreak = none :=
      Cursor.lineBreak_of_none (Cursor.rest_after hp ▸ fun c hc => isBreak_of_isGap (hs c hc))
    rw [flowBreaks, atSeparator_of_isGap hp (by decide)]
    simp only [Bool.false_eq_true, if_false, Cursor.skipBlanks_eq hp hs.not_blank, hbreak]
    rfl
  | cons b bs ih =>
    rw [List.length_cons] at hfuel
    obtain ⟨fuel, rfl⟩ := Nat.exists_eq_add_of_le' (show 1 ≤ fuel by omega)
    obtain ⟨hbreak, hreturn⟩ := isBreak_of_isInnerBreak (hbs b List.mem_cons_self)
    have hskip : p.skipBlanks = p := by
      refine @Cursor.skipBlanks_eq p _ 0 hp fun c hc => ?_
      cases hc
      constructor <;> rintro rfl <;> exact absurd hbreak (by decide)
    have hnext := ih (Cursor.rest_next hp) (fun c hc => hbs c (List.mem_cons_of_mem _ hc))
      (show bs.length < fuel by omega)
    rw [flowBreaks, atSeparator_of_isGap hp (isGap_of_isBreak hbreak)]
    simp only [Bool.false_eq_true, if_false, hskip, Cursor.lineBreak_of_break hp hbreak hreturn,
      hnext]
    rfl

/-- Line breaks and the indentation of the next line, read as the breaks folded. -/
theorem QuotedAs.fold {b : Char} {bs : List Char} {k : Nat} (h : QuotedAs double body ns)
    (hbody : Solid body) (hbs : ∀ c ∈ b :: bs, isInnerBreak c = true) (hk : 0 < k) :
    QuotedAs double (b :: bs ++ spaces k ++ body)
      ((folded (readBreak b) (bs.map readBreak)).map Char.toNat ++ ns) := by
  intro p r fuel hp hr hfuel
  simp only [List.length_append, List.length_cons, length_spaces] at hfuel
  obtain ⟨fuel, rfl⟩ := Nat.exists_eq_add_of_le' (show 1 ≤ fuel by omega)
  obtain ⟨hbreak, hreturn⟩ := isBreak_of_isInnerBreak (hbs b List.mem_cons_self)
  have hrest : p.next.rest = bs ++ (spaces k ++ (body ++ closing double :: r)) := by
    rw [Cursor.rest_next hp]
    simp [List.append_assoc]
  have hrun : (p.run fun c => c = ' ' || c = '\t') = ([], p) := by
    refine @Cursor.run_eq p [] _ _ hp (by simp) (by simp) fun c hc => ?_
    cases hc
    have hne : b ≠ ' ' ∧ b ≠ '\t' := by
      constructor <;> rintro rfl <;> exact absurd hbreak (by decide)
    simp [hne]
  have hbreaks := flowBreaks_eq hrest (fun c hc => hbs c (List.mem_cons_of_mem _ hc)) hk
    (hbody.closing double r) (show bs.length < fuel by omega)
  have hafter : (p.next.after (bs ++ spaces k)).rest = body ++ closing double :: r :=
    Cursor.rest_after (by rw [hrest, List.append_assoc])
  rw [quotedRest_gap hp (isGap_of_isBreak hbreak), hrun]
  dsimp only
  rw [Cursor.lineBreak_of_break hp hbreak hreturn]
  dsimp only
  rw [hbreaks, ok_bind, h _ r fuel hafter hr (by omega), ok_bind, List.append_assoc _ body,
    Cursor.after_append p, List.cons_append, Cursor.after_cons]

/-- A backslash takes the line break and the indentation of the next line away. -/
theorem QuotedAs.continued {k : Nat} (h : QuotedAs true body ns) (hbody : Solid body)
    (hk : 0 < k) : QuotedAs true ('\\' :: ('\n' :: spaces k ++ body)) ns := by
  refine @QuotedAs.escape body ns ('\n' :: spaces k) [] h fun p r fuel hp hfuel => ?_
  have hbreaks := @flowBreaks_eq p.next [] _ k fuel (Cursor.rest_next hp) (by simp) hk
    (hbody.closing true r) (by rw [List.length_nil]; omega)
  rw [escapeSequence, hp]
  simp only [List.cons_append, show escape? '\n' = none from rfl,
    show escapeWidth? '\n' = none from rfl,
    Cursor.lineBreak_of_break hp (by decide) (by decide), hbreaks, ok_bind]
  rfl

/-- Blanks that no line break follows. -/
theorem quotedRest_blanks {p : Cursor} {s : List Char} {j fuel : Nat}
    (hp : p.rest = spaces (j + 1) ++ s) (hs : Solid s) :
    quotedRest double (fuel + 1) p =
      (quotedRest double fuel (p.after (spaces (j + 1))) >>= fun z =>
        .ok ((spaces (j + 1)).map Char.toNat ++ z.1, z.2)) := by
  have hrun : (p.run fun c => c = ' ' || c = '\t') = (spaces (j + 1), p.after (spaces (j + 1))) :=
    Cursor.run_eq hp (fun c hc => by simp [eq_space_of_mem_spaces hc])
      (fun c => isInline_of_mem_spaces)
      (fun c hc => by simp [(hs.not_blank c hc).1, (hs.not_blank c hc).2])
  have hbreak : (p.after (spaces (j + 1))).lineBreak = none :=
    Cursor.lineBreak_of_none (Cursor.rest_after hp ▸ fun c hc => isBreak_of_isGap (hs c hc))
  rw [quotedRest_gap hp (by decide), hrun]
  dsimp only
  rw [hbreak]

/-- No blank at the end of a line: behind the blanks in front stands no line break. -/
def Firm (s : List Char) : Prop := ∃ j t, s = spaces j ++ t ∧ Solid t

theorem Solid.firm {s : List Char} (h : Solid s) : Firm s := ⟨0, s, rfl, h⟩

theorem Firm.blank {s : List Char} (h : Firm s) : Firm (' ' :: s) := by
  obtain ⟨j, t, rfl, ht⟩ := h
  exact ⟨j + 1, t, rfl, ht⟩

theorem QuotedAs.blank (h : QuotedAs double body ns) (hbody : Firm body) :
    QuotedAs double (' ' :: body) (' '.toNat :: ns) := by
  intro p r fuel hp hr hfuel
  rw [List.length_cons] at hfuel
  obtain ⟨fuel, rfl⟩ := Nat.exists_eq_add_of_le' (show 1 ≤ fuel by omega)
  obtain ⟨j, t, rfl, ht⟩ := hbody
  have hrest : p.rest = spaces (j + 1) ++ (t ++ closing double :: r) := by
    rw [hp, spaces_succ]
    simp [List.append_assoc]
  have hsolid := ht.closing double r
  rw [quotedRest_blanks hrest hsolid]
  cases j with
  | zero =>
    -- one blank alone: the rest is read as it stands
    rw [show p.after (spaces (0 + 1)) = p.next from rfl, h p.next r fuel (Cursor.rest_next hp) hr
      (by omega)]
    rfl
  | succ j =>
    -- the blanks behind the first one are read with it, so compare the two readings
    have hnext := h p.next r (fuel + 1) (Cursor.rest_next hp) hr (by omega)
    rw [quotedRest_blanks (by rw [Cursor.rest_next hrest]; rfl) hsolid] at hnext
    rw [show p.after (spaces (j + 1 + 1)) = p.next.after (spaces (j + 1)) from rfl]
    cases hread : quotedRest double fuel (p.next.after (spaces (j + 1))) with
    | error f => rw [hread] at hnext; cases hnext
    | ok z =>
      rw [hread, ok_bind] at hnext
      obtain ⟨hns, hplace⟩ := Prod.mk.inj (Except.ok.inj hnext)
      rw [ok_bind, hplace, ← hns]
      rfl

/-- A quoted scalar from its opening quote on. -/
theorem quotedScalar_of_quotedAs {p : Cursor} {s r : List Char}
    (h : QuotedAs double body (s.map Char.toNat)) (hfits : p.Fits)
    (hp : p.rest = body ++ closing double :: r) (hr : r.head? ≠ some '\'') :
    quotedScalar double p = .ok (.text s, p.after (body ++ [closing double])) := by
  have hfuel : body.length < p.left + 1 := by
    rw [hfits.left_eq, hp, List.length_append]
    omega
  have hpoints : Content.ofPoints (s.map Char.toNat) = .text s := by
    have hall : ((s.map Char.toNat).all fun n => decide n.isValidChar) = true := by
      simp only [List.all_map, List.all_eq_true, Function.comp_apply, decide_eq_true_eq]
      exact fun c _ => c.valid
    rw [Content.ofPoints, if_pos hall]
    simp [Function.comp_def, Char.ofNat_toNat]
  rw [quotedScalar, h p r _ hp hr hfuel, ok_bind, ← hpoints]
  rfl

end AnnotatedApi.Yaml
