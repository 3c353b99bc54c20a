/-
  Steps of the lexer in block collections: to the next token, over a scalar or an empty collection
  up to the end of its line, over the marks of items, keys and values, and over a key with its
  colon. Where the text stands at the column of a block or deeper, the first token opens the block
  (`Lexer.opens`); a line that starts before the column closes it (`Lexer.lexes_close`).
-/
import AnnotatedApi.Proofs.Yaml.Composing
import AnnotatedApi.Proofs.Yaml.Lexing
import AnnotatedApi.Proofs.Yaml.Styles

namespace AnnotatedApi.Yaml

/-- A token stands here, or the end of the text: no blank, no line break, no comment. -/
def Begins (s : List Char) : Prop := Solid s ∧ s.head? ≠ some '#'

/-- A plain scalar is no mark that starts or ends a document. -/
theorem PlainAs.atMark {indent : Nat} {o s r : List Char} {p : Cursor} {mark : Char}
    (h : PlainAs indent o s) (hs : Text.startsWith [mark, mark, mark] s = false)
    (hp : p.rest = o ++ r) (hmark : isGap mark = false) (hr : r.head? ≠ some mark) :
    p.atMark mark = false := by
  obtain ⟨run, t, t', rfl, rfl, hrun, ht, -⟩ := h.head
  have hnext : (t ++ r).head? ≠ some mark := by
    cases t with
    | nil => exact hr
    | cons c t =>
      intro hc
      rw [Option.some.inj hc] at ht
      rw [ht mark rfl] at hmark
      cases hmark
  rw [List.append_assoc] at hp
  unfold Cursor.atMark
  split
  · next a b c u heq =>
    refine Bool.eq_false_iff.mpr fun hall => ?_
    simp only [Bool.and_eq_true, decide_eq_true_eq] at hall
    obtain ⟨⟨⟨rfl, rfl⟩, rfl⟩, -⟩ := hall
    -- the three characters stand in the run, so the text starts with them
    rw [hp] at heq
    match run, hrun.ne_nil with
    | [a], _ =>
      have hrest : t ++ r = c :: c :: u := (List.cons.inj heq).2
      exact hnext (by rw [hrest]; rfl)
    | [a, b], _ =>
      have hrest : t ++ r = c :: u := (List.cons.inj (List.cons.inj heq).2).2
      exact hnext (by rw [hrest]; rfl)
    | a :: b :: d :: run, _ =>
      obtain ⟨rfl, heq⟩ := List.cons.inj heq
      obtain ⟨rfl, heq⟩ := List.cons.inj heq
      obtain ⟨rfl, -⟩ := List.cons.inj heq
      simp [Text.startsWith, Text.after?] at hs
  · rfl

/-- The first character of a plain scalar, and what follows it. -/
theorem PlainAs.first {indent : Nat} {o s : List Char} (h : PlainAs indent o s) :
    ∃ c o' s', o = c :: o' ∧ s = c :: s' ∧
      (endOr isGap s' = false → ∀ r, endOr isGap (o' ++ r) = false) := by
  obtain ⟨run, t, t', rfl, rfl, hrun, -, ht'⟩ := h.head
  match run, hrun with
  | [], hrun => exact absurd rfl hrun.ne_nil
  | [c], _ =>
    refine ⟨c, t, t', rfl, rfl, fun h => ?_⟩
    rw [ht'] at h
    cases h
  | c :: d :: run, hrun =>
    have hd : isGap d = false := Bool.eq_false_iff.mpr fun hgap => by
      have hwhole := hrun.whole
      rw [plainRun] at hwhole
      split at hwhole
      · cases hwhole
      · rw [plainRun_of_isGap hgap] at hwhole
        cases hwhole
    exact ⟨c, _, _, rfl, rfl, fun _ r => hd⟩

theorem begins_mark {c : Char} (hc : isGap c = false) (hhash : c ≠ '#') (t : List Char) :
    Begins (c :: t) :=
  ⟨solid_of_isGap hc t, by simpa using hhash⟩

theorem ScalarAs.begins {indent : Nat} {o s : List Char} {plain : Bool}
    (h : ScalarAs indent o s plain) (r : List Char) : Begins (o ++ r) := by
  cases h with
  | plain h _ => exact ⟨h.solid r, h.head_ne r⟩
  | quoted double _ => cases double <;> exact begins_mark (by decide) (by decide) _

namespace Lexer

variable {x y : Lexer} {r : List Char} {k : Nat}

/-! ## Approaches -/

theorem toNextToken_spaces {fuel : Nat} (hx : x.cursor.rest = spaces k ++ r) (hr : Begins r) :
    toNextToken (fuel + 1) x = x.moveTo (x.cursor.after (spaces k)) := by
  have hrest := Cursor.rest_after hx
  have hspaces : x.cursor.skipSpaces = x.cursor.after (spaces k) :=
    Cursor.skipSpaces_eq hx fun c hc => (hr.1.not_blank c hc).1
  have hcomment : (x.cursor.after (spaces k)).sees '#' = false := sees_eq_false (hrest ▸ hr.2)
  have hbreak : (x.cursor.after (spaces k)).lineBreak = none :=
    Cursor.lineBreak_of_none (hrest ▸ fun c hc => isBreak_of_isGap (hr.1 c hc))
  simp only [toNextToken, hspaces, hcomment, Bool.false_eq_true, if_false, hbreak]

theorem toNextToken_break {fuel : Nat} (hx : x.cursor.rest = '\n' :: (spaces k ++ r))
    (hr : Begins r) :
    toNextToken (fuel + 2) x =
      (x.moveTo (x.cursor.after ('\n' :: spaces k))).allowKey (x.keyAllowed || !x.flow) := by
  have hspaces : x.cursor.skipSpaces = x.cursor :=
    @Cursor.skipSpaces_eq x.cursor _ 0 hx fun c hc => by cases hc; decide
  have hcomment : x.cursor.sees '#' = false := sees_eq_false (by rw [hx]; simp)
  rw [toNextToken]
  simp only [hspaces, hcomment, Bool.false_eq_true, if_false,
    Cursor.lineBreak_of_break hx (by decide) (by decide)]
  exact toNextToken_spaces (Cursor.rest_next hx) hr

/-- The candidate key is given up before the line `line`. -/
def KeyAged (x : Lexer) (line : Nat) : Prop :=
  ∀ k ∈ x.key, k.required = false ∧ k.line < line

theorem dropStale_of_aged (houter : x.outerKeys = []) (hkey : x.KeyAged x.cursor.line) :
    x.dropStale = .ok { x with key := none } := by
  have haged : x.aged x.key = .ok none := by
    cases h : x.key with
    | none => rfl
    | some k =>
      obtain ⟨hrequired, hline⟩ := hkey k h
      have hstale : x.stale k = true := by
        simp [stale, Nat.ne_of_lt hline]
      simp [aged, hstale, hrequired]
  simp only [dropStale, haged, houter]
  rfl

/-- To a token on the same line, with the key of an earlier line given up. -/
theorem approach_spaces (hx : x.cursor.rest = spaces k ++ r)
    (hr : Begins r) (houter : x.outerKeys = []) (hkey : x.KeyAged x.cursor.line) :
    x.approach = .ok (({ x with key := none }.moveTo (x.cursor.after (spaces k))).unwindTo
      ((x.cursor.after (spaces k)).column : Int)) := by
  have hline := (Cursor.line_after hx fun c => isInline_of_mem_spaces).1
  have hdrop := @dropStale_of_aged (x.moveTo (x.cursor.after (spaces k))) houter
    (by rw [← hline] at hkey; exact hkey)
  rw [approach, toNextToken_spaces hx hr, hdrop]
  rfl

/-- To a token on the next line. -/
theorem approach_break (hfits : x.cursor.Fits) (hx : x.cursor.rest = '\n' :: (spaces k ++ r))
    (hr : Begins r) (houter : x.outerKeys = []) (hkey : x.KeyAged (x.cursor.line + 1)) :
    x.approach = .ok (({ x with key := none, keyAllowed := true }.moveTo
      (x.cursor.after ('\n' :: spaces k))).unwindTo (k : Int)) := by
  have hleft : x.cursor.left + 1 = (spaces k ++ r).length + 2 := by
    rw [hfits.left_eq, hx, List.length_cons]
  have hflow : x.flow = false := by rw [flow, houter]; rfl
  have hcolumn := Cursor.column_after_break hx (by decide) (by decide)
  have hline : (x.cursor.after ('\n' :: spaces k)).line = x.cursor.line + 1 := by
    rw [Cursor.after_cons,
      (Cursor.line_after (Cursor.rest_next hx) fun c => isInline_of_mem_spaces).1,
      Cursor.next_of_break hx (by decide) (by decide)]
  have hdrop := @dropStale_of_aged
    ((x.moveTo (x.cursor.after ('\n' :: spaces k))).allowKey true) houter
    (by rw [← hline] at hkey; exact hkey)
  rw [approach, hleft, toNextToken_break hx hr, hflow, Bool.not_false, Bool.or_true, hdrop, ok_bind]
  show Except.ok (unwindTo ((x.cursor.after ('\n' :: spaces k)).column : Int) _) = _
  rw [hcolumn]
  rfl

theorem unwindTo_of_le {column : Int} (h : x.indent ≤ column) : x.unwindTo column = x := by
  unfold unwindTo
  split
  · rfl
  · cases x.indents with
    | nil => rfl
    | cons i is => rw [unwind, if_neg (by omega)]

/-! ## States between tokens -/

/-- In a block, with no key open. -/
structure Block (x : Lexer) : Prop where
  fits : x.cursor.Fits
  key : x.key = none
  outer : x.outerKeys = []
  done : x.done = false

/-- The state behind the text `o` that holds the tokens `ts`. -/
def past (x : Lexer) (o : List Char) (ts : List Token) : Lexer :=
  { x with cursor := x.cursor.after o, tokens := ts.reverse ++ x.tokens, count := x.count + ts.length,
           keyAllowed := false, key := none }

theorem Block.past (h : x.Block) (o : List Char) (ts : List Token) : (x.past o ts).Block :=
  ⟨h.fits.after o, rfl, h.outer, h.done⟩

theorem Block.allowKey (h : x.Block) (b : Bool) : (x.allowKey b).Block :=
  ⟨h.fits, h.key, h.outer, h.done⟩

theorem past_past (x : Lexer) (o o' : List Char) (ts ts' : List Token) :
    (x.past o ts).past o' ts' = x.past (o ++ o') (ts ++ ts') := by
  simp [Lexer.past, Cursor.after_append, Nat.add_assoc]

theorem allowKey_past (x : Lexer) (b : Bool) (o : List Char) (ts : List Token) :
    (x.allowKey b).past o ts = x.past o ts := rfl

theorem Block.aged (h : x.Block) (line : Nat) : x.KeyAged line := fun k hk => by
  rw [h.key] at hk
  cases hk

/-- At the end of a line it does not matter for the next approach whether the line break was read
already, and a key that started in the line is given up. -/
theorem approach_lineEnd {key : Option KeyStart} (hx : x.Block)
    (hrest : x.cursor.rest = '\n' :: (spaces k ++ r)) (hr : Begins r)
    (hkey : ∀ k ∈ key, k.required = false ∧ k.line ≤ x.cursor.line) :
    (∀ b, { x with key := key, keyAllowed := b }.approach = x.approach) ∧
    { x with key := key, keyAllowed := true, cursor := x.cursor.next }.approach = x.approach ∧
    { x with key := key, keyAllowed := true,
             cursor := x.cursor.after ('\n' :: spaces k) }.approach = x.approach := by
  have hnext := Cursor.rest_next hrest
  have hafter : (x.cursor.after ('\n' :: spaces k)).rest = r := Cursor.rest_after hrest
  have hcolumn := Cursor.column_after_break hrest (by decide) (by decide)
  have hlineNext : x.cursor.next.line = x.cursor.line + 1 := by
    rw [Cursor.next_of_break hrest (by decide) (by decide)]
  have hlineAfter : x.cursor.line + 1 ≤ (x.cursor.after ('\n' :: spaces k)).line := by
    rw [Cursor.after_cons, ← hlineNext]
    exact Cursor.line_le_after _ _
  rw [approach_break hx.fits hrest hr hx.outer (hx.aged _)]
  refine ⟨fun b => ?_, ?_, ?_⟩
  · exact @approach_break { x with key := key, keyAllowed := b } _ _ hx.fits hrest hr hx.outer
      fun k hk => ⟨(hkey k hk).1, Nat.lt_succ_of_le (hkey k hk).2⟩
  · have happroach := @approach_spaces
      { x with key := key, keyAllowed := true, cursor := x.cursor.next } _ _ hnext hr hx.outer
      fun k hk => ⟨(hkey k hk).1, by
        show k.line < x.cursor.next.line
        rw [hlineNext]
        exact Nat.lt_succ_of_le (hkey k hk).2⟩
    rw [Cursor.after_cons] at hcolumn
    rw [happroach, hcolumn]
    rfl
  · have happroach := @approach_spaces
      { x with key := key, keyAllowed := true, cursor := x.cursor.after ('\n' :: spaces k) } _ 0
      hafter hr hx.outer
      fun k hk => ⟨(hkey k hk).1, Nat.lt_of_lt_of_le (Nat.lt_succ_of_le (hkey k hk).2) hlineAfter⟩
    rw [happroach]
    show Except.ok (unwindTo ((x.cursor.after ('\n' :: spaces k)).column : Int) _) = _
    rw [hcolumn]
    rfl

/-- At a token no deeper block has to be closed for, the approach is at its end. -/
theorem Block.approach_self (hx : x.Block) (hbegins : Begins x.cursor.rest)
    (hcolumn : x.indent ≤ x.cursor.column) : x.approach = .ok x := by
  have happroach := @approach_spaces x _ 0 rfl hbegins hx.outer (hx.aged _)
  rw [happroach]
  show Except.ok ({ x with key := none }.unwindTo (x.cursor.column : Int)) = _
  rw [← hx.key]
  rw [unwindTo_of_le hcolumn]

theorem length_rest_after (p : Cursor) (s : List Char) :
    (p.after s).rest.length ≤ p.rest.length := by
  induction s generalizing p with
  | nil => exact Nat.le_refl _
  | cons c s ih => exact Nat.le_trans (ih p.next) (length_rest_next p)

theorem length_after {o : List Char} {p : Cursor} (h : p.rest = o ++ r) (ho : o ≠ []) :
    (p.after o).rest.length < p.rest.length := by
  have hpos := List.length_pos_iff.mpr ho
  rw [Cursor.rest_after h, h, List.length_append]
  omega

/-! ## Scalars -/

/-- A candidate key that starts with the token at the cursor, if a key may stand here. -/
def candidate (x : Lexer) : Option KeyStart :=
  if x.keyAllowed then
    some ⟨x.count, !x.flow && x.indent = (x.cursor.column : Int), x.cursor.index, x.cursor.line,
      x.cursor.column⟩
  else none

/-- The token at the cursor noted as a candidate. -/
def noted (x : Lexer) : Lexer := { x with key := x.candidate }

theorem noteKey_of_none (h : x.key = none) : x.noteKey = .ok x.noted := by
  obtain ⟨cursor, tokens, count, indent, indents, keyAllowed, key, outerKeys, done⟩ := x
  cases h
  cases keyAllowed <;> rfl

/-- What stands deeper than its block may be a key, but need not be one. -/
theorem candidate_spare (x : Lexer) (o : List Char) (hcolumn : x.indent < x.cursor.column) :
    ∀ k ∈ x.candidate, k.required = false ∧ k.line ≤ (x.cursor.after o).line := by
  intro k hk
  unfold candidate at hk
  split at hk
  · cases hk
    refine ⟨?_, Cursor.line_le_after _ _⟩
    simp [Int.ne_of_lt hcolumn]
  · cases hk

theorem atMark_of_ne {p : Cursor} {c mark : Char} (h : p.rest = c :: r) (hc : c ≠ mark) :
    p.atMark mark = false := by
  unfold Cursor.atMark
  rw [h]
  split
  · next heq => simp [← (List.cons.inj heq).1, hc]
  · rfl

/-- A quoted scalar. -/
theorem take_quoted {double : Bool} {body s : List Char} (hfits : x.cursor.Fits)
    (hkey : x.key = none) (hx : x.cursor.rest = closing double :: body ++ [closing double] ++ r)
    (hbody : QuotedAs double body (s.map Char.toNat)) (hr : r.head? ≠ some '\'') :
    x.take = .ok ((((x.noted).allowKey false).moveTo
      (x.cursor.after (closing double :: body ++ [closing double]))).emit
        (.scalar (.text s) false)) := by
  have hrest : x.cursor.rest = closing double :: (body ++ closing double :: r) := by
    rw [hx]
    simp
  have hread : quotedScalar double x.cursor.next =
      .ok (.text s, x.cursor.next.after (body ++ [closing double])) :=
    quotedScalar_of_quotedAs hbody hfits.next (Cursor.rest_next hrest) hr
  have hdash : x.cursor.atMark '-' = false :=
    atMark_of_ne hrest (by cases double <;> decide)
  have hdot : x.cursor.atMark '.' = false :=
    atMark_of_ne hrest (by cases double <;> decide)
  have hkeyed : x.token (closing double) (body ++ closing double :: r) =
      x.keyed fun p => (quotedScalar double p.next).map fun r => (.scalar r.1 false, r.2) := by
    cases double <;> simp [token, closing, hdash, hdot] <;> rfl
  rw [take, hrest]
  dsimp only
  rw [hkeyed, keyed, noteKey_of_none hkey, ok_bind, show x.noted.cursor = x.cursor from rfl, hread]
  rfl

/-- A character that starts a plain scalar. -/
theorem token_plain {c : Char} {s : List Char} (hflow : x.flow = true → c ≠ '?' ∧ c ≠ ':')
    (hmarks : x.cursor.atMark '-' = false ∧ x.cursor.atMark '.' = false)
    (hgap : isGap c = false) (hfirst : "#,[]\x7b\x7d&*!|>'\"%@`".toList.contains c = false)
    (hnext : c = '?' ∨ c = ':' ∨ c = '-' → endOr isGap s = false) : x.token c s = x.plain := by
  have hne : ∀ d ∈ "#,[]\x7b\x7d&*!|>'\"%@`".toList, c ≠ d := fun d hd e => by
    rw [List.contains_eq_mem, decide_eq_false_iff_not] at hfirst
    exact hfirst (e ▸ hd)
  have hdash : (c = '-' && endOr isGap s) = false := by
    by_cases h : c = '-'
    · simp [hnext (Or.inr (Or.inr h))]
    · simp [h]
  have hquestion : (c = '?' && (x.flow || endOr isGap s)) = false := by
    by_cases h : c = '?'
    · simp [hnext (Or.inl h), Bool.eq_false_iff.mpr fun hx => (hflow hx).1 h]
    · simp [h]
  have hcolon : (c = ':' && (x.flow || endOr isGap s)) = false := by
    by_cases h : c = ':'
    · simp [hnext (Or.inr (Or.inl h)), Bool.eq_false_iff.mpr fun hx => (hflow hx).2 h]
    · simp [h]
  have hstarts : startsPlain x.flow c s = true := by
    rw [startsPlain]
    by_cases h : c = '?' ∨ c = ':' ∨ c = '-'
    · rw [hnext h]
      rcases h with rfl | rfl | rfl
      · rw [Bool.eq_false_iff.mpr fun hx => (hflow hx).1 rfl]
        decide
      · rw [Bool.eq_false_iff.mpr fun hx => (hflow hx).2 rfl]
        decide
      · simp
    · have hall : ("-?:,[]\x7b\x7d#&*!|>'\"%@`".toList.all fun d =>
          "#,[]\x7b\x7d&*!|>'\"%@`".toList.contains d || d = '?' || d = ':' || d = '-') = true := by
        decide
      have hnot : "-?:,[]\x7b\x7d#&*!|>'\"%@`".toList.contains c = false := by
        rw [List.contains_eq_mem, decide_eq_false_iff_not]
        intro hmem
        have hc := List.all_eq_true.mp hall c hmem
        simp only [hfirst, Bool.false_or, Bool.or_eq_true, decide_eq_true_eq, or_assoc] at hc
        exact h hc
      rw [hgap, hnot]
      rfl
  have hpercent := hne '%' (by decide)
  have h1 := hne '[' (by decide)
  have h2 := hne '\x7b' (by decide)
  have h3 := hne ']' (by decide)
  have h4 := hne '\x7d' (by decide)
  have h5 := hne ',' (by decide)
  have h6 := hne '*' (by decide)
  have h7 := hne '&' (by decide)
  have h8 := hne '!' (by decide)
  have h9 := hne '|' (by decide)
  have h10 := hne '>' (by decide)
  have h11 := hne '\'' (by decide)
  have h12 := hne '"' (by decide)
  unfold token
  simp only [hpercent, hmarks, h1, h2, h3, h4, h5, h6, h7, h8, h9, h10, h11, h12, hdash, hquestion,
    hcolon, hstarts, decide_false, Bool.false_and, Bool.and_false, Bool.or_self, Bool.false_eq_true,
    if_false, if_true]

/-- A plain scalar in a block, with the space behind it. -/
theorem take_plain {indent : Nat} {o s : List Char} {q : Cursor} {newLine : Bool}
    (hfits : x.cursor.Fits) (hkey : x.key = none) (houter : x.outerKeys = [])
    (hx : x.cursor.rest = o ++ r) (ho : PlainAs indent o s) (hs : Unmarked s)
    (hcolumn : x.indent ≤ x.cursor.column) (hindent : x.indent < indent) (hpos : 0 < indent)
    (hends : Ends (x.indent + 1) (x.cursor.after o) q newLine) :
    x.take = .ok ((((x.noted).allowKey newLine).moveTo q).emit (.scalar (.text s) true)) := by
  have hr : ∀ mark, isGap mark = false → mark ≠ ':' → r.head? ≠ some mark := by
    intro mark hgap hmark hhead
    have hcut := hends.cut
    rw [Cursor.rest_after hx] at hcut
    cases r with
    | nil => cases hhead
    | cons c r =>
      cases hhead
      simp [plainRun, hgap, hmark] at hcut
  obtain ⟨c, o', s', rfl, rfl, hfirst⟩ := ho.first
  have hindicator := hs.indicator
  simp only [firstIndicator, Bool.or_eq_false_iff] at hindicator
  have hgap : isGap c = false := isGap_of_isFair (hs.fair c List.mem_cons_self) fun e =>
    hs.first (by rw [e]; rfl)
  have htoken : x.token c (o' ++ r) = x.plain := by
    refine token_plain (fun h => by simp [flow, houter] at h)
      ⟨ho.atMark hs.dashes hx (by decide) (hr _ (by decide) (by decide)),
        ho.atMark hs.dots hx (by decide) (hr _ (by decide) (by decide))⟩ hgap hindicator.1
      fun hc => ?_
    refine hfirst ?_ r
    have hmark := hindicator.2
    rcases hc with rfl | rfl | rfl <;> simpa using hmark
  have hflow : x.noted.flow = false := by
    show (!x.outerKeys.isEmpty) = false
    rw [houter]
    rfl
  have hread : plainScalar false (x.indent + 1) x.cursor = (c :: s', q, newLine) := by
    refine plainRest_of_plainAs ho hfits hx (by omega) hindent hpos hends ?_
    rw [hfits.left_eq, hx, List.length_append]
    omega
  rw [take, hx]
  show x.token c (o' ++ r) = _
  rw [htoken, plain, noteKey_of_none hkey, ok_bind, hflow, show x.noted.indent = x.indent from rfl,
    show x.noted.cursor = x.cursor from rfl, hread]
  rfl

/-- A scalar up to the end of its line. It stands deeper than the block, so it is no key that the
block requires. -/
theorem lexes_scalar {indent : Nat} {o s : List Char} {plain : Bool} (hx : x.Block)
    (hrest : x.cursor.rest = o ++ '\n' :: (spaces k ++ r)) (hr : Begins r)
    (hk : (k : Int) ≤ x.indent) (ho : ScalarAs indent o s plain)
    (hcolumn : x.indent < x.cursor.column) (hindent : x.indent < indent) :
    Lexes x (x.past o [.scalar (.text s) plain]) := by
  have happroach := hx.approach_self (hrest ▸ ho.begins _) (Int.le_of_lt hcolumn)
  have hend : (x.past o [.scalar (.text s) plain]).cursor.rest = '\n' :: (spaces k ++ r) :=
    Cursor.rest_after hrest
  obtain ⟨hquoted, hnext, hafter⟩ :=
    approach_lineEnd (hx.past o [.scalar (.text s) plain]) hend hr (x.candidate_spare o hcolumn)
  cases ho with
  | quoted double hbody =>
    have htake := take_quoted hx.fits hx.key hrest hbody (by simp)
    refine .move ⟨x, happroach, htake, hx.done, ?_⟩ (.same (hquoted false))
    exact length_after hrest (by simp)
  | plain hplain hs =>
    obtain ⟨q, hends, hq⟩ := @ends_break (x.cursor.after o) r k (x.indent + 1)
      (hx.fits.after _) (Cursor.rest_after hrest) hr.1 (by omega)
    have htake := take_plain hx.fits hx.key hx.outer hrest hplain hs (Int.le_of_lt hcolumn) hindent
      (by omega) hends
    have hne : o ≠ [] := by
      obtain ⟨c, o', s', rfl, -⟩ := hplain.first
      simp
    have hlength := length_after hrest hne
    refine .move ⟨x, happroach, htake, hx.done, ?_⟩ (.same ?_)
    · rcases hq with rfl | rfl
      · exact Nat.lt_of_le_of_lt (length_rest_next _) hlength
      · exact Nat.lt_of_le_of_lt (length_rest_after _ _) hlength
    · rcases hq with rfl | rfl
      · exact hnext
      · exact hafter

/-! ## Between tokens -/

/-- To the next line, which starts at the column of the block or deeper. -/
theorem lexes_break (hx : x.Block) (hrest : x.cursor.rest = '\n' :: (spaces k ++ r))
    (hr : Begins r) (hk : x.indent ≤ k) :
    Lexes x ((x.past ('\n' :: spaces k) []).allowKey true) := by
  have hcolumn := Cursor.column_after_break hrest (by decide) (by decide)
  have hself := ((hx.past ('\n' :: spaces k) []).allowKey true).approach_self
    (by rw [show ((x.past ('\n' :: spaces k) []).allowKey true).cursor.rest = r from
      Cursor.rest_after hrest]; exact hr)
    (by show x.indent ≤ ((x.cursor.after ('\n' :: spaces k)).column : Int); rw [hcolumn]; exact hk)
  refine .same ?_
  rw [hself, approach_break hx.fits hrest hr hx.outer (hx.aged _), unwindTo_of_le (by exact hk)]
  rfl

/-- Over a blank. -/
theorem lexes_blank (hx : x.Block) (hrest : x.cursor.rest = ' ' :: r)
    (hr : Begins r) (hcolumn : x.indent ≤ x.cursor.column) :
    Lexes x ((x.past [' '] []).allowKey x.keyAllowed) := by
  have hspace : x.cursor.rest = spaces 1 ++ r := hrest
  have hlater : x.indent ≤ ((x.cursor.after [' ']).column : Int) := by
    rw [show [' '] = spaces 1 from rfl,
      (Cursor.line_after hspace fun c => isInline_of_mem_spaces).2]
    omega
  have hself := ((hx.past [' '] []).allowKey x.keyAllowed).approach_self
    (by rw [show ((x.past [' '] []).allowKey x.keyAllowed).cursor.rest = r from
      Cursor.rest_after hspace]; exact hr) hlater
  refine .same ?_
  rw [hself, approach_spaces hspace hr hx.outer (hx.aged _), unwindTo_of_le (by exact hlater)]
  rfl

/-! ## Blocks -/

/-- A block opened at a column by the token `t`, if it is deeper than the current one. -/
def opens (x : Lexer) (column : Nat) (t : Token) : Lexer :=
  match x.opened column with
  | some y => y.emit t
  | none => x

theorem opens_of_lt {column : Nat} (h : x.indent < column) (t : Token) :
    x.opens column t =
      { x with indents := x.indent :: x.indents, indent := column, tokens := t :: x.tokens,
               count := x.count + 1 } := by
  unfold opens opened
  rw [if_pos h]
  rfl

theorem opens_of_le {column : Nat} (h : (column : Int) ≤ x.indent) (t : Token) :
    x.opens column t = x := by
  unfold opens opened
  rw [if_neg (by omega)]

/-- The fields that opening a block leaves as they are, and the new column. -/
theorem opens_spec (x : Lexer) (column : Nat) (t : Token) :
    (x.opens column t).cursor = x.cursor ∧ (x.opens column t).key = x.key ∧
      (x.opens column t).outerKeys = x.outerKeys ∧ (x.opens column t).done = x.done ∧
      (x.opens column t).keyAllowed = x.keyAllowed ∧
      (x.indent ≤ column → (x.opens column t).indent = column) := by
  by_cases h : x.indent < column
  · rw [opens_of_lt h]
    exact ⟨rfl, rfl, rfl, rfl, rfl, fun _ => rfl⟩
  · rw [opens_of_le (by omega)]
    exact ⟨rfl, rfl, rfl, rfl, rfl, fun _ => by omega⟩

theorem Block.opens (hx : x.Block) (column : Nat) (t : Token) : (x.opens column t).Block := by
  obtain ⟨hcursor, hkey, houter, hdone, -⟩ := opens_spec x column t
  exact ⟨hcursor ▸ hx.fits, hkey.trans hx.key, houter.trans hx.outer, hdone.trans hx.done⟩

/-- The mark of an item, or of a key or value on a line of its own. -/
theorem indicator_eq (hx : x.Block) (hallowed : x.keyAllowed = true) (block t : Token) (c : Char) :
    x.indicator block t true =
      .ok (((x.opens x.cursor.column block).past [c] [t]).allowKey true) := by
  obtain ⟨hcursor, hkey, houter, hdone, hallow, -⟩ := opens_spec x x.cursor.column block
  have hflow : x.flow = false := by rw [flow, hx.outer]; rfl
  have hkey := hkey.trans hx.key
  simp only [indicator, hflow, hallowed, Bool.false_eq_true, if_false, if_true]
  show ((x.opens x.cursor.column block).allowKey true).dropKey >>= _ = _
  generalize x.opens x.cursor.column block = y at *
  simp only [dropKey, allowKey, hkey]
  rfl

/-- Behind the mark of an item stands a blank, so it starts no document. -/
theorem atMark_of_gap {p : Cursor} {a mark : Char} {t : List Char} (h : p.rest = a :: t)
    (ht : endOr isGap t = true) (hmark : isGap mark = false) : p.atMark mark = false := by
  unfold Cursor.atMark
  rw [h]
  split
  · next b c s heq =>
    obtain ⟨rfl, rfl⟩ := List.cons.inj heq
    have hne : b ≠ mark := fun e => by
      rw [endOr, e, hmark] at ht
      cases ht
    simp [hne]
  · rfl

theorem token_dash {t : List Char} (hrest : x.cursor.rest = '-' :: t) (ht : endOr isGap t = true) :
    x.token '-' t = x.indicator .blockSequence .blockEntry true := by
  have hdash := @atMark_of_gap _ _ '-' _ hrest ht (by decide)
  have hdot := @atMark_of_gap _ _ '.' _ hrest ht (by decide)
  simp [token, hdash, hdot, ht]

theorem token_question {t : List Char} (hrest : x.cursor.rest = '?' :: t)
    (ht : endOr isGap t = true) (houter : x.outerKeys = []) :
    x.token '?' t = x.indicator .blockMapping .key true := by
  have hdash := @atMark_of_gap _ _ '-' _ hrest ht (by decide)
  have hdot := @atMark_of_gap _ _ '.' _ hrest ht (by decide)
  have hflow : x.flow = false := by rw [flow, houter]; rfl
  simp [token, hdash, hdot, ht, hflow]

theorem token_colon {t : List Char} (hrest : x.cursor.rest = ':' :: t)
    (ht : endOr isGap t = true) : x.token ':' t = x.colon := by
  have hdash := @atMark_of_gap _ _ '-' _ hrest ht (by decide)
  have hdot := @atMark_of_gap _ _ '.' _ hrest ht (by decide)
  simp [token, hdash, hdot, ht]

/-- One of the marks that stand at the column of a block. -/
theorem lexes_mark {c : Char} {t : List Char} {block tok : Token} (hx : x.Block)
    (hrest : x.cursor.rest = c :: t) (hc : isGap c = false) (hhash : c ≠ '#')
    (hallowed : x.keyAllowed = true) (hcolumn : x.indent ≤ x.cursor.column)
    (htoken : x.token c t = x.indicator block tok true) :
    Lexes x (((x.opens x.cursor.column block).past [c] [tok]).allowKey true) := by
  have hself := hx.approach_self (hrest ▸ begins_mark hc hhash t) hcolumn
  have hdone := ((hx.opens x.cursor.column block).past [c] [tok]).done
  have htake : x.take = .ok (((x.opens x.cursor.column block).past [c] [tok]).allowKey true) := by
    rw [take, hrest]
    exact htoken.trans (indicator_eq hx hallowed block tok c)
  refine .move ⟨x, hself, htake, hdone, ?_⟩ (.refl _)
  show ((x.opens x.cursor.column block).cursor.after [c]).rest.length < _
  rw [(opens_spec x x.cursor.column block).1]
  exact length_after (o := [c]) hrest (by simp)

theorem lexes_dash {t : List Char} (hx : x.Block) (hrest : x.cursor.rest = '-' :: t)
    (ht : endOr isGap t = true) (hallowed : x.keyAllowed = true)
    (hcolumn : x.indent ≤ x.cursor.column) :
    Lexes x (((x.opens x.cursor.column .blockSequence).past ['-'] [.blockEntry]).allowKey true) :=
  lexes_mark hx hrest (by decide) (by decide) hallowed hcolumn (token_dash hrest ht)

theorem lexes_question {t : List Char} (hx : x.Block) (hrest : x.cursor.rest = '?' :: t)
    (ht : endOr isGap t = true) (hallowed : x.keyAllowed = true)
    (hcolumn : x.indent ≤ x.cursor.column) :
    Lexes x (((x.opens x.cursor.column .blockMapping).past ['?'] [.key]).allowKey true) :=
  lexes_mark hx hrest (by decide) (by decide) hallowed hcolumn (token_question hrest ht hx.outer)

/-- The colon on a line of its own. -/
theorem lexes_colon {t : List Char} (hx : x.Block) (hrest : x.cursor.rest = ':' :: t)
    (ht : endOr isGap t = true) (hallowed : x.keyAllowed = true)
    (hcolumn : x.indent ≤ x.cursor.column) :
    Lexes x (((x.opens x.cursor.column .blockMapping).past [':'] [.value]).allowKey true) := by
  refine lexes_mark hx hrest (by decide) (by decide) hallowed hcolumn ?_
  have hflow : x.flow = false := by rw [flow, hx.outer]; rfl
  rw [token_colon hrest ht, colon, hx.key]
  simp only [hflow, Bool.not_false]

/-- At a line that starts before the column of the block, the block is closed. -/
theorem lexes_close {column : Nat} {t : Token} {o : List Char} {ts : List Token} (hx : x.Block)
    (hopen : x.indent < column) (hrest : x.cursor.rest = o ++ '\n' :: (spaces k ++ r))
    (hr : Begins r) (hk : k < column) :
    Lexes ((x.opens column t).past o ts) (x.past o (t :: ts ++ [.blockEnd])) := by
  have hend : (x.cursor.after o).rest = '\n' :: (spaces k ++ r) := Cursor.rest_after hrest
  have hy := (hx.opens column t).past o ts
  have hz := hx.past o (t :: ts ++ [.blockEnd])
  refine .same ?_
  rw [opens_of_lt hopen] at hy ⊢
  rw [approach_break hy.fits hend hr hy.outer (hy.aged _),
    approach_break hz.fits hend hr hz.outer (hz.aged _)]
  have hdeeper : (k : Int) < column := by omega
  simp only [unwindTo, past, moveTo, flow, hx.outer, List.isEmpty_nil, Bool.not_true,
    Bool.false_eq_true, if_false, unwind, hdeeper, if_true]
  have htokens : (t :: ts ++ [Token.blockEnd]).reverse ++ x.tokens =
      Token.blockEnd :: (ts.reverse ++ t :: x.tokens) := by simp
  have hcount : x.count + (t :: ts ++ [Token.blockEnd]).length = x.count + 1 + ts.length + 1 := by
    simp only [List.length_append, List.length_cons, List.length_nil]
    omega
  rw [htokens, hcount]

/-! ## Empty collections -/

theorem token_bracket {c : Char} {t : List Char} (hrest : x.cursor.rest = c :: t)
    (hc : c = '[' ∨ c = '\x7b' ∨ c = ']' ∨ c = '\x7d') :
    x.token c t =
      if c = '[' then x.openFlow .flowSequence
      else if c = '\x7b' then x.openFlow .flowMapping
      else if c = ']' then x.closeFlow .flowSequenceEnd
      else x.closeFlow .flowMappingEnd := by
  have hdash : x.cursor.atMark '-' = false :=
    atMark_of_ne hrest (by rcases hc with rfl | rfl | rfl | rfl <;> decide)
  have hdot : x.cursor.atMark '.' = false :=
    atMark_of_ne hrest (by rcases hc with rfl | rfl | rfl | rfl <;> decide)
  rcases hc with rfl | rfl | rfl | rfl <;> simp [token, hdash, hdot]

/-- Two brackets with nothing between them, at the end of a line. -/
theorem lexes_brackets {left right : Char} {t u : Token} (hx : x.Block)
    (hrest : x.cursor.rest = left :: right :: '\n' :: (spaces k ++ r)) (hr : Begins r)
    (hleft : isInline left = true ∧ isGap left = false ∧ left ≠ '#')
    (hright : isGap right = false ∧ right ≠ '#')
    (hcolumn : x.indent < x.cursor.column)
    (hopen : ∀ y : Lexer, ∀ s, y.cursor.rest = left :: s → y.token left s = y.openFlow t)
    (hclose : ∀ y : Lexer, ∀ s, y.cursor.rest = right :: s → y.token right s = y.closeFlow u) :
    Lexes x (x.past [left, right] [t, u]) := by
  have hself := hx.approach_self (hrest ▸ begins_mark hleft.2.1 hleft.2.2 _) (Int.le_of_lt hcolumn)
  have hnext : x.cursor.next.rest = right :: '\n' :: (spaces k ++ r) := Cursor.rest_next hrest
  -- the bracket on the left is a candidate key of the collection around it
  let y : Lexer := { x with cursor := x.cursor.next, tokens := t :: x.tokens, count := x.count + 1,
                            key := none, outerKeys := [x.candidate], keyAllowed := true }
  have htake : x.take = .ok y := by
    rw [take, hrest]
    show x.token left _ = _
    rw [hopen x _ hrest, openFlow, noteKey_of_none hx.key]
    show Except.ok _ = _
    simp only [y, noted, moveTo, emit, hx.outer]
  have hfresh : y.aged x.candidate = .ok x.candidate := by
    unfold candidate
    split
    · have hplace := Cursor.next_of_inline hrest hleft.1
      simp [aged, stale, y, hplace]
    · rfl
  have hyself : y.approach = .ok y := by
    have htoken : toNextToken (y.cursor.left + 1) y = y :=
      @toNextToken_spaces y _ 0 _ hnext (begins_mark hright.1 hright.2 _)
    have hdrop : y.dropStale = .ok y := by
      simp only [dropStale, show y.key = none from rfl, show y.outerKeys = [x.candidate] from rfl,
        List.mapM_cons, List.mapM_nil, hfresh]
      rfl
    rw [approach, htoken, hdrop]
    rfl
  have hytake : y.take = .ok { x.past [left, right] [t, u] with key := x.candidate } := by
    rw [take, show y.cursor.rest = _ from hnext]
    show y.token right _ = _
    rw [hclose y _ hnext, closeFlow]
    show Except.ok _ = _
    simp only [y, past, moveTo, emit, hx.outer]
    rfl
  have hlength : y.cursor.rest.length < x.cursor.rest.length :=
    length_after (o := [left]) hrest (by simp)
  refine .move ⟨x, hself, htake, hx.done, hlength⟩
    (.move ⟨y, hyself, hytake, hx.done, ?_⟩ (.same ?_))
  · exact length_after (o := [right]) hnext (by simp)
  · exact (approach_lineEnd (hx.past [left, right] [t, u])
      (@Cursor.rest_after _ [left, right] _ hrest) hr (x.candidate_spare _ hcolumn)).1 false

theorem lexes_emptyList (hx : x.Block) (hr : Begins r)
    (hrest : x.cursor.rest = '[' :: ']' :: '\n' :: (spaces k ++ r))
    (hcolumn : x.indent < x.cursor.column) :
    Lexes x (x.past ['[', ']'] [.flowSequence, .flowSequenceEnd]) :=
  lexes_brackets hx hrest hr (by decide) (by decide) hcolumn
    (fun y s hy => by rw [token_bracket hy (by simp)]; rfl)
    (fun y s hy => by rw [token_bracket hy (by simp)]; rfl)

theorem lexes_emptyMap (hx : x.Block) (hr : Begins r)
    (hrest : x.cursor.rest = '\x7b' :: '\x7d' :: '\n' :: (spaces k ++ r))
    (hcolumn : x.indent < x.cursor.column) :
    Lexes x (x.past ['\x7b', '\x7d'] [.flowMapping, .flowMappingEnd]) :=
  lexes_brackets hx hrest hr (by decide) (by decide) hcolumn
    (fun y s hy => by rw [token_bracket hy (by simp)]; rfl)
    (fun y s hy => by rw [token_bracket hy (by simp)]; rfl)

/-! ## Keys -/

/-- A key and its colon on one line. The scalar is noted as a candidate, and the colon puts the
tokens of the key and of the block in front of it. -/
theorem lexes_key {indent : Nat} {o s t : List Char} {plain : Bool} (hx : x.Block)
    (hrest : x.cursor.rest = o ++ ':' :: t) (ht : endOr isGap t = true)
    (ho : ScalarAs indent o s plain) (hinline : ∀ c ∈ o, isInline c = true)
    (hlength : o.length ≤ 1024) (hallowed : x.keyAllowed = true)
    (hcolumn : x.indent ≤ x.cursor.column) (hindent : x.indent < indent) (hpos : 0 < indent) :
    Lexes x ((x.opens x.cursor.column .blockMapping).past (o ++ [':']) (keyTokens s plain)) := by
  have hself := hx.approach_self (hrest ▸ ho.begins _) hcolumn
  have hbehind : (x.cursor.after o).rest = ':' :: t := Cursor.rest_after hrest
  obtain ⟨hline, hright⟩ := Cursor.line_after hrest hinline
  have hne : o ≠ [] := by
    cases ho with
    | plain h _ =>
      obtain ⟨c, o', s', rfl, -⟩ := h.first
      simp
    | quoted double _ => simp
  let y : Lexer := (((x.noted).allowKey false).moveTo (x.cursor.after o)).emit
    (.scalar (.text s) plain)
  have htake : x.take = .ok y := by
    cases ho with
    | quoted double hbody => exact take_quoted hx.fits hx.key hrest hbody (by simp)
    | plain hplain hs =>
      exact take_plain hx.fits hx.key hx.outer hrest hplain hs hcolumn hindent hpos
        (ends_colon hbehind ht _)
  let key : KeyStart := ⟨x.count, !x.flow && x.indent = (x.cursor.column : Int), x.cursor.index,
    x.cursor.line, x.cursor.column⟩
  have hcandidate : x.candidate = some key := by rw [candidate, hallowed, if_pos rfl]
  have hstale : y.stale key = false := by
    have hindex := Cursor.index_after hrest
    simp only [stale, key, y, emit, moveTo, hline, hindex]
    simp
    omega
  have hyself : y.approach = .ok y := by
    have htoken : toNextToken (y.cursor.left + 1) y = y :=
      @toNextToken_spaces y _ 0 _ hbehind (begins_mark (by decide) (by decide) _)
    have hdrop : y.dropStale = .ok y := by
      have hfresh : y.aged y.key = .ok y.key := by
        rw [show y.key = x.candidate from rfl, hcandidate, aged, hstale]
        rfl
      have houter : y.outerKeys.mapM y.aged = .ok y.outerKeys := by
        rw [show y.outerKeys = [] from hx.outer]
        rfl
      rw [dropStale, hfresh, ok_bind, houter]
      rfl
    rw [approach, htoken, hdrop, ok_bind, unwindTo_of_le]
    · rfl
    · show x.indent ≤ ((x.cursor.after o).column : Int)
      omega
  have hytake : y.take =
      .ok ((x.opens x.cursor.column .blockMapping).past (o ++ [':']) (keyTokens s plain)) := by
    have hflow : y.flow = false := by rw [flow, show y.outerKeys = [] from hx.outer]; rfl
    rw [take, show y.cursor.rest = _ from hbehind]
    show y.token ':' t = _
    rw [token_colon hbehind ht, colon, show y.key = x.candidate from rfl, hcandidate]
    have hcursor : (x.cursor.after o).next = x.cursor.after (o ++ [':']) := by
      rw [Cursor.after_append]
      rfl
    simp only [hflow, Bool.false_eq_true, if_false]
    by_cases hopen : x.indent < x.cursor.column
    · rw [opens_of_lt hopen]
      have hcount : x.count + 1 + 1 - x.count = 2 := by omega
      simp [emitAt, opened, y, key, emit, moveTo, allowKey, noted, hopen, hcount, insertUnder, past,
        hcursor, keyTokens]
    · rw [opens_of_le (by omega)]
      simp [emitAt, opened, y, key, emit, moveTo, allowKey, noted, hopen, insertUnder, past,
        hcursor, keyTokens]
  have hlonger : y.cursor.rest.length < x.cursor.rest.length := length_after hrest hne
  refine .move ⟨x, hself, htake, hx.done, hlonger⟩ (.move ⟨y, hyself, hytake, ?_, ?_⟩ (.refl _))
  · exact ((hx.opens _ _).past _ _).done
  · show ((x.opens x.cursor.column .blockMapping).cursor.after (o ++ [':'])).rest.length < _
    rw [(opens_spec x _ _).1, Cursor.after_append]
    exact length_after (o := [':']) hbehind (by simp)

end Lexer

end AnnotatedApi.Yaml
