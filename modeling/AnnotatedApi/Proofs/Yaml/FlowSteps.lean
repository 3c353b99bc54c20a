/-
  Steps of the lexer in flow collections. Outside blocks no candidate key has to be one
  (`Lexer.Loose`), so between two tokens any number of blanks and line breaks may stand: candidates
  are only given up on the way. What counts of a step is the tokens it adds, the text that is left
  and how many collections are open (`Lexer.Reads`).
-/
import AnnotatedApi.Proofs.Yaml.BlockSteps

namespace AnnotatedApi.Yaml

/-- Blanks and line feeds, which may stand between two tokens. -/
def isPad (c : Char) : Bool := c = ' ' || c = '\n'

theorem isGap_of_isPad {c : Char} (h : isPad c = true) : isGap c = true := by
  simp only [isPad, Bool.or_eq_true, decide_eq_true_eq] at h
  rcases h with rfl | rfl <;> decide

namespace Cursor

variable {p : Cursor} {s r : List Char}

theorem skipSpaces_space (h : p.rest = ' ' :: r) : p.skipSpaces = p.next.skipSpaces := by
  simp only [skipSpaces, run, skip, next_of_inline h (by decide), h, List.takeWhile_cons,
    decide_true, if_true, List.length_cons, List.drop_succ_cons, List.filter_cons]
  simp only [ne_eq, show ¬ ' ' = '\uFEFF' by decide, not_false_eq_true, decide_true, if_true,
    List.length_cons]
  congr 1 <;> omega

/-- Without a line break the line stays. -/
theorem line_after_of_inside (h : p.rest = s ++ r) (hs : ∀ c ∈ s, isBreak c = false) :
    (p.after s).line = p.line := by
  induction s generalizing p with
  | nil => rfl
  | cons c s ih =>
    have hline : p.next.line = p.line := by simp [next, h, hs c List.mem_cons_self]
    rw [after_cons, ih (rest_next h) fun d hd => hs d (List.mem_cons_of_mem _ hd), hline]

theorem skipSpaces_of_ne (h : ∀ c ∈ p.rest.head?, c ≠ ' ') : p.skipSpaces = p :=
  @skipSpaces_eq p p.rest 0 rfl h

end Cursor

/-! ## Words -/

variable {pad r s : List Char}

/-- Letters, digits, signs and points, which are no indicators in a word. -/
def isWordChar (c : Char) : Bool := c.isAlphanum || c = '-' || c = '+' || c = '.'

/-- A word or a numeral as it may stand in a flow collection. -/
structure Word (o : List Char) : Prop where
  chars : ∀ c ∈ o, isWordChar c = true
  first : ∃ c t, o = c :: t ∧
    (c.isAlphanum = true ∨ c = '-' ∧ ∃ d u, t = d :: u ∧ d.isAlphanum = true)

/-- What is no character of a word is none of its characters. -/
theorem ne_of_isWordChar {c : Char} (hc : isWordChar c = true) (d : Char)
    (hd : isWordChar d = false) : c ≠ d := by
  rintro rfl
  rw [hc] at hd
  cases hd

theorem isGap_of_isWordChar {c : Char} (hc : isWordChar c = true) : isGap c = false := by
  have hne := ne_of_isWordChar hc
  simp [isGap, isBreak, hne ' ' (by decide), hne '\t' (by decide), hne '\n' (by decide),
    hne '\r' (by decide), hne '\x85' (by decide), hne '\u2028' (by decide),
    hne '\u2029' (by decide)]

theorem plainRun_of_isWordChar {flow : Bool} {o : List Char}
    (ho : ∀ c ∈ o, isWordChar c = true) : plainRun flow o = o := by
  induction o with
  | nil => rfl
  | cons c o ih =>
    have hc := ho c List.mem_cons_self
    have hne := ne_of_isWordChar hc
    rw [plainRun, ih fun d hd => ho d (List.mem_cons_of_mem _ hd)]
    simp [isGap_of_isWordChar hc, isFlowIndicator, hne ':' (by decide), hne ',' (by decide),
      hne '[' (by decide), hne ']' (by decide), hne '\x7b' (by decide), hne '\x7d' (by decide),
      hne '?' (by decide)]

/-- Characters that end a value in a flow collection. -/
def isEnd (c : Char) : Bool := c = ',' || c = ']' || c = '\x7d'

/-- The text behind a value: blanks and line feeds, then the end of the value. -/
structure Ended (r pad : List Char) (c : Char) (s : List Char) : Prop where
  eq : r = pad ++ c :: s
  pad : ∀ c ∈ pad, isPad c = true
  char : isEnd c = true

section

variable {p : Cursor} {c : Char}

theorem isGap_of_isEnd (hc : isEnd c = true) : isGap c = false ∧ c ≠ '#' ∧ c ≠ '-' ∧ c ≠ '.' := by
  simp only [isEnd, Bool.or_eq_true, decide_eq_true_eq] at hc
  rcases hc with (rfl | rfl) | rfl <;> decide

/-- At blanks, line feeds and the end of a value no document ends. -/
theorem Ended.atSeparator (h : Ended r pad c s) (hp : p.rest = r) : p.atSeparator = false := by
  obtain ⟨rfl, hpad, hc⟩ := h
  cases pad with
  | nil =>
    obtain ⟨-, -, hdash, hdot⟩ := isGap_of_isEnd hc
    rw [Cursor.atSeparator, Lexer.atMark_of_ne hp hdash, Lexer.atMark_of_ne hp hdot]
    rfl
  | cons d pad => exact atSeparator_of_isGap hp (isGap_of_isPad (hpad d List.mem_cons_self))

theorem plainBreaks_pad {fuel : Nat} (h : Ended r pad c s) (hp : p.rest = r)
    (hfuel : pad.length < fuel) : ∃ breaks, plainBreaks fuel p = (some breaks, p.after pad) := by
  induction pad generalizing p r fuel with
  | nil =>
    obtain ⟨rfl, -, hc⟩ := h
    obtain ⟨fuel, rfl⟩ := Nat.exists_eq_add_of_le' (show 1 ≤ fuel from hfuel)
    have hsolid := solid_of_isGap (isGap_of_isEnd hc).1 s
    have hspaces : p.skipSpaces = p :=
      Cursor.skipSpaces_of_ne (hp ▸ fun d hd => (hsolid.not_blank d hd).1)
    have hbreak : p.lineBreak = none :=
      Cursor.lineBreak_of_none (hp ▸ fun d hd => isBreak_of_isGap (hsolid d hd))
    exact ⟨[], by simp only [plainBreaks, hspaces, hbreak]; rfl⟩
  | cons d pad ih =>
    obtain ⟨rfl, hpad, hc⟩ := h
    rw [List.length_cons] at hfuel
    obtain ⟨fuel, rfl⟩ := Nat.exists_eq_add_of_le' (show 1 ≤ fuel by omega)
    have hnext := Cursor.rest_next hp
    have hended : Ended (pad ++ c :: s) pad c s :=
      ⟨rfl, fun e he => hpad e (List.mem_cons_of_mem d he), hc⟩
    have hd := hpad d List.mem_cons_self
    simp only [isPad, Bool.or_eq_true, decide_eq_true_eq] at hd
    rcases hd with rfl | rfl
    · obtain ⟨breaks, hread⟩ := ih hended hnext (show pad.length < fuel + 1 by omega)
      refine ⟨breaks, Eq.trans ?_ hread⟩
      simp only [plainBreaks, Cursor.skipSpaces_space hp]
    · obtain ⟨breaks, hread⟩ := ih hended hnext (show pad.length < fuel by omega)
      have hspaces : p.skipSpaces = p :=
        Cursor.skipSpaces_of_ne (by rw [hp]; intro c hc; cases hc; decide)
      refine ⟨'\n' :: breaks, ?_⟩
      simp only [plainBreaks, hspaces, Cursor.lineBreak_of_break hp (by decide) (by decide),
        hended.atSeparator hnext, Bool.false_eq_true, if_false, hread]
      rfl

/-- The space behind a word is read up to the end of the value. -/
theorem plainGap_pad (hfits : p.Fits) (h : Ended r pad c s) (hp : p.rest = r) :
    ∃ gap wrapped, plainGap p = (gap, p.after pad, wrapped) := by
  -- blanks first, then nothing or a line feed
  obtain ⟨rfl, hpad, hc⟩ := h
  have hsplit : ∃ k more, pad = spaces k ++ more ∧ ∀ d ∈ more.head?, d = '\n' := by
    clear hp
    induction pad with
    | nil => exact ⟨0, [], rfl, by simp⟩
    | cons d pad ih =>
      obtain ⟨k, more, rfl, hmore⟩ := ih fun e he => hpad e (List.mem_cons_of_mem d he)
      have hd := hpad d List.mem_cons_self
      simp only [isPad, Bool.or_eq_true, decide_eq_true_eq] at hd
      rcases hd with rfl | rfl
      · exact ⟨k + 1, more, rfl, hmore⟩
      · exact ⟨0, '\n' :: (spaces k ++ more), rfl, by simp⟩
  obtain ⟨k, more, rfl, hmore⟩ := hsplit
  rw [List.append_assoc] at hp
  cases more with
  | nil =>
    rw [List.nil_append] at hp
    rw [List.append_nil]
    exact ⟨_, _, plainGap_blanks hp (solid_of_isGap (isGap_of_isEnd hc).1 s)⟩
  | cons d more =>
    obtain rfl := hmore d rfl
    have hrun : (p.run fun c => c = ' ') = (spaces k, p.after (spaces k)) :=
      Cursor.run_eq hp (fun d hd => by simp [eq_space_of_mem_spaces hd])
        (fun d => isInline_of_mem_spaces) (fun d hd => by cases hd; decide)
    have hbreak := Cursor.rest_after hp
    have hnext : (p.after (spaces k)).next.rest = more ++ c :: s := Cursor.rest_next hbreak
    have hended : Ended (more ++ c :: s) more c s :=
      ⟨rfl, fun e he => hpad e (by simp [he]), hc⟩
    have hlength : more.length < (p.after (spaces k)).next.left := by
      rw [(hfits.after _).next.left_eq, hnext, List.length_append, List.length_cons]
      omega
    obtain ⟨breaks, hread⟩ := plainBreaks_pad hended hnext hlength
    refine ⟨folded '\n' breaks, true, ?_⟩
    simp only [plainGap, hrun, Cursor.lineBreak_of_break hbreak (by decide) (by decide),
      hended.atSeparator hnext, Bool.false_eq_true, if_false, hread, Cursor.after_append]
    rfl

end

theorem Ended.plainRun {c : Char} (h : Ended r pad c s) : plainRun true r = [] := by
  obtain ⟨rfl, hpad, hc⟩ := h
  cases pad with
  | nil =>
    simp only [isEnd, Bool.or_eq_true, decide_eq_true_eq] at hc
    rcases hc with (rfl | rfl) | rfl <;> simp [Yaml.plainRun, isFlowIndicator]
  | cons d pad => exact plainRun_of_isGap (isGap_of_isPad (hpad d List.mem_cons_self)) _ _

theorem Word.isInline {o : List Char} (h : Word o) : ∀ c ∈ o, isInline c = true := fun c hc =>
  isInline_of_class (h.chars c hc) (by decide)

/-- A word is read up to the end of the value, with the space behind it. -/
theorem plainScalar_word {o : List Char} {p : Cursor} {c : Char} {limit : Int} (ho : Word o)
    (h : Ended r pad c s) (hfits : p.Fits) (hp : p.rest = o ++ r) :
    ∃ wrapped, plainScalar true limit p = (o, p.after (o ++ pad), wrapped) := by
  have hbehind := Cursor.rest_after hp
  obtain ⟨gap, wrapped, hgap⟩ := plainGap_pad (hfits.after o) h hbehind
  have hrun : plainRun true p.rest = o := by
    rw [hp, plainRun_append (plainRun_of_isWordChar ho.chars) h.plainRun]
  obtain ⟨a, t, hfirst, -⟩ := ho.first
  have hempty : o.isEmpty = false := by rw [hfirst]; rfl
  have hhash : p.sees '#' = false := by
    refine sees_eq_false ?_
    rw [hp, hfirst]
    intro e
    exact ne_of_isWordChar (ho.chars a (by rw [hfirst]; exact List.mem_cons_self)) '#' (by decide)
      (Option.some.inj e)
  have hend : ((p.after o).after pad).rest = c :: s := Cursor.rest_after (h.eq ▸ hbehind)
  have hstop : ∀ fuel newLine, plainRest true limit newLine fuel ((p.after o).after pad) =
      ([], (p.after o).after pad, newLine) := by
    intro fuel newLine
    have hended : Ended (c :: s) [] c s := ⟨rfl, by simp, h.char⟩
    have hnone := hended.plainRun
    cases fuel with
    | zero => rfl
    | succ fuel => simp only [plainRest, hend, hnone, List.isEmpty_nil, Bool.or_true, if_true]
  refine ⟨wrapped, ?_⟩
  rw [plainScalar, plainRest, hrun, Cursor.skip_eq_after hp ho.isInline, hgap, Cursor.after_append]
  simp only [hhash, hempty, Bool.or_self, Bool.false_eq_true, if_false, Bool.not_true,
    Bool.false_and, Bool.or_false, hstop, List.isEmpty_nil, if_true, ite_self]

/-- A word is no mark that starts or ends a document. -/
theorem Word.atMark {o : List Char} {p : Cursor} {mark : Char} (ho : Word o) (hp : p.rest = o ++ r)
    (hmark : mark.isAlphanum = false) : p.atMark mark = false := by
  have hne : ∀ {d : Char}, d.isAlphanum = true → d ≠ mark := fun hd e => by
    rw [e, hmark] at hd
    cases hd
  obtain ⟨a, t, rfl, ha | ⟨-, d, u, rfl, hd⟩⟩ := ho.first
  · exact Lexer.atMark_of_ne hp (hne ha)
  · unfold Cursor.atMark
    rw [hp]
    split
    · next heq =>
      obtain ⟨-, heq⟩ := List.cons.inj heq
      simp [← (List.cons.inj heq).1, hne hd]
    · rfl

namespace Lexer

variable {x y z : Lexer}

/-! ## Over blanks and line breaks -/

theorem toNextToken_pad {fuel : Nat} (hx : x.cursor.rest = pad ++ r)
    (hpad : ∀ c ∈ pad, isPad c = true) (hr : Begins r) (hfuel : pad.length < fuel) :
    ∃ allowed, toNextToken fuel x = (x.moveTo (x.cursor.after pad)).allowKey allowed ∧
      (x.flow = true → allowed = x.keyAllowed) := by
  induction pad generalizing x fuel with
  | nil =>
    obtain ⟨fuel, rfl⟩ := Nat.exists_eq_add_of_le' (show 1 ≤ fuel from hfuel)
    exact ⟨x.keyAllowed, @toNextToken_spaces x r 0 fuel hx hr, fun _ => rfl⟩
  | cons c pad ih =>
    rw [List.length_cons] at hfuel
    obtain ⟨fuel, rfl⟩ := Nat.exists_eq_add_of_le' (show 1 ≤ fuel by omega)
    have hnext := Cursor.rest_next hx
    have hmore := fun d hd => hpad d (List.mem_cons_of_mem c hd)
    have hc := hpad c List.mem_cons_self
    simp only [isPad, Bool.or_eq_true, decide_eq_true_eq] at hc
    rcases hc with rfl | rfl
    · obtain ⟨allowed, hread, hflow⟩ :=
        @ih (x.moveTo x.cursor.next) (fuel + 1) hnext hmore (by omega)
      refine ⟨allowed, ?_, hflow⟩
      have hsame : toNextToken (fuel + 1) x = toNextToken (fuel + 1) (x.moveTo x.cursor.next) := by
        simp only [toNextToken, Cursor.skipSpaces_space hx, moveTo]
        rfl
      rw [hsame, hread]
      rfl
    · have hspaces : x.cursor.skipSpaces = x.cursor :=
        Cursor.skipSpaces_of_ne (by rw [hx]; intro c hc; cases hc; decide)
      have hcomment : x.cursor.sees '#' = false := sees_eq_false (by rw [hx]; simp)
      obtain ⟨allowed, hread, hflow⟩ :=
        @ih ((x.moveTo x.cursor.next).allowKey (x.keyAllowed || !x.flow)) fuel hnext hmore
          (by omega)
      refine ⟨allowed, ?_, fun h => ?_⟩
      · rw [toNextToken]
        simp only [hspaces, hcomment, Bool.false_eq_true, if_false,
          Cursor.lineBreak_of_break hx (by decide) (by decide)]
        exact hread
      · rw [hflow h]
        simp [allowKey, h]

/-- A candidate that need not be a key. -/
def Spare (key : Option KeyStart) : Prop := ∀ k ∈ key, k.required = false

theorem spare_none : Spare none := fun _ h => by cases h

theorem aged_of_spare {key : Option KeyStart} (h : Spare key) :
    ∃ key', x.aged key = .ok key' ∧ Spare key' := by
  cases key with
  | none => exact ⟨none, rfl, spare_none⟩
  | some k =>
    rw [aged, h k rfl]
    cases x.stale k
    · exact ⟨some k, rfl, h⟩
    · exact ⟨none, rfl, spare_none⟩

theorem mapM_aged {keys : List (Option KeyStart)} (h : ∀ key ∈ keys, Spare key) :
    ∃ keys', keys.mapM x.aged = .ok keys' ∧ keys'.length = keys.length ∧
      ∀ key ∈ keys', Spare key := by
  induction keys with
  | nil => exact ⟨[], rfl, rfl, by simp⟩
  | cons key keys ih =>
    obtain ⟨key', hkey, hspare⟩ := @aged_of_spare x key (h key List.mem_cons_self)
    obtain ⟨keys', hkeys, hlength, hall⟩ := ih fun k hk => h k (List.mem_cons_of_mem _ hk)
    refine ⟨key' :: keys', ?_, by simp [hlength], ?_⟩
    · rw [List.mapM_cons, hkey, ok_bind, hkeys]
      rfl
    · intro k hk
      rcases List.mem_cons.mp hk with rfl | hk
      · exact hspare
      · exact hall k hk

/-- Outside all blocks, with no key required. -/
structure Loose (x : Lexer) : Prop where
  fits : x.cursor.Fits
  indent : x.indent = -1
  indents : x.indents = []
  key : Spare x.key
  outer : ∀ key ∈ x.outerKeys, Spare key
  done : x.done = false

/-- To the next token. The candidate of the innermost collection is looked at there. -/
theorem Loose.approach (hx : x.Loose) (hrest : x.cursor.rest = pad ++ r)
    (hpad : ∀ c ∈ pad, isPad c = true) (hr : Begins r) :
    ∃ z, x.approach = .ok z ∧ z.Loose ∧ z.cursor = x.cursor.after pad ∧ z.tokens = x.tokens ∧
      z.count = x.count ∧ z.outerKeys.length = x.outerKeys.length ∧
      (x.flow = true → z.keyAllowed = x.keyAllowed) ∧ z.aged x.key = .ok z.key := by
  have hlength : pad.length < x.cursor.left + 1 := by
    rw [hx.fits.left_eq, hrest, List.length_append]
    omega
  obtain ⟨allowed, hread, hallowed⟩ := toNextToken_pad hrest hpad hr hlength
  obtain ⟨key, hkey, hspare⟩ :=
    @aged_of_spare ((x.moveTo (x.cursor.after pad)).allowKey allowed) _ hx.key
  obtain ⟨outer, houter, hcount, hall⟩ :=
    @mapM_aged ((x.moveTo (x.cursor.after pad)).allowKey allowed) _ hx.outer
  refine ⟨{ x with cursor := x.cursor.after pad, keyAllowed := allowed, key := key,
                   outerKeys := outer }, ?_, ?_, rfl, rfl, rfl, hcount, hallowed, hkey⟩
  · rw [Lexer.approach, hread, dropStale]
    show (((x.moveTo (x.cursor.after pad)).allowKey allowed).aged x.key >>= fun key =>
      x.outerKeys.mapM ((x.moveTo (x.cursor.after pad)).allowKey allowed).aged >>= _) >>= _ = _
    rw [hkey, ok_bind, houter, ok_bind]
    show Except.ok (unwindTo _ _) = _
    rw [unwindTo]
    split
    · rfl
    · simp only [moveTo, allowKey, hx.indents, unwind]
  · exact ⟨hx.fits.after pad, hx.indent, hx.indents, hspare, hall, hx.done⟩

/-- The text `s` comes next, behind blanks and line feeds. -/
def At (x : Lexer) (s : List Char) : Prop :=
  ∃ pad, (∀ c ∈ pad, isPad c = true) ∧ x.cursor.rest = pad ++ s

theorem at_of_rest (h : x.cursor.rest = s) : x.At s := ⟨[], by simp, h⟩

theorem Loose.reach (hx : x.Loose) (hat : x.At r) (hr : Begins r) :
    ∃ z, x.approach = .ok z ∧ z.Loose ∧ z.cursor.rest = r ∧ z.tokens = x.tokens ∧
      z.outerKeys.length = x.outerKeys.length ∧ (x.flow = true → z.keyAllowed = x.keyAllowed) ∧
      (x.key = none → z.key = none) := by
  obtain ⟨pad, hpad, hrest⟩ := hat
  obtain ⟨z, hz, hloose, hcursor, htokens, -, hdepth, hallowed, haged⟩ := hx.approach hrest hpad hr
  refine ⟨z, hz, hloose, hcursor ▸ Cursor.rest_after hrest, htokens, hdepth, hallowed, fun h => ?_⟩
  rw [h] at haged
  exact (Except.ok.inj haged).symm

/-! ## Steps -/

/-- From `x` the tokens `ts` are read, up to `y`. -/
structure Reads (x : Lexer) (ts : List Token) (y : Lexer) : Prop where
  lexes : Lexes x y
  loose : y.Loose
  tokens : y.tokens = ts.reverse ++ x.tokens

theorem Reads.trans {ts us : List Token} (hxy : Reads x ts y) (hyz : Reads y us z) :
    Reads x (ts ++ us) z :=
  ⟨hxy.lexes.trans hyz.lexes, hyz.loose, by rw [hyz.tokens, hxy.tokens]; simp⟩

/-- One step: an approach and the token there. -/
theorem reads_of_take {ts : List Token} (hz : x.approach = .ok z) (htokens : z.tokens = x.tokens)
    (htake : z.take = .ok y) (hy : y.Loose) (hts : y.tokens = ts.reverse ++ z.tokens)
    (hlength : y.cursor.rest.length < z.cursor.rest.length) : Reads x ts y :=
  ⟨.move ⟨z, hz, htake, hy.done, hlength⟩ (.refl y), hy, by rw [hts, htokens]⟩

/-- A candidate on the same line is kept for 1024 characters. -/
theorem stale_eq_false {o : List Char} {token column : Nat} {required : Bool}
    (hx : x.cursor.rest = o ++ r) (hy : y.cursor = x.cursor.after o)
    (ho : ∀ c ∈ o, isBreak c = false) (hlength : o.length ≤ 1024) :
    y.stale ⟨token, required, x.cursor.index, x.cursor.line, column⟩ = false := by
  have hline := Cursor.line_after_of_inside hx ho
  have hindex := Cursor.index_after hx
  simp [stale, hy, hline, hindex, hlength]

theorem flow_of_length (h : y.outerKeys.length = x.outerKeys.length) : y.flow = x.flow := by
  cases hx : x.outerKeys <;> cases hy : y.outerKeys <;> simp_all [flow]

/-- Outside blocks every candidate is spare. -/
theorem Loose.candidate (hx : x.Loose) : Spare x.candidate := fun k hk =>
  (x.candidate_spare [] (by rw [hx.indent]; omega) k hk).1

theorem Loose.dropKey (hx : x.Loose) : x.dropKey = .ok { x with key := none } := by
  have hkey : x.key.any (·.required) = false := by
    cases h : x.key with
    | none => rfl
    | some k => exact hx.key k h
  rw [Lexer.dropKey, hkey]
  rfl

theorem reads_open {c : Char} {t : Token} (hx : x.Loose) (hkey : x.key = none)
    (hat : x.At (c :: s))
    (hc : c = '[' ∧ t = .flowSequence ∨ c = '\x7b' ∧ t = .flowMapping) :
    ∃ y, Reads x [t] y ∧ y.cursor.rest = s ∧ y.key = none ∧ y.keyAllowed = true ∧
      y.outerKeys.length = x.outerKeys.length + 1 := by
  have hbegins : Begins (c :: s) := by
    rcases hc with ⟨rfl, -⟩ | ⟨rfl, -⟩ <;> exact begins_mark (by decide) (by decide) s
  obtain ⟨z, hz, hloose, hzrest, htokens, hdepth, -, hzkey⟩ := hx.reach hat hbegins
  have hopen : z.token c s = z.openFlow t := by
    rcases hc with ⟨rfl, rfl⟩ | ⟨rfl, rfl⟩ <;>
      · rw [token_bracket hzrest (by simp)]
        rfl
  let y : Lexer := { z with cursor := z.cursor.next, tokens := t :: z.tokens, count := z.count + 1,
                            key := none, outerKeys := z.candidate :: z.outerKeys,
                            keyAllowed := true }
  have htake : z.take = .ok y := by
    rw [take, hzrest]
    show z.token c s = _
    rw [hopen, openFlow, noteKey_of_none (hzkey hkey)]
    rfl
  have hy : y.Loose := by
    refine ⟨hloose.fits.next, hloose.indent, hloose.indents, spare_none, ?_, hloose.done⟩
    intro key hmem
    rcases List.mem_cons.mp hmem with rfl | hmem
    · exact hloose.candidate
    · exact hloose.outer key hmem
  have hnext : y.cursor.rest = s := Cursor.rest_next hzrest
  refine ⟨y, reads_of_take hz htokens htake hy rfl ?_, hnext, rfl, rfl, ?_⟩
  · rw [hnext, hzrest]
    exact Nat.lt_succ_self _
  · show z.outerKeys.length + 1 = _
    rw [hdepth]

theorem reads_close {c : Char} {t : Token} {depth : Nat} (hx : x.Loose) (hat : x.At (c :: s))
    (hc : c = ']' ∧ t = .flowSequenceEnd ∨ c = '\x7d' ∧ t = .flowMappingEnd)
    (hdepth : x.outerKeys.length = depth + 1) :
    ∃ y, Reads x [t] y ∧ y.cursor.rest = s ∧ y.outerKeys.length = depth := by
  have hbegins : Begins (c :: s) := by
    rcases hc with ⟨rfl, -⟩ | ⟨rfl, -⟩ <;> exact begins_mark (by decide) (by decide) s
  obtain ⟨z, hz, hloose, hzrest, htokens, hlength, -, -⟩ := hx.reach hat hbegins
  have hclose : z.token c s = z.closeFlow t := by
    rcases hc with ⟨rfl, rfl⟩ | ⟨rfl, rfl⟩ <;>
      · rw [token_bracket hzrest (by simp)]
        rfl
  obtain ⟨key, outer, houter⟩ := List.exists_cons_of_length_pos (l := z.outerKeys) (by omega)
  let y : Lexer := { z with cursor := z.cursor.next, tokens := t :: z.tokens, count := z.count + 1,
                            key := key, outerKeys := outer, keyAllowed := false }
  have htake : z.take = .ok y := by
    rw [take, hzrest]
    show z.token c s = _
    rw [hclose, closeFlow, hloose.dropKey, ok_bind]
    simp only [houter]
    rfl
  have hall := hloose.outer
  rw [houter] at hall
  have hy : y.Loose := ⟨hloose.fits.next, hloose.indent, hloose.indents,
    hall key List.mem_cons_self, fun k hk => hall k (List.mem_cons_of_mem _ hk), hloose.done⟩
  have hnext : y.cursor.rest = s := Cursor.rest_next hzrest
  refine ⟨y, reads_of_take hz htokens htake hy rfl ?_, hnext, ?_⟩
  · rw [hnext, hzrest]
    exact Nat.lt_succ_self _
  · rw [houter, List.length_cons] at hlength
    show outer.length = depth
    omega

theorem reads_comma (hx : x.Loose) (hat : x.At (',' :: s)) :
    ∃ y, Reads x [.flowEntry] y ∧ y.cursor.rest = s ∧ y.key = none ∧ y.keyAllowed = true ∧
      y.outerKeys.length = x.outerKeys.length := by
  obtain ⟨z, hz, hloose, hzrest, htokens, hdepth, -, -⟩ :=
    hx.reach hat (begins_mark (by decide) (by decide) s)
  have hdash : z.cursor.atMark '-' = false := atMark_of_ne hzrest (by decide)
  have hdot : z.cursor.atMark '.' = false := atMark_of_ne hzrest (by decide)
  let y : Lexer := { z with cursor := z.cursor.next, tokens := .flowEntry :: z.tokens,
                            count := z.count + 1, key := none, keyAllowed := true }
  have htake : z.take = .ok y := by
    have hallow : (z.allowKey true).Loose :=
      ⟨hloose.fits, hloose.indent, hloose.indents, hloose.key, hloose.outer, hloose.done⟩
    rw [take, hzrest]
    simp only [token, hdash, hdot, Bool.and_false, Bool.false_eq_true, if_false, hallow.dropKey,
      ok_bind]
    rfl
  have hnext : y.cursor.rest = s := Cursor.rest_next hzrest
  refine ⟨y, reads_of_take hz htokens htake ?_ rfl ?_, hnext, rfl, rfl, hdepth⟩
  · exact ⟨hloose.fits.next, hloose.indent, hloose.indents, spare_none, hloose.outer, hloose.done⟩
  · rw [hnext, hzrest]
    exact Nat.lt_succ_self _

/-! ## Quoted scalars and keys -/

theorem reads_string {body : List Char} (hx : x.Loose) (hkey : x.key = none)
    (hat : x.At ('"' :: body ++ ['"'] ++ r))
    (hbody : QuotedAs true body (s.map Char.toNat)) (hr : r.head? ≠ some '\'') :
    ∃ y, Reads x [.scalar (.text s) false] y ∧ y.cursor.rest = r ∧
      y.outerKeys.length = x.outerKeys.length := by
  obtain ⟨z, hz, hloose, hzrest, htokens, hdepth, -, hzkey⟩ :=
    hx.reach hat (begins_mark (by decide) (by decide) _)
  have htake := take_quoted hloose.fits (hzkey hkey) hzrest hbody hr
  have hbehind : (z.cursor.after ('"' :: body ++ ['"'])).rest = r := Cursor.rest_after hzrest
  refine ⟨_, reads_of_take hz htokens htake ?_ rfl ?_, hbehind, hdepth⟩
  · exact ⟨hloose.fits.after _, hloose.indent, hloose.indents, hloose.candidate, hloose.outer,
      hloose.done⟩
  · exact length_after hzrest (by simp)

/-- The colon behind a scalar that has been noted puts the token of the key in front of it. -/
theorem moves_colon {k : Nat} {key : KeyStart} {t : Token} {ts : List Token} (hx : x.Loose)
    (hflow : x.flow = true) (hkey : x.key = some key) (htokens : x.tokens = t :: ts)
    (hcount : x.count = key.token + 1) (hrest : x.cursor.rest = spaces k ++ ':' :: r)
    (hfresh : (x.moveTo (x.cursor.after (spaces k))).stale key = false) :
    ∃ y, Moves x y ∧ y.Loose ∧ y.tokens = .value :: t :: .key :: ts ∧ y.cursor.rest = r ∧
      y.key = none ∧ y.outerKeys.length = x.outerKeys.length := by
  obtain ⟨z, hz, hloose, hcursor, hztokens, hzcount, hdepth, -, haged⟩ :=
    hx.approach hrest (fun c hc => by rw [eq_space_of_mem_spaces hc]; decide)
      (begins_mark (by decide) (by decide) r)
  have hzkey : z.key = some key := by
    have hstale : z.stale key = false := by
      unfold stale at hfresh ⊢
      rw [hcursor]
      exact hfresh
    rw [hkey, aged, hstale] at haged
    exact (Except.ok.inj haged).symm
  have hzflow : z.flow = true := (flow_of_length hdepth).trans hflow
  have hzrest : z.cursor.rest = ':' :: r := hcursor ▸ Cursor.rest_after hrest
  let y : Lexer := { z with cursor := z.cursor.next, key := none, keyAllowed := false,
                            tokens := .value :: t :: .key :: ts, count := z.count + 2 }
  have htake : z.take = .ok y := by
    have hdash : z.cursor.atMark '-' = false := atMark_of_ne hzrest (by decide)
    have hdot : z.cursor.atMark '.' = false := atMark_of_ne hzrest (by decide)
    have htoken : z.token ':' r = z.colon := by simp [token, hdash, hdot, hzflow]
    have hunder : z.count - key.token = 1 := by omega
    rw [take, hzrest]
    show z.token ':' r = _
    rw [htoken, colon, hzkey]
    simp only [hzflow, if_true, emitAt, hunder, hztokens, htokens]
    rfl
  have hnext : y.cursor.rest = r := Cursor.rest_next hzrest
  refine ⟨y, ⟨z, hz, htake, hloose.done, ?_⟩, ?_, rfl, hnext, rfl, hdepth⟩
  · rw [hnext, hzrest]
    exact Nat.lt_succ_self _
  · exact ⟨hloose.fits.next, hloose.indent, hloose.indents, spare_none, hloose.outer, hloose.done⟩

/-- A key in double quotes and its colon, on one line. -/
theorem reads_key {body : List Char} {k : Nat} (hx : x.Loose) (hflow : x.flow = true)
    (hkey : x.key = none) (hallowed : x.keyAllowed = true)
    (hat : x.At ('"' :: body ++ ['"'] ++ (spaces k ++ ':' :: r)))
    (hbody : QuotedAs true body (s.map Char.toNat))
    (hinside : ∀ c ∈ body, isBreak c = false) (hlength : body.length + 2 + k ≤ 1024) :
    ∃ y, Reads x (keyTokens s false) y ∧ y.cursor.rest = r ∧ y.key = none ∧
      y.outerKeys.length = x.outerKeys.length := by
  obtain ⟨z, hz, hloose, hzrest, htokens, hdepth, hzallowed, hzkey⟩ :=
    hx.reach hat (begins_mark (by decide) (by decide) _)
  have hquote : (spaces k ++ ':' :: r).head? ≠ some '\'' := by
    cases k <;> simp [spaces_succ]
  have htake := take_quoted hloose.fits (hzkey hkey) hzrest hbody hquote
  let w : Lexer := ((z.noted.allowKey false).moveTo (z.cursor.after ('"' :: body ++ ['"']))).emit
    (.scalar (.text s) false)
  have hw : w.Loose := ⟨hloose.fits.after _, hloose.indent, hloose.indents, hloose.candidate,
    hloose.outer, hloose.done⟩
  -- the scalar is noted, and at the colon it is on the same line and near enough
  have hcandidate : w.key = some ⟨z.count, !z.flow && z.indent = (z.cursor.column : Int),
      z.cursor.index, z.cursor.line, z.cursor.column⟩ := by
    show z.candidate = _
    rw [candidate, hzallowed hflow, hallowed, if_pos rfl]
  have hfresh : ∀ token required column, (w.moveTo (w.cursor.after (spaces k))).stale
      ⟨token, required, z.cursor.index, z.cursor.line, column⟩ = false := by
    intro token required column
    refine stale_eq_false (x := z) (o := '"' :: body ++ ['"'] ++ spaces k) (r := ':' :: r)
      ?_ ?_ ?_ ?_
    · rw [hzrest, List.append_assoc _ (spaces k)]
    · exact (Cursor.after_append _ _ _).symm
    · intro c hc
      simp only [List.mem_append, List.mem_cons, List.not_mem_nil, or_false] at hc
      rcases hc with ((rfl | hc) | rfl) | hc
      · decide
      · exact hinside c hc
      · decide
      · rw [eq_space_of_mem_spaces hc]
        decide
    · simp only [List.length_append, List.length_cons, List.length_nil, length_spaces]
      omega
  obtain ⟨y, hmoves, hy, hytokens, hyrest, hykey, hydepth⟩ := moves_colon hw
    ((flow_of_length hdepth).trans hflow) hcandidate rfl rfl (Cursor.rest_after hzrest)
    (hfresh _ _ _)
  refine ⟨y, ⟨.move ⟨z, hz, htake, hw.done, length_after hzrest (by simp)⟩
    (.move hmoves (.refl y)), hy, ?_⟩, hyrest, hykey, hydepth.trans hdepth⟩
  rw [hytokens]
  show .value :: .scalar (.text s) false :: .key :: z.tokens = _
  rw [htokens]
  rfl

theorem reads_word {o : List Char} {c : Char} (hx : x.Loose) (hflow : x.flow = true)
    (hkey : x.key = none) (hat : x.At (o ++ r)) (ho : Word o) (h : Ended r pad c s) :
    ∃ y, Reads x [.scalar (.text o) true] y ∧ y.cursor.rest = c :: s ∧
      y.outerKeys.length = x.outerKeys.length := by
  obtain ⟨a, t, rfl, ha⟩ := ho.first
  have hword := ho.chars a List.mem_cons_self
  have hne := ne_of_isWordChar hword
  have hgap := isGap_of_isWordChar hword
  obtain ⟨z, hz, hloose, hzrest, htokens, hdepth, -, hzkey⟩ :=
    hx.reach hat (begins_mark hgap (hne '#' (by decide)) _)
  have htoken : z.token a (t ++ r) = z.plain := by
    refine token_plain (fun _ => ⟨hne '?' (by decide), hne ':' (by decide)⟩)
      ⟨ho.atMark hzrest (by decide), ho.atMark hzrest (by decide)⟩ hgap ?_ ?_
    · have hmarks : "#,[]\x7b\x7d&*!|>'\"%@`".toList.any isWordChar = false := by decide
      rw [List.contains_eq_mem, decide_eq_false_iff_not]
      exact fun hmem => List.any_eq_false.mp hmarks a hmem hword
    · rintro (e | e | rfl)
      · exact absurd e (hne '?' (by decide))
      · exact absurd e (hne ':' (by decide))
      · obtain hdash | ⟨-, d, u, rfl, -⟩ := ha
        · cases hdash
        · exact isGap_of_isWordChar (ho.chars d (by simp))
  obtain ⟨wrapped, hread⟩ :=
    @plainScalar_word _ _ _ (a :: t) z.cursor c (z.indent + 1) ho h hloose.fits hzrest
  have htake : z.take = .ok (((z.noted.allowKey wrapped).moveTo
      (z.cursor.after (a :: t ++ pad))).emit (.scalar (.text (a :: t)) true)) := by
    rw [take, hzrest]
    show z.token a (t ++ r) = _
    rw [htoken, plain, noteKey_of_none (hzkey hkey), ok_bind,
      show z.noted.flow = z.flow from rfl, flow_of_length hdepth, hflow,
      show z.noted.indent = z.indent from rfl, show z.noted.cursor = z.cursor from rfl, hread]
    rfl
  have hwhole : z.cursor.rest = a :: t ++ pad ++ c :: s := by
    rw [hzrest, h.eq, List.append_assoc]
  refine ⟨_, reads_of_take hz htokens htake ?_ rfl ?_, Cursor.rest_after hwhole, hdepth⟩
  · exact ⟨hloose.fits.after _, hloose.indent, hloose.indents, hloose.candidate, hloose.outer,
      hloose.done⟩
  · exact length_after hwhole (by simp)

end Lexer

open Lexer in
/-- The tokens of a text that is read up to blanks and line feeds at its end. -/
theorem tokens_of_reads {s : List Char} {ts : List Token} {y : Lexer}
    (hmark : s.head? ≠ some '\uFEFF') (h : Reads (start s) ts y) (hat : y.At []) :
    tokens s = ts ++ [.streamEnd] := by
  have hsees : (Cursor.start s).sees '\uFEFF' = false := sees_eq_false hmark
  have hend : Begins [] := ⟨fun c hc => (by cases hc), by simp⟩
  obtain ⟨z, hz, hloose, hzrest, htokens, -, -, -⟩ := h.loose.reach hat hend
  have htake : z.take =
      .ok { z with key := none, keyAllowed := false, done := true } := by
    have hsettled : z.settled = .ok { z with key := none, keyAllowed := false } := by
      have hunwind : z.unwindTo (-1) = z := by
        rw [unwindTo, hloose.indents]
        exact ite_self z
      rw [settled, hunwind, hloose.dropKey]
      rfl
    rw [take, hzrest]
    dsimp only
    rw [hsettled]
    rfl
  have hstep := (step_eq y).trans (congrArg (· >>= take) hz)
  rw [ok_bind, htake] at hstep
  have hfuel : (start s).cursor.rest.length < s.length + 2 := Nat.lt_add_of_pos_right (by decide)
  rw [tokens, hsees]
  refine (run_of_lexes h.lexes hstep rfl hfuel).trans ?_
  show (Token.streamEnd :: z.tokens).reverse = _
  rw [htokens, h.tokens]
  show (Token.streamEnd :: (ts.reverse ++ [])).reverse = _
  simp

end AnnotatedApi.Yaml
