/-
  Headers and the texts that describe them. A separator is a dash between blanks, and a text is cut
  at the leftmost separator, as long as it can be, then at the next one behind it, and so on
  (`Header.Cut`), and `Header.cut_iff` says that the segments are those of this cut. Of the first
  segment the code and the name are read, of the second the type, and the rest is the description
  (`Header.Describes`, `Header.ofChars_eq_ok_iff`). No segment in front of a separator ends with a
  blank, or the separator would start there (`Header.FirstSeparator.last`), so a name is never
  trimmed away. `parse_of_segments` is the statement.
-/
import AnnotatedApi.Annotation.Header
import AnnotatedApi.Proofs.Blanks
import AnnotatedApi.Proofs.Cutting

namespace AnnotatedApi.Header

open Text

/-! ## Separators -/

/-- Blanks, a dash and blanks. -/
def IsSeparator (m : List Char) : Prop :=
  ∃ front back, m = front ++ '-' :: back ∧ front ≠ [] ∧ back ≠ [] ∧
    (∀ c ∈ front, isBlank c = true) ∧ ∀ c ∈ back, isBlank c = true

variable {s m pre rest : List Char} {pieces : List (List Char)} {n : Nat}

theorem takeWhile_dropWhile {α : Type} (p : α → Bool) (l : List α) :
    (l.dropWhile p).takeWhile p = [] := by
  have hstop := List.head?_dropWhile_not p l
  cases hl : l.dropWhile p with
  | nil => rfl
  | cons a l' =>
    rw [hl] at hstop
    exact List.takeWhile_cons_of_neg (by simpa using hstop)

theorem isBlank_dash : isBlank '-' = false := by decide

/-- Blanks behind a separator belong to it. -/
theorem separator?_of_isSeparator (hm : IsSeparator m) (after : List Char) :
    separator? (m ++ after) = some (m.length + (after.takeWhile isBlank).length) := by
  obtain ⟨front, back, rfl, hfront, hback, hallFront, hallBack⟩ := hm
  have htake : (front ++ '-' :: (back ++ after)).takeWhile isBlank = front := by
    rw [List.takeWhile_append_of_pos hallFront,
      List.takeWhile_cons_of_neg (by simp [isBlank_dash]), List.append_nil]
  have hne : ((front.isEmpty || (back ++ after.takeWhile isBlank).isEmpty) : Bool) = false := by
    simp [hfront, hback]
  simp only [separator?, List.append_assoc, List.cons_append, htake, List.drop_left,
    List.takeWhile_append_of_pos hallBack, hne, Bool.false_eq_true, if_false]
  simp only [List.length_append, List.length_cons]
  congr 1
  omega

theorem separator?_eq_some_iff : separator? s = some n ↔
    ∃ m after, s = m ++ after ∧ IsSeparator m ∧ m.length = n ∧ after.takeWhile isBlank = [] := by
  constructor
  · intro h
    have hs : s = s.takeWhile isBlank ++ s.dropWhile isBlank :=
      List.takeWhile_append_dropWhile.symm
    have hdrop : s.drop (s.takeWhile isBlank).length = s.dropWhile isBlank := by
      have hleft : (s.takeWhile isBlank ++ s.dropWhile isBlank).drop (s.takeWhile isBlank).length =
          s.dropWhile isBlank := List.drop_left
      rwa [← hs] at hleft
    simp only [separator?, hdrop] at h
    split at h
    · next rest hrest =>
      split at h
      · cases h
      · next hne =>
        simp only [Bool.or_eq_true, List.isEmpty_iff, not_or] at hne
        have hback : rest = rest.takeWhile isBlank ++ rest.dropWhile isBlank :=
          List.takeWhile_append_dropWhile.symm
        refine ⟨s.takeWhile isBlank ++ '-' :: rest.takeWhile isBlank, rest.dropWhile isBlank, ?_,
          ⟨_, _, rfl, hne.1, hne.2, fun c hc => List.mem_takeWhile_imp hc,
            fun c hc => List.mem_takeWhile_imp hc⟩, ?_, ?_⟩
        · rw [List.append_assoc, List.cons_append, ← hback, ← hrest, ← hs]
        · simp only [List.length_append, List.length_cons]
          have hn := Option.some.inj h
          omega
        · exact takeWhile_dropWhile isBlank rest
    · cases h
  · rintro ⟨m, after, rfl, hm, rfl, hafter⟩
    rw [separator?_of_isSeparator hm, hafter]
    rfl

theorem separator?_eq_none (h : separator? s = none) (hm : IsSeparator m) (after : List Char) :
    s ≠ m ++ after := by
  rintro rfl
  rw [separator?_of_isSeparator hm] at h
  cases h

theorem length_le_of_separator? (h : separator? s = some n) (hm : IsSeparator m)
    {after : List Char} (hs : s = m ++ after) : m.length ≤ n := by
  rw [hs, separator?_of_isSeparator hm] at h
  have hn := Option.some.inj h
  omega

theorem IsSeparator.length_pos (hm : IsSeparator m) : 0 < m.length := by
  obtain ⟨front, back, rfl, -⟩ := hm
  rw [List.length_append, List.length_cons]
  omega

/-! ## The cut of a text -/

/-- The separator `m` between `pre` and `rest` is the leftmost of the text, as long as it can be. -/
structure FirstSeparator (pre m rest s : List Char) : Prop where
  split : s = pre ++ (m ++ rest)
  separator : IsSeparator m
  leftmost : ∀ before m' after, s = before ++ (m' ++ after) → IsSeparator m' →
    pre.length ≤ before.length
  longest : ∀ m' after, s = pre ++ (m' ++ after) → IsSeparator m' → m'.length ≤ m.length

/-- The pieces of a text between its separators, each separator the first one behind the one
before. -/
inductive Cut : List Char → List (List Char) → Prop
  | whole {s : List Char} (h : ∀ m, IsSeparator m → ¬ m <:+: s) : Cut s [s]
  | cut {pre m rest s : List Char} {pieces : List (List Char)} (h : FirstSeparator pre m rest s)
      (more : Cut rest pieces) : Cut s (pre :: pieces)

theorem firstSeparator_front (h : separator? s = some n) :
    ∃ m rest, m.length = n ∧ FirstSeparator [] m rest s := by
  obtain ⟨m, rest, hs, hm, hlen, -⟩ := separator?_eq_some_iff.mp h
  refine ⟨m, rest, hlen, hs, hm, fun _ _ _ _ _ => Nat.zero_le _, fun m' after hs' hm' => ?_⟩
  rw [hlen]
  exact length_le_of_separator? h hm' hs'

/-- One more character in front, with which no separator starts. -/
theorem FirstSeparator.cons {c : Char} (h : FirstSeparator pre m rest s)
    (hc : separator? (c :: s) = none) : FirstSeparator (c :: pre) m rest (c :: s) := by
  refine ⟨by rw [h.split]; rfl, h.separator, fun before m' after hs hm' => ?_,
    fun m' after hs hm' => ?_⟩
  · cases before with
    | nil => exact absurd hs (separator?_eq_none hc hm' after)
    | cons b before =>
      rw [List.cons_append, List.cons.injEq] at hs
      exact Nat.succ_le_succ (h.leftmost before m' after hs.2 hm')
  · rw [List.cons_append, List.cons.injEq] at hs
    exact h.longest m' after hs.2 hm'

theorem separator?_of_not_isBlank {c : Char} (hc : isBlank c = false) (s : List Char) :
    separator? (c :: s) = none := by
  have hfront : (c :: s).takeWhile isBlank = [] := List.takeWhile_cons_of_neg (by simp [hc])
  simp only [separator?, hfront]
  split <;> simp

/-- A separator behind characters that are not blank and in front of one that is none either. -/
theorem firstSeparator_of_isSeparator (hm : IsSeparator m) (hpre : ∀ c ∈ pre, isBlank c = false)
    (hrest : ∀ c, rest.head? = some c → isBlank c = false) :
    FirstSeparator pre m rest (pre ++ (m ++ rest)) := by
  induction pre with
  | nil =>
    have hend : rest.takeWhile isBlank = [] := by
      cases rest with
      | nil => rfl
      | cons c rest => exact List.takeWhile_cons_of_neg (by simp [hrest c rfl])
    refine ⟨rfl, hm, fun _ _ _ _ _ => Nat.zero_le _, fun m' after hs hm' => ?_⟩
    exact length_le_of_separator? (separator?_eq_some_iff.mpr ⟨m, rest, rfl, hm, rfl, hend⟩) hm' hs
  | cons c pre ih =>
    rw [List.forall_mem_cons] at hpre
    exact (ih hpre.2).cons (separator?_of_not_isBlank hpre.1 _)

/-- A segment in front of a separator does not end with a blank. -/
theorem FirstSeparator.last (h : FirstSeparator pre m rest s) {c : Char}
    (hc : pre.getLast? = some c) : isBlank c = false := by
  obtain ⟨pre, rfl⟩ := List.getLast?_eq_some_iff.mp hc
  by_contra hblank
  rw [Bool.not_eq_false] at hblank
  -- With the blank in front the separator would start one character earlier.
  obtain ⟨front, back, hm, -, hback, hallFront, hallBack⟩ := h.separator
  have hlonger : IsSeparator (c :: m) :=
    ⟨c :: front, back, by rw [hm]; rfl, List.cons_ne_nil _ _, hback,
      List.forall_mem_cons.mpr ⟨hblank, hallFront⟩, hallBack⟩
  have hle := h.leftmost pre (c :: m) rest (by rw [h.split]; simp) hlonger
  rw [List.length_append, List.length_singleton] at hle
  omega

theorem FirstSeparator.infix (h : FirstSeparator pre m rest s) : m <:+: s :=
  ⟨pre, rest, by rw [h.split, List.append_assoc]⟩

theorem FirstSeparator.unique {pre' m' rest' : List Char} (h : FirstSeparator pre m rest s)
    (h' : FirstSeparator pre' m' rest' s) : pre = pre' ∧ rest = rest' := by
  have hpre : pre.length = pre'.length :=
    Nat.le_antisymm (h.leftmost _ _ _ h'.split h'.separator) (h'.leftmost _ _ _ h.split h.separator)
  obtain ⟨rfl, hback⟩ := List.append_inj (h.split.symm.trans h'.split) hpre
  have hm : m.length = m'.length :=
    Nat.le_antisymm (h'.longest _ _ h.split h.separator) (h.longest _ _ h'.split h'.separator)
  exact ⟨rfl, (List.append_inj hback hm).2⟩

theorem Cut.unique {pieces' : List (List Char)} (h : Cut s pieces) (h' : Cut s pieces') :
    pieces = pieces' := by
  induction h generalizing pieces' with
  | whole hnone =>
    cases h' with
    | whole => rfl
    | cut hfirst => exact absurd hfirst.infix (hnone _ hfirst.separator)
  | cut hfirst _ ih =>
    cases h' with
    | whole hnone => exact absurd hfirst.infix (hnone _ hfirst.separator)
    | cut hfirst' more' =>
      obtain ⟨rfl, rfl⟩ := hfirst.unique hfirst'
      rw [ih more']

theorem segmentsAfter_eq (k : Nat) (s : List Char) : segmentsAfter k s = segments (s.drop k) := by
  induction s generalizing k with
  | nil => rw [List.drop_nil]; rfl
  | cons c s ih =>
    cases k with
    | zero => rfl
    | succ k => rw [segmentsAfter, ih, List.drop_succ_cons]

theorem segments_of_separator? {c : Char} (h : separator? (c :: s) = some n) (hn : 0 < n) :
    segments (c :: s) = [] :: segments ((c :: s).drop n) := by
  obtain ⟨k, rfl⟩ : ∃ k, n = k + 1 := ⟨n - 1, by omega⟩
  rw [segments, segmentsAfter, h]
  dsimp only
  rw [segmentsAfter_eq, List.drop_succ_cons]
  rfl

theorem segments_of_none {c : Char} (h : separator? (c :: s) = none) {piece : List Char}
    (hs : segments s = piece :: pieces) : segments (c :: s) = (c :: piece) :: pieces := by
  rw [segments] at hs
  rw [segments, segmentsAfter, h]
  dsimp only
  rw [hs]

/-- Induction on the length, since behind a separator the cut starts anew. -/
theorem cut_segments (s : List Char) : Cut s (segments s) := by
  induction hlen : s.length using Nat.strong_induction_on generalizing s with
  | _ len ih =>
    cases s with
    | nil =>
      refine .whole fun m hm hinfix => ?_
      have hpos := hm.length_pos
      rw [List.infix_nil.mp hinfix] at hpos
      exact absurd hpos (Nat.lt_irrefl 0)
    | cons c s =>
      rw [List.length_cons] at hlen
      cases hc : separator? (c :: s) with
      | some n =>
        obtain ⟨m, rest, rfl, hfirst⟩ := firstSeparator_front hc
        have hrest : (c :: s).drop m.length = rest := by
          rw [hfirst.split]
          exact List.drop_left
        have hpos := hfirst.separator.length_pos
        rw [segments_of_separator? hc hpos, hrest]
        refine .cut hfirst (ih rest.length ?_ rest rfl)
        rw [← hrest, List.length_drop, List.length_cons]
        omega
      | none =>
        cases hs : segments s with
        | nil =>
          have hcut := ih s.length (by omega) s rfl
          rw [hs] at hcut
          cases hcut
        | cons piece pieces =>
          have hcut := ih s.length (by omega) s rfl
          rw [segments_of_none hc hs]
          rw [hs] at hcut
          cases hcut with
          | whole hnone =>
            refine .whole fun m hm hinfix => ?_
            obtain ⟨after, hprefix⟩ | hinfix := List.infix_cons_iff.mp hinfix
            · exact separator?_eq_none hc hm after hprefix.symm
            · exact hnone m hm hinfix
          | cut hfirst more => exact .cut (hfirst.cons hc) more

theorem cut_iff : Cut s pieces ↔ segments s = pieces :=
  ⟨fun h => (cut_segments s).unique h, fun h => h ▸ cut_segments s⟩

theorem cut_dash (hpre : ∀ c ∈ pre, isBlank c = false)
    (hrest : ∀ c, rest.head? = some c → isBlank c = false) (more : Cut rest pieces) :
    Cut (pre ++ ([' ', '-', ' '] ++ rest)) (pre :: pieces) := by
  have hspace : ∀ c ∈ [' '], isBlank c = true := List.forall_mem_singleton.mpr (by decide)
  have hdash : IsSeparator [' ', '-', ' '] := ⟨[' '], [' '], rfl, by simp, by simp, hspace, hspace⟩
  exact .cut (firstSeparator_of_isSeparator hdash hpre hrest) more

theorem not_infix_of_segments (h : segments s = [s]) (hm : IsSeparator m) : ¬ m <:+: s := by
  have hcut := cut_iff.mpr h
  cases hcut with
  | whole hnone => exact hnone m hm
  | cut _ more => cases more

/-! ## Runs of characters -/

/-- The first run of characters of a class: as long as it can be, with none of them in front. -/
structure FirstRun (ok : Char → Bool) (run s : List Char) : Prop where
  split : ∃ before after, s = before ++ (run ++ after) ∧ (∀ c ∈ before, ok c = false) ∧
    ∀ c, after.head? = some c → ok c = false
  ne_nil : run ≠ []
  all : ∀ c ∈ run, ok c = true

variable {ok : Char → Bool} {run : List Char}

theorem firstRun_eq_nil_iff : firstRun ok s = [] ↔ ∀ c ∈ s, ok c = false := by
  induction s with
  | nil => simp [firstRun]
  | cons c s ih =>
    rw [firstRun] at ih
    rw [firstRun, List.forall_mem_cons, ← ih]
    cases hc : ok c with
    | true => simp [hc]
    | false => simp [hc]

theorem firstRun_iff : FirstRun ok run s ↔ run ≠ [] ∧ firstRun ok s = run := by
  constructor
  · rintro ⟨⟨before, after, rfl, hbefore, hafter⟩, hne, hall⟩
    refine ⟨hne, ?_⟩
    obtain ⟨c, run, rfl⟩ := List.exists_cons_of_ne_nil hne
    have hstart : (c :: run ++ after).dropWhile (fun c => !ok c) = c :: run ++ after :=
      List.dropWhile_cons_of_neg (by simp [hall c List.mem_cons_self])
    have hend : after.takeWhile ok = [] := by
      cases after with
      | nil => rfl
      | cons d after => exact List.takeWhile_cons_of_neg (by simp [hafter d rfl])
    rw [firstRun, List.dropWhile_append_of_pos (fun c hc => by simp [hbefore c hc]), hstart,
      List.takeWhile_append_of_pos hall, hend, List.append_nil]
  · rintro ⟨hne, rfl⟩
    refine ⟨⟨s.takeWhile fun c => !ok c, (s.dropWhile fun c => !ok c).dropWhile ok, ?_,
      fun c hc => ?_, fun c hc => ?_⟩, hne, fun c hc => List.mem_takeWhile_imp hc⟩
    · rw [firstRun, List.takeWhile_append_dropWhile, List.takeWhile_append_dropWhile]
    · simpa using List.mem_takeWhile_imp hc
    · have hstop := List.head?_dropWhile_not ok (s.dropWhile fun c => !ok c)
      rw [hc] at hstop
      exact hstop

theorem exists_firstRun_iff : (∃ run, FirstRun ok run s) ↔ ∃ c ∈ s, ok c = true := by
  constructor
  · rintro ⟨run, ⟨before, after, rfl, -, -⟩, hne, hall⟩
    obtain ⟨c, run, rfl⟩ := List.exists_cons_of_ne_nil hne
    exact ⟨c, by simp, hall c List.mem_cons_self⟩
  · rintro ⟨c, hc, hok⟩
    refine ⟨firstRun ok s, firstRun_iff.mpr ⟨fun hnil => ?_, rfl⟩⟩
    rw [firstRun_eq_nil_iff.mp hnil c hc] at hok
    cases hok

/-- A text that is a run is its own first run. -/
theorem firstRun_self (hne : run ≠ []) (hall : ∀ c ∈ run, ok c = true) : FirstRun ok run run :=
  ⟨⟨[], [], by simp, by simp, by simp⟩, hne, hall⟩

/-! ## Headers -/

/-- What the segments of a text say about a header: `before` and `after` stand around the first
point of the first segment, `second` is the next segment and `more` are those behind it. -/
structure Describes (before after second : List Char) (more : List (List Char)) (h : Header) :
    Prop where
  noPoint : '.' ∉ before
  named : after ≠ []
  code : FirstRun isDigit h.code.toList before
  name : h.name.toList = trim after
  type : FirstRun isWord h.type.toList second
  description : h.description.toList = joinWith [' ', '-', ' '] more

variable {before after second : List Char} {more : List (List Char)} {h : Header}

/-- The segments decide: with these a header is what they describe. -/
theorem ofChars_of_segments (hs : segments s = (before ++ '.' :: after) :: second :: more)
    (hpoint : '.' ∉ before) (hnamed : after ≠ []) (hcode : firstRun isDigit before ≠ [])
    (htype : firstRun isWord second ≠ []) :
    ofChars s = .ok
      { code := String.ofList (firstRun isDigit before), name := String.ofList (trim after)
        type := String.ofList (firstRun isWord second)
        description := String.ofList (joinWith [' ', '-', ' '] more) } := by
  obtain ⟨c, name, rfl⟩ := List.exists_cons_of_ne_nil hnamed
  simp only [ofChars, hs, List.headD_cons, cutAt_append hpoint]
  simp [hcode, htype]

/-- Only such segments make a header. -/
theorem segments_of_ofChars (hs : ofChars s = .ok h) : ∃ before after second more,
    segments s = (before ++ '.' :: after) :: second :: more ∧ '.' ∉ before ∧ after ≠ [] ∧
      firstRun isDigit before ≠ [] ∧ firstRun isWord second ≠ [] := by
  unfold ofChars at hs
  dsimp only at hs
  split at hs
  · cases hs
  · cases hs
  · next before after hnil hcut =>
    obtain ⟨hfirst, hpoint⟩ := cutAt_some hcut
    split at hs
    · cases hs
    · next hcode =>
      split at hs
      · cases hs
      · next htype =>
        rw [List.isEmpty_iff] at hcode htype
        match hpieces : segments s with
        | [] => simp [hpieces] at hfirst
        | [first] => simp [hpieces, firstRun] at htype
        | first :: second :: more =>
          simp only [hpieces, List.headD_cons] at hfirst
          rw [hpieces] at htype
          exact ⟨before, after, second, more, by rw [hfirst], hpoint, hnil, hcode, htype⟩

theorem ofChars_eq_ok_iff : ofChars s = .ok h ↔
    ∃ before after second more, Cut s ((before ++ '.' :: after) :: second :: more) ∧
      Describes before after second more h := by
  constructor
  · intro hs
    obtain ⟨before, after, second, more, hpieces, hpoint, hnamed, hcode, htype⟩ :=
      segments_of_ofChars hs
    rw [ofChars_of_segments hpieces hpoint hnamed hcode htype] at hs
    cases hs
    refine ⟨before, after, second, more, cut_iff.mpr hpieces, hpoint, hnamed, ?_, ?_, ?_, ?_⟩
    · exact firstRun_iff.mpr ⟨by simpa using hcode, by simp⟩
    · simp
    · exact firstRun_iff.mpr ⟨by simpa using htype, by simp⟩
    · simp
  · rintro ⟨before, after, second, more, hcut, hd⟩
    obtain ⟨hcodeNe, hcode⟩ := firstRun_iff.mp hd.code
    obtain ⟨htypeNe, htype⟩ := firstRun_iff.mp hd.type
    rw [ofChars_of_segments (cut_iff.mp hcut) hd.noPoint hd.named (by rwa [hcode])
      (by rwa [htype]), hcode, htype, ← hd.name, ← hd.description]
    simp

theorem takeWhile_point (hpoint : '.' ∉ before) :
    (before ++ '.' :: after).takeWhile (· ≠ '.') = before := by
  rw [← fst_cutAt, cutAt_append hpoint]

/-- With something behind a point there is something behind the first point. -/
theorem exists_first_point (before : List Char) (hafter : after ≠ []) :
    ∃ before' after', before ++ '.' :: after = before' ++ '.' :: after' ∧ '.' ∉ before' ∧
      after' ≠ [] := by
  by_cases h : '.' ∈ before
  · obtain ⟨front, back, rfl, hfront⟩ := List.eq_append_cons_of_mem h
    exact ⟨front, back ++ '.' :: after, by simp, hfront, by simp⟩
  · exact ⟨before, after, rfl, h, hafter⟩

theorem parse_eq_ok_iff {text : Option String} :
    parse text = .ok h ↔ ofChars (text.getD "").toList = .ok h := by
  unfold parse
  cases ofChars (text.getD "").toList with
  | ok h' => simp
  | error lack => simp

/-- The first of two segments does not end with a blank. -/
theorem Cut.last {first : List Char} (hcut : Cut s (first :: second :: more)) {c : Char}
    (hc : first.getLast? = some c) : isBlank c = false := by
  cases hcut with
  | cut hfirst => exact hfirst.last hc

/-- A name that is not empty has a character that is not trimmed away, its last one. -/
theorem trim_ne_nil_of_cut (hcut : Cut s ((before ++ '.' :: after) :: second :: more))
    (hnamed : after ≠ []) : trim after ≠ [] := by
  have hlast := List.getLast?_eq_getLast_of_ne_nil hnamed
  have hblank : isBlank (after.getLast hnamed) = false := by
    refine hcut.last ?_
    rw [List.getLast?_append_of_ne_nil _ (List.cons_ne_nil _ _), List.getLast?_cons, hlast]
    rfl
  exact List.ne_nil_of_mem ((mem_trim_iff hblank).mpr (List.getLast_mem hnamed))

/-- A header that is written out is described by its text. -/
theorem ofChars_written {code name type description : String}
    (hcodeNe : code ≠ "") (hcode : ∀ c ∈ code.toList, isDigit c = true)
    (hnameNe : name ≠ "") (hname : ∀ c ∈ name.toList, isBlank c = false)
    (htypeNe : type ≠ "") (htype : ∀ c ∈ type.toList, isWord c = true)
    (hdescription : ∀ c, description.toList.head? = some c → isBlank c = false)
    (hnone : ∀ m, IsSeparator m → ¬ m <:+: description.toList) :
    ofChars (code ++ "." ++ name ++ " - " ++ type ++ " - " ++ description).toList =
      .ok ⟨code, name, type, description⟩ := by
  have hfirst : ∀ c ∈ code.toList ++ '.' :: name.toList, isBlank c = false := by
    intro c hc
    obtain hc | hc := List.mem_append.mp hc
    · exact isBlank_of_isDigit (hcode c hc)
    · obtain rfl | hc := List.mem_cons.mp hc
      · decide
      · exact hname c hc
  have htypeBlank : ∀ c ∈ type.toList, isBlank c = false := fun c hc =>
    isBlank_of_isWord (htype c hc)
  have htypeHead : ∀ c, (type.toList ++ ([' ', '-', ' '] ++ description.toList)).head? = some c →
      isBlank c = false := by
    intro c hc
    rw [List.head?_append_of_ne_nil _ (by simpa using htypeNe)] at hc
    exact htypeBlank c (List.mem_of_head? hc)
  have hcut := cut_dash hfirst htypeHead (cut_dash htypeBlank hdescription (.whole hnone))
  have htext : (code ++ "." ++ name ++ " - " ++ type ++ " - " ++ description).toList =
      code.toList ++ '.' :: name.toList ++ ([' ', '-', ' '] ++
        (type.toList ++ ([' ', '-', ' '] ++ description.toList))) := by
    simp
  rw [htext]
  refine ofChars_eq_ok_iff.mpr ⟨_, _, _, _, hcut, ?_, ?_, ?_, ?_, ?_, ?_⟩
  · intro hpoint
    have hdigit := hcode '.' hpoint
    rw [show isDigit '.' = false by decide] at hdigit
    cases hdigit
  · simpa using hnameNe
  · exact firstRun_self (by simpa using hcodeNe) hcode
  · exact (trim_eq_self ⟨fun c hc => hname c (List.mem_of_head? hc),
      fun c hc => hname c (List.mem_of_getLast? hc)⟩).symm
  · exact firstRun_self (by simpa using htypeNe) htype
  · rfl

/-- **Which texts describe a header, and which one.** A text describes a header if and only if it
has two segments at least, the first of them has something behind a point and a digit in front of
its first point, and the second has a word character. Code and type of a header are the first runs
of digits and of word characters there; its name is what stands behind the point, trimmed, and is
never empty. And a header that is written out with its code, a name without blanks, its type, and a
description that starts with no blank and in which no separator stands is read back as it is. -/
theorem parse_of_segments :
    (∀ text : Option String, (∃ h, parse text = .ok h) ↔
      ∃ first second more, Cut (text.getD "").toList (first :: second :: more) ∧
        (∃ before after, first = before ++ '.' :: after ∧ after ≠ []) ∧
        (∃ c ∈ first.takeWhile (· ≠ '.'), isDigit c = true) ∧ ∃ c ∈ second, isWord c = true) ∧
    (∀ text h, parse text = .ok h →
      (∃ before after second more,
        Cut (text.getD "").toList ((before ++ '.' :: after) :: second :: more) ∧
          Describes before after second more h) ∧
      (h.code ≠ "" ∧ ∀ c ∈ h.code.toList, isDigit c = true) ∧
      (h.type ≠ "" ∧ ∀ c ∈ h.type.toList, isWord c = true) ∧
      h.name ≠ "" ∧ Trimmed h.name.toList) ∧
    ∀ code name type description : String,
      code ≠ "" → (∀ c ∈ code.toList, isDigit c = true) →
      name ≠ "" → (∀ c ∈ name.toList, isBlank c = false) →
      type ≠ "" → (∀ c ∈ type.toList, isWord c = true) →
      (∀ c, description.toList.head? = some c → isBlank c = false) →
      (∀ m, IsSeparator m → ¬ m <:+: description.toList) →
      parse (some (code ++ "." ++ name ++ " - " ++ type ++ " - " ++ description)) =
        .ok ⟨code, name, type, description⟩ := by
  refine ⟨fun text => ?_, fun text h hparse => ?_, ?_⟩
  · constructor
    · rintro ⟨h, hparse⟩
      obtain ⟨before, after, second, more, hcut, hd⟩ :=
        ofChars_eq_ok_iff.mp (parse_eq_ok_iff.mp hparse)
      refine ⟨_, second, more, hcut, ⟨before, after, rfl, hd.named⟩, ?_,
        exists_firstRun_iff.mp ⟨_, hd.type⟩⟩
      rw [takeWhile_point hd.noPoint]
      exact exists_firstRun_iff.mp ⟨_, hd.code⟩
    · rintro ⟨first, second, more, hcut, ⟨before, after, rfl, hafter⟩, hcode, htype⟩
      obtain ⟨before, after, hpoint, hfirst, hnamed⟩ := exists_first_point before hafter
      rw [hpoint] at hcut hcode
      rw [takeWhile_point hfirst] at hcode
      obtain ⟨code, hcode⟩ := exists_firstRun_iff.mpr hcode
      obtain ⟨type, htype⟩ := exists_firstRun_iff.mpr htype
      refine ⟨⟨String.ofList code, String.ofList (trim after), String.ofList type,
        String.ofList (joinWith [' ', '-', ' '] more)⟩, parse_eq_ok_iff.mpr ?_⟩
      refine ofChars_eq_ok_iff.mpr
        ⟨before, after, second, more, hcut, hfirst, hnamed, ?_, ?_, ?_, ?_⟩
      · simpa using hcode
      · simp
      · simpa using htype
      · simp
  · obtain ⟨before, after, second, more, hcut, hd⟩ :=
      ofChars_eq_ok_iff.mp (parse_eq_ok_iff.mp hparse)
    have hname : h.name.toList ≠ [] := by
      rw [hd.name]
      exact trim_ne_nil_of_cut hcut hd.named
    have htrimmed : Trimmed h.name.toList := by
      rw [hd.name]
      exact trimmed_trim after
    exact ⟨⟨before, after, second, more, hcut, hd⟩, ⟨by simpa using hd.code.ne_nil, hd.code.all⟩,
      ⟨by simpa using hd.type.ne_nil, hd.type.all⟩, by simpa using hname, htrimmed⟩
  · intro code name type description hcodeNe hcode hnameNe hname htypeNe htype hdescription hnone
    exact parse_eq_ok_iff.mpr (ofChars_written hcodeNe hcode hnameNe hname htypeNe htype
      hdescription hnone)

theorem parse_of_segments_rateLimit :
    (∀ m, IsSeparator m → ¬ m <:+: "-1 for none -".toList) ∧
      parse (some "200.X-Rate.Limit - integer - -1 for none -") =
        .ok ⟨"200", "X-Rate.Limit", "integer", "-1 for none -"⟩ := by
  have hcode : ∀ c ∈ "200".toList, isDigit c = true := List.all_eq_true.mp (by decide)
  have hname : ∀ c ∈ "X-Rate.Limit".toList, isBlank c = false := by
    have hall := List.all_eq_true.mp
      (show "X-Rate.Limit".toList.all (fun c => !isBlank c) = true by decide)
    exact fun c hc => by simpa using hall c hc
  have htype : ∀ c ∈ "integer".toList, isWord c = true := List.all_eq_true.mp (by decide)
  have hhead : ∀ c, "-1 for none -".toList.head? = some c → isBlank c = false := by
    intro c hc
    obtain rfl : '-' = c := by simpa using hc
    exact isBlank_dash
  have hnone : ∀ m, IsSeparator m → ¬ m <:+: "-1 for none -".toList := fun m hm =>
    not_infix_of_segments (by decide) hm
  exact ⟨hnone, parse_of_segments.2.2 "200" "X-Rate.Limit" "integer" "-1 for none -" (by decide)
    hcode (by decide) hname (by decide) htype hhead hnone⟩

end AnnotatedApi.Header
