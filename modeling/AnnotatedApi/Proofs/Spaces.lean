/-
  The spaces of a visible text. Line breaks are read as spaces, and then each pair of adjacent
  spaces becomes one. What is done here in two passes is what three replacements come to that go
  from left to right and do not overlap (`Text.Replaced`): of a carriage return with a line feed, of
  the line feeds that are left, and of two spaces (`Settings.replaced_unwrapped`,
  `Settings.replaced_halved`).

  A text is given by its runs of spaces and the characters between them (`Text.SpaceRuns`), in one
  way only. Seen like this the last pass makes every run half as long, rounded up
  (`Text.SpaceRuns.halved_text`). A run that is not empty stays so, and an empty one stays empty:
  so the other characters stay, and those that stand side by side stand so afterwards. Two adjacent
  spaces are left where there were three.

  `collapsed_by_runs` is the statement.
-/
import AnnotatedApi.Annotation.Settings
import Mathlib.Data.List.Infix

namespace AnnotatedApi

namespace Text

/-! ## Replacements -/

/-- Every occurrence of `pat`, looked for from the left and behind the one before, becomes `new`. -/
inductive Replaced (pat new : List Char) : List Char → List Char → Prop where
  | nil : Replaced pat new [] []
  | found {s t : List Char} (h : Replaced pat new s t) : Replaced pat new (pat ++ s) (new ++ t)
  | skip {c : Char} {s t : List Char} (hc : ¬ pat <+: c :: s) (h : Replaced pat new s t) :
      Replaced pat new (c :: s) (c :: t)

/-- There is one way to replace what is not empty. -/
theorem Replaced.unique {pat new s t t' : List Char} (hpat : pat ≠ [])
    (h : Replaced pat new s t) (h' : Replaced pat new s t') : t = t' := by
  induction h generalizing t' with
  | nil =>
    generalize hs : ([] : List Char) = s at h'
    cases h' with
    | nil => rfl
    | found => exact absurd (List.append_eq_nil_iff.mp hs.symm).1 hpat
    | skip => cases hs
  | @found s t _ ih =>
    generalize hs : pat ++ s = s' at h'
    cases h' with
    | nil => exact absurd (List.append_eq_nil_iff.mp hs).1 hpat
    | found h' => rw [ih (List.append_cancel_left hs ▸ h')]
    | skip hc => exact absurd ⟨s, hs⟩ hc
  | @skip c s t hc _ ih =>
    generalize hs : c :: s = s' at h'
    cases h' with
    | nil => cases hs
    | found => exact absurd ⟨_, hs.symm⟩ hc
    | skip _ h' =>
      cases hs
      rw [ih h']

/-! ## Runs of spaces -/

/-- A character that is no space, and the number of spaces behind it. -/
abbrev Spaced := { c : Char // c ≠ ' ' } × Nat

/-- The spaces of a text: how many come first, and how many behind each other character. -/
structure SpaceRuns where
  first : Nat
  rest : List Spaced

namespace SpaceRuns

/-- The text with these runs. -/
def text (r : SpaceRuns) : List Char :=
  List.replicate r.first ' ' ++ r.rest.flatMap fun e => e.1.val :: List.replicate e.2 ' '

/-- The lengths of the runs, with 0 where two characters stand side by side. -/
def lengths (r : SpaceRuns) : List Nat := r.first :: r.rest.map Prod.snd

/-- Half as many spaces in each run, rounded up. -/
def halved (r : SpaceRuns) : SpaceRuns :=
  ⟨(r.first + 1) / 2, r.rest.map fun e => (e.1, (e.2 + 1) / 2)⟩

/-- One character more in front. -/
def cons (c : Char) (r : SpaceRuns) : SpaceRuns :=
  if h : c = ' ' then ⟨r.first + 1, r.rest⟩ else ⟨0, (⟨c, h⟩, r.first) :: r.rest⟩

/-- The runs of a text. -/
def ofText (s : List Char) : SpaceRuns := s.foldr cons ⟨0, []⟩

theorem text_nil (k : Nat) : text ⟨k, []⟩ = List.replicate k ' ' := by
  simp [text]

theorem text_cons (k j : Nat) (c : { c : Char // c ≠ ' ' }) (rest : List Spaced) :
    text ⟨k, (c, j) :: rest⟩ = List.replicate k ' ' ++ c.val :: text ⟨j, rest⟩ := by
  simp [text]

theorem text_zero_cons (j : Nat) (c : { c : Char // c ≠ ' ' }) (rest : List Spaced) :
    text ⟨0, (c, j) :: rest⟩ = c.val :: text ⟨j, rest⟩ := text_cons 0 j c rest

theorem text_succ (k : Nat) (rest : List Spaced) :
    text ⟨k + 1, rest⟩ = ' ' :: text ⟨k, rest⟩ := by
  simp [text, List.replicate_succ]

theorem text_ofText (s : List Char) : (ofText s).text = s := by
  induction s with
  | nil => rfl
  | cons c s ih =>
    show (cons c (ofText s)).text = c :: s
    unfold cons
    split
    · next h => rw [text_succ, ih, h]
    · rw [text_zero_cons, ih]

theorem ofText_text (k : Nat) (rest : List Spaced) :
    ofText (text ⟨k, rest⟩) = ⟨k, rest⟩ := by
  have hspace : ∀ s, ofText (' ' :: s) = ⟨(ofText s).first + 1, (ofText s).rest⟩ := fun _ => rfl
  induction rest generalizing k with
  | nil =>
    induction k with
    | zero => rfl
    | succ k ih => rw [text_succ, hspace, ih]
  | cons e rest ih =>
    obtain ⟨⟨c, hc⟩, j⟩ := e
    induction k with
    | zero =>
      rw [text_zero_cons]
      show cons c (ofText (text ⟨j, rest⟩)) = _
      rw [ih j, cons, dif_neg hc]
    | succ k ihk => rw [text_succ, hspace, ihk]

/-- A text has its runs in one way only. -/
theorem text_eq_iff {r : SpaceRuns} {s : List Char} : r.text = s ↔ r = ofText s := by
  constructor
  · rintro rfl
    exact (ofText_text r.first r.rest).symm
  · rintro rfl
    exact text_ofText s

/-- The characters that are no spaces. -/
theorem filter_text (k : Nat) (rest : List Spaced) :
    (text ⟨k, rest⟩).filter (· ≠ ' ') = rest.map fun e => e.1.val := by
  induction rest generalizing k with
  | nil => simp [text_nil]
  | cons e rest ih =>
    obtain ⟨c, j⟩ := e
    rw [text_cons, List.filter_append, List.filter_cons_of_pos (by simpa using c.2), ih]
    simp

end SpaceRuns

/-! ## Adjacent characters -/

/-- The character that has `i` others in front of it, spaces not counted, and the next one stand
side by side. -/
def Adjacent (s : List Char) (i : Nat) : Prop :=
  ∃ front c d back, s = front ++ c :: d :: back ∧ c ≠ ' ' ∧ d ≠ ' ' ∧
    (front.filter (· ≠ ' ')).length = i

theorem not_adjacent_nil (i : Nat) : ¬ Adjacent [] i := by
  rintro ⟨front, c, d, back, hs, -⟩
  cases front <;> cases hs

theorem adjacent_space (s : List Char) (i : Nat) : Adjacent (' ' :: s) i ↔ Adjacent s i := by
  constructor
  · rintro ⟨front, c, d, back, hs, hc, hd, hi⟩
    cases front with
    | nil =>
      cases hs
      exact absurd rfl hc
    | cons a front =>
      cases hs
      exact ⟨front, c, d, back, rfl, hc, hd, by simpa using hi⟩
  · rintro ⟨front, c, d, back, rfl, hc, hd, hi⟩
    exact ⟨' ' :: front, c, d, back, rfl, hc, hd, by simpa using hi⟩

theorem adjacent_zero {c : Char} (hc : c ≠ ' ') (s : List Char) :
    Adjacent (c :: s) 0 ↔ ∃ d ∈ s.head?, d ≠ ' ' := by
  constructor
  · rintro ⟨front, c', d, back, hs, -, hd, hi⟩
    cases front with
    | nil =>
      cases hs
      exact ⟨d, rfl, hd⟩
    | cons a front =>
      cases hs
      rw [List.filter_cons_of_pos (by simpa using hc)] at hi
      cases hi
  · rintro ⟨d, hhead, hd⟩
    cases s with
    | nil => cases hhead
    | cons d' back =>
      cases hhead
      exact ⟨[], c, d, back, rfl, hc, hd, rfl⟩

theorem adjacent_succ {c : Char} (hc : c ≠ ' ') (s : List Char) (i : Nat) :
    Adjacent (c :: s) (i + 1) ↔ Adjacent s i := by
  constructor
  · rintro ⟨front, c', d, back, hs, hc', hd, hi⟩
    cases front with
    | nil => cases hi
    | cons a front =>
      cases hs
      rw [List.filter_cons_of_pos (by simpa using hc), List.length_cons] at hi
      exact ⟨front, c', d, back, rfl, hc', hd, by omega⟩
  · rintro ⟨front, c', d, back, rfl, hc', hd, hi⟩
    refine ⟨c :: front, c', d, back, rfl, hc', hd, ?_⟩
    rw [List.filter_cons_of_pos (by simpa using hc), List.length_cons, hi]

namespace SpaceRuns

/-- Two characters stand side by side if the run between them is empty. -/
theorem adjacent_text (k : Nat) (rest : List Spaced) (i : Nat) :
    Adjacent (text ⟨k, rest⟩) i ↔
      i + 1 < rest.length ∧ (rest.map Prod.snd)[i]? = some 0 := by
  induction rest generalizing k i with
  | nil =>
    induction k with
    | zero => simpa [text_nil] using not_adjacent_nil i
    | succ k ih => rw [text_succ, adjacent_space, ih]
  | cons e rest ih =>
    obtain ⟨⟨c, hc⟩, j⟩ := e
    induction k with
    | succ k ihk => rw [text_succ, adjacent_space, ihk]
    | zero =>
      rw [text_zero_cons]
      cases i with
      | succ i =>
        rw [adjacent_succ hc, ih]
        simp
      | zero =>
        rw [adjacent_zero hc]
        cases j with
        | succ j => simp [text_succ]
        | zero =>
          cases rest with
          | nil => simp [text_nil]
          | cons e rest =>
            obtain ⟨⟨d, hd⟩, j⟩ := e
            simpa [text_cons] using hd

/-! ## Spaces in a row -/

theorem prefix_text (n k : Nat) (rest : List Spaced) :
    List.replicate n ' ' <+: text ⟨k, rest⟩ ↔ n ≤ k := by
  induction n generalizing k with
  | zero => simp
  | succ n ih =>
    cases k with
    | succ k =>
      rw [text_succ, List.replicate_succ, List.prefix_cons_inj, ih]
      omega
    | zero =>
      cases rest with
      | nil => simp [text_nil]
      | cons e rest =>
        obtain ⟨⟨c, hc⟩, j⟩ := e
        simp [text_cons, List.replicate_succ, Ne.symm hc]

/-- There are `n` spaces in a row if there is a run of this length or a longer one. -/
theorem infix_text (n k : Nat) (rest : List Spaced) :
    List.replicate n ' ' <:+: text ⟨k, rest⟩ ↔ ∃ m ∈ lengths ⟨k, rest⟩, n ≤ m := by
  induction rest generalizing k with
  | nil =>
    induction k with
    | zero => simp [text_nil, lengths]
    | succ k ih =>
      rw [text_succ, List.infix_cons_iff, ← text_succ, prefix_text, ih]
      simp only [lengths, List.map_nil, List.mem_singleton, exists_eq_left]
      omega
  | cons e rest ih =>
    obtain ⟨⟨c, hc⟩, j⟩ := e
    induction k with
    | zero =>
      rw [text_zero_cons, List.infix_cons_iff, ← text_zero_cons, prefix_text, ih]
      simp [lengths]
    | succ k ihk =>
      rw [text_succ, List.infix_cons_iff, ← text_succ, prefix_text, ihk]
      simp only [lengths, List.map_cons, List.exists_mem_cons_iff]
      rw [← or_assoc]
      refine or_congr_left ?_
      omega

/-! ## Runs half as long -/

theorem halved_spaces {s : List Char} (hs : ∀ c ∈ s.head?, c ≠ ' ') :
    (k : Nat) → Settings.halved (List.replicate k ' ' ++ s) =
      List.replicate ((k + 1) / 2) ' ' ++ Settings.halved s
  | 0 => rfl
  | 1 => by
    cases s with
    | nil => rfl
    | cons c s =>
      have hc : c ≠ ' ' := hs c rfl
      simp [Settings.halved, hc]
  | k + 2 => by
    have hhalf : (k + 2 + 1) / 2 = (k + 1) / 2 + 1 := by omega
    rw [hhalf, List.replicate_succ, List.replicate_succ, List.replicate_succ, List.cons_append,
      List.cons_append, List.cons_append, Settings.halved, halved_spaces hs k]

theorem halved_cons {c : Char} (hc : c ≠ ' ') (s : List Char) :
    Settings.halved (c :: s) = c :: Settings.halved s := by
  rw [Settings.halved]
  rintro s rfl
  exact absurd rfl hc

/-- To make one space of two makes every run of spaces half as long, rounded up. -/
theorem halved_text (k : Nat) (rest : List Spaced) :
    Settings.halved (text ⟨k, rest⟩) = (halved ⟨k, rest⟩).text := by
  induction rest generalizing k with
  | nil =>
    have hspaces := halved_spaces (s := []) (by simp) k
    simpa [text, halved, Settings.halved] using hspaces
  | cons e rest ih =>
    obtain ⟨⟨c, hc⟩, j⟩ := e
    have hhalved : halved ⟨k, (⟨c, hc⟩, j) :: rest⟩ =
        ⟨(k + 1) / 2, (⟨c, hc⟩, (j + 1) / 2) :: (halved ⟨j, rest⟩).rest⟩ := rfl
    rw [hhalved, text_cons, text_cons, halved_spaces (by simpa using hc), halved_cons hc, ih]
    rfl

theorem filter_halved (r : SpaceRuns) :
    r.halved.text.filter (· ≠ ' ') = r.text.filter (· ≠ ' ') := by
  rw [halved, filter_text, List.map_map]
  exact (filter_text r.first r.rest).symm

theorem adjacent_halved (r : SpaceRuns) (i : Nat) :
    Adjacent r.halved.text i ↔ Adjacent r.text i := by
  have hempty : ∀ e : Option Nat, e.map (fun k => (k + 1) / 2) = some 0 ↔ e = some 0 := by
    rintro (_ | k)
    · simp
    · simp only [Option.map_some, Option.some.injEq]
      omega
  have hlengths : (r.rest.map fun e => (e.1, (e.2 + 1) / 2)).map Prod.snd =
      (r.rest.map Prod.snd).map fun k => (k + 1) / 2 := by
    simp
  rw [halved, adjacent_text, hlengths, List.getElem?_map, hempty, List.length_map]
  exact (adjacent_text r.first r.rest i).symm

/-- A run leaves `n + 1` spaces if it had `2 * n + 1`. -/
theorem infix_halved (r : SpaceRuns) (n : Nat) :
    List.replicate (n + 1) ' ' <:+: r.halved.text ↔
      List.replicate (2 * n + 1) ' ' <:+: r.text := by
  have hlengths : r.halved.lengths = r.lengths.map fun k => (k + 1) / 2 := by
    simp [lengths, halved]
  have hhalf : ∀ k, n + 1 ≤ (k + 1) / 2 ↔ 2 * n + 1 ≤ k := by
    intro k
    omega
  refine (infix_text (n + 1) r.halved.first r.halved.rest).trans ?_
  refine Iff.trans ?_ (infix_text (2 * n + 1) r.first r.rest).symm
  show (∃ m ∈ r.halved.lengths, n + 1 ≤ m) ↔ ∃ k ∈ r.lengths, 2 * n + 1 ≤ k
  rw [hlengths]
  simp only [List.mem_map, exists_exists_and_eq_and, hhalf]

end SpaceRuns

end Text

/-! ## Line breaks and pairs of spaces -/

namespace Settings

open Text

/-- A text without line feeds, in which each of them has become a space, with the carriage return
before it if there was one. -/
theorem replaced_unwrapped (s : List Char) :
    ∃ t, Replaced ['\r', '\n'] [' '] s t ∧ Replaced ['\n'] [' '] t (unwrapped s) := by
  fun_induction unwrapped s with
  | case1 => exact ⟨[], .nil, .nil⟩
  | case2 s ih =>
    obtain ⟨t, hpairs, hfeeds⟩ := ih
    exact ⟨' ' :: t, .found hpairs, .skip (by simp) hfeeds⟩
  | case3 c s hpair ih =>
    obtain ⟨t, hpairs, hfeeds⟩ := ih
    have hskip : ¬ ['\r', '\n'] <+: c :: s := by
      rintro ⟨back, hback⟩
      cases hback
      exact hpair back rfl rfl
    refine ⟨c :: t, .skip hskip hpairs, ?_⟩
    by_cases hc : c = '\n'
    · subst hc
      exact .found hfeeds
    · rw [if_neg hc]
      exact .skip (by simpa [eq_comm] using hc) hfeeds

theorem replaced_halved (s : List Char) : Replaced [' ', ' '] [' '] s (halved s) := by
  fun_induction halved s with
  | case1 => exact .nil
  | case2 s ih => exact .found ih
  | case3 c s hpair ih =>
    refine .skip ?_ ih
    rintro ⟨back, hback⟩
    cases hback
    exact hpair back rfl rfl

theorem lineFeed_notMem_unwrapped (s : List Char) : '\n' ∉ unwrapped s := by
  fun_induction unwrapped s with
  | case1 => simp
  | case2 s ih => simp [ih]
  | case3 c s _ ih =>
    by_cases hc : c = '\n'
    · simp [hc, ih]
    · simp [hc, ih, Ne.symm hc]

end Settings

open Text in
/-- **The spaces of a visible text.** Three replacements in succession, of a carriage return with a
line feed, of a line feed and of two spaces, collapse a text. What the first two of them read it as
has its runs of spaces in one way only, and the last makes each run half as long, rounded up. So the
other characters stay in their order, no line feed is left, two of them stand side by side if they
did so in the text as it was read, and two spaces in a row are left where three were read. -/
theorem collapsed_by_runs (s : List Char) :
    (∀ u, (∃ t, Replaced ['\r', '\n'] [' '] s t ∧ Replaced ['\n'] [' '] t u) ↔
      u = Settings.unwrapped s) ∧
    (∀ t, Replaced [' ', ' '] [' '] (Settings.unwrapped s) t ↔ t = Settings.collapsed s) ∧
    (∃ r : SpaceRuns, (∀ r' : SpaceRuns, r'.text = Settings.unwrapped s ↔ r' = r) ∧
      Settings.collapsed s = r.halved.text) ∧
    (Settings.collapsed s).filter (· ≠ ' ') = (Settings.unwrapped s).filter (· ≠ ' ') ∧
    '\n' ∉ Settings.collapsed s ∧
    (∀ i, Adjacent (Settings.collapsed s) i ↔ Adjacent (Settings.unwrapped s) i) ∧
    (¬ [' ', ' '] <:+: Settings.collapsed s ↔ ¬ [' ', ' ', ' '] <:+: Settings.unwrapped s) := by
  let r := SpaceRuns.ofText (Settings.unwrapped s)
  have hread : r.text = Settings.unwrapped s := SpaceRuns.text_ofText _
  have hcollapsed : Settings.collapsed s = r.halved.text := by
    rw [Settings.collapsed, ← hread]
    exact SpaceRuns.halved_text r.first r.rest
  have hfilter : (Settings.collapsed s).filter (· ≠ ' ') =
      (Settings.unwrapped s).filter (· ≠ ' ') := by
    rw [hcollapsed, SpaceRuns.filter_halved, hread]
  refine ⟨fun u => ⟨?_, ?_⟩, fun t => ⟨?_, ?_⟩,
    ⟨r, fun r' => SpaceRuns.text_eq_iff, hcollapsed⟩, hfilter, fun hfeed => ?_, fun i => ?_, ?_⟩
  · rintro ⟨t, hpairs, hfeeds⟩
    obtain ⟨t', hpairs', hfeeds'⟩ := Settings.replaced_unwrapped s
    obtain rfl := hpairs.unique (by simp) hpairs'
    exact hfeeds.unique (by simp) hfeeds'
  · rintro rfl
    exact Settings.replaced_unwrapped s
  · intro ht
    exact ht.unique (by simp) (Settings.replaced_halved _)
  · rintro rfl
    exact Settings.replaced_halved _
  · have hmem : '\n' ∈ (Settings.unwrapped s).filter (· ≠ ' ') := by
      rw [← hfilter]
      exact List.mem_filter.mpr ⟨hfeed, by decide⟩
    exact Settings.lineFeed_notMem_unwrapped s (List.mem_filter.mp hmem).1
  · rw [hcollapsed, SpaceRuns.adjacent_halved, hread]
  · have hinfix := SpaceRuns.infix_halved r 1
    rw [← hcollapsed, hread] at hinfix
    exact not_congr hinfix

/-- A line break between two spaces counts as a third one, and a lone carriage return as none. -/
example : Settings.collapsed "a \r\n b\rc\nd".toList = "a  b\rc d".toList := by decide

end AnnotatedApi
