/-
  Places in a text, relative to one another. `Cursor.after` is the place behind a stretch of text:
  its rest is what follows, its index is further by the length of the stretch, and without a line
  break the line stays and the column is further by as much. The readers' own moves (one character,
  a run of a class, a line break) all come to a place behind a stretch.
-/
import AnnotatedApi.Yaml.Cursor

namespace AnnotatedApi.Yaml

/-- A number of blanks. -/
def spaces (n : Nat) : List Char := List.replicate n ' '

/-- Characters that take a column of their own. -/
def isInline (c : Char) : Bool := !isBreak c && c ≠ '\uFEFF'

/-- The character that a line break is read as. -/
def readBreak (c : Char) : Char := if c = '\u2028' || c = '\u2029' then c else '\n'

@[simp] theorem spaces_zero : spaces 0 = [] := rfl

theorem spaces_succ (n : Nat) : spaces (n + 1) = ' ' :: spaces n := rfl

@[simp] theorem length_spaces (n : Nat) : (spaces n).length = n := List.length_replicate

theorem eq_space_of_mem_spaces {n : Nat} {c : Char} (h : c ∈ spaces n) : c = ' ' :=
  List.eq_of_mem_replicate h

theorem isInline_of_mem_spaces {n : Nat} {c : Char} (h : c ∈ spaces n) : isInline c = true := by
  rw [eq_space_of_mem_spaces h]
  decide

/-- Characters of a class without line breaks and the byte order mark take a column. -/
theorem isInline_of_class {P : Char → Bool} {c : Char} (hc : P c = true)
    (hP : ['\n', '\r', '\x85', '\u2028', '\u2029', '\uFEFF'].any P = false) :
    isInline c = true := by
  have hne : ∀ d ∈ ['\n', '\r', '\x85', '\u2028', '\u2029', '\uFEFF'], c ≠ d := fun d hd e =>
    List.any_eq_false.mp hP d hd (e ▸ hc)
  simp only [List.mem_cons, List.not_mem_nil, or_false, forall_eq_or_imp, forall_eq] at hne
  simp [isInline, isBreak, hne]

theorem isBreak_of_isInline {c : Char} (h : isInline c = true) : isBreak c = false := by
  simp only [isInline, Bool.and_eq_true, Bool.not_eq_true'] at h
  exact h.1

namespace Cursor

variable {p : Cursor} {c : Char} {s t r : List Char}

/-- The index and the rest make up the text. -/
def Fits (p : Cursor) : Prop := p.index + p.rest.length = p.length

theorem fits_start (s : List Char) : (start s).Fits := by simp [Fits, start]

theorem Fits.left_eq (h : p.Fits) : p.left = p.rest.length := by
  unfold Fits at h
  unfold left
  omega

theorem rest_next (h : p.rest = c :: r) : p.next.rest = r := by
  unfold next
  rw [h]
  dsimp only
  split <;> rfl

theorem index_next (h : p.rest = c :: r) : p.next.index = p.index + 1 := by
  unfold next
  rw [h]
  dsimp only
  split <;> rfl

theorem length_next (p : Cursor) : p.next.length = p.length := by
  unfold next
  split
  · rfl
  · split <;> rfl

theorem next_of_inline (h : p.rest = c :: r) (hc : isInline c = true) :
    p.next = ⟨r, p.index + 1, p.line, p.column + 1, p.length⟩ := by
  simp only [isInline, Bool.and_eq_true, Bool.not_eq_true', decide_eq_true_eq] at hc
  simp [next, h, hc.1, hc.2]

/-- A line break other than the first half of a pair starts a line. -/
theorem next_of_break (h : p.rest = c :: r) (hc : isBreak c = true) (hne : c ≠ '\r') :
    p.next = ⟨r, p.index + 1, p.line + 1, 0, p.length⟩ := by
  simp [next, h, hc, hne]

theorem Fits.next (hp : p.Fits) : p.next.Fits := by
  cases h : p.rest with
  | nil => simpa [Cursor.next, h] using hp
  | cons c r =>
    simp only [Fits, rest_next h, index_next h, length_next]
    simp only [Fits, h, List.length_cons] at hp
    omega

/-- The place behind the text `s`, which is the start of the rest. -/
def after (p : Cursor) : List Char → Cursor
  | [] => p
  | _ :: s => p.next.after s

@[simp] theorem after_nil (p : Cursor) : p.after [] = p := rfl

theorem after_cons (p : Cursor) (c : Char) (s : List Char) :
    p.after (c :: s) = p.next.after s := rfl

theorem after_append (p : Cursor) (s t : List Char) : p.after (s ++ t) = (p.after s).after t := by
  induction s generalizing p with
  | nil => rfl
  | cons c s ih => exact ih p.next

theorem rest_after (h : p.rest = s ++ r) : (p.after s).rest = r := by
  induction s generalizing p with
  | nil => exact h
  | cons c s ih => exact ih (rest_next h)

theorem index_after (h : p.rest = s ++ r) : (p.after s).index = p.index + s.length := by
  induction s generalizing p with
  | nil => rfl
  | cons c s ih =>
    rw [after_cons, ih (rest_next h), index_next h, List.length_cons]
    omega

theorem Fits.after (hp : p.Fits) (s : List Char) : (p.after s).Fits := by
  induction s generalizing p with
  | nil => exact hp
  | cons c s ih => exact ih hp.next

/-- Text without line breaks stays in its line. -/
theorem line_after (h : p.rest = s ++ r) (hs : ∀ c ∈ s, isInline c = true) :
    (p.after s).line = p.line ∧ (p.after s).column = p.column + s.length := by
  induction s generalizing p with
  | nil => exact ⟨rfl, rfl⟩
  | cons c s ih =>
    have hnext := next_of_inline h (hs c List.mem_cons_self)
    have hline : p.next.line = p.line := by rw [hnext]
    have hcolumn : p.next.column = p.column + 1 := by rw [hnext]
    have hrest := ih (rest_next h) fun d hd => hs d (List.mem_cons_of_mem _ hd)
    rw [after_cons, List.length_cons]
    omega

/-- Behind a line break and blanks the column is the number of blanks. -/
theorem column_after_break {n : Nat} (h : p.rest = c :: (spaces n ++ r)) (hc : isBreak c = true)
    (hne : c ≠ '\r') : (p.after (c :: spaces n)).column = n := by
  have hcolumn : p.next.column = 0 := by rw [next_of_break h hc hne]
  rw [after_cons, (line_after (rest_next h) fun d => isInline_of_mem_spaces).2, hcolumn,
    length_spaces]
  omega

/-- No line is before the current one. -/
theorem line_le_after (p : Cursor) (s : List Char) : p.line ≤ (p.after s).line := by
  induction s generalizing p with
  | nil => exact Nat.le_refl _
  | cons c s ih =>
    refine Nat.le_trans ?_ (ih p.next)
    unfold next
    split
    · exact Nat.le_refl _
    · split
      · exact Nat.le_succ _
      · exact Nat.le_refl _

/-! ## The moves of the readers -/

theorem skip_eq_after (h : p.rest = s ++ r) (hs : ∀ c ∈ s, isInline c = true) :
    p.skip s = p.after s := by
  induction s generalizing p with
  | nil =>
    rw [List.nil_append] at h
    simp [skip]
  | cons c s ih =>
    have hnext := next_of_inline h (hs c List.mem_cons_self)
    rw [after_cons, ← ih (rest_next h) fun d hd => hs d (List.mem_cons_of_mem _ hd), hnext]
    have hc := hs c List.mem_cons_self
    simp only [isInline, Bool.and_eq_true, decide_eq_true_eq] at hc
    simp only [skip, h, List.length_cons, List.cons_append, List.drop_succ_cons,
      List.filter_cons, hc.2, ne_eq, not_false_eq_true, decide_true, if_true]
    congr 1 <;> omega

/-- A run of a class goes up to the first character that is not in it. -/
theorem run_eq {ok : Char → Bool} (h : p.rest = s ++ r) (hs : ∀ c ∈ s, ok c = true)
    (hinline : ∀ c ∈ s, isInline c = true) (hr : ∀ c ∈ r.head?, ok c = false) :
    p.run ok = (s, p.after s) := by
  have htake : p.rest.takeWhile ok = s := by
    rw [h, List.takeWhile_append_of_pos hs]
    cases r with
    | nil => simp
    | cons c r => simp [hr c rfl]
  simp only [run, htake, skip_eq_after h hinline]

theorem skipSpaces_eq {n : Nat} (h : p.rest = spaces n ++ r) (hr : ∀ c ∈ r.head?, c ≠ ' ') :
    p.skipSpaces = p.after (spaces n) := by
  unfold skipSpaces
  rw [run_eq h (fun c hc => by simp [eq_space_of_mem_spaces hc])
    (fun c => isInline_of_mem_spaces) (fun c hc => by simp [hr c hc])]

theorem skipBlanks_eq {n : Nat} (h : p.rest = spaces n ++ r)
    (hr : ∀ c ∈ r.head?, c ≠ ' ' ∧ c ≠ '\t') : p.skipBlanks = p.after (spaces n) := by
  unfold skipBlanks
  rw [run_eq h (fun c hc => by simp [eq_space_of_mem_spaces hc])
    (fun c => isInline_of_mem_spaces) (fun c hc => by simp [(hr c hc).1, (hr c hc).2])]

theorem lineBreak_of_break (h : p.rest = c :: r) (hc : isBreak c = true) (hne : c ≠ '\r') :
    p.lineBreak = some (readBreak c, p.next) := by
  unfold lineBreak
  rw [h]
  split
  · next h => exact absurd (List.cons.inj h).1 hne
  · next h =>
    obtain ⟨rfl, rfl⟩ := List.cons.inj h
    rw [readBreak, if_pos hc]
    split <;> rfl
  · next h => cases h

theorem lineBreak_of_none (h : ∀ c ∈ p.rest.head?, isBreak c = false) : p.lineBreak = none := by
  unfold lineBreak
  split
  · next hrest => rw [hrest] at h; exact absurd (h _ rfl) (by decide)
  · next c s _ hrest =>
    rw [hrest] at h
    have hc := h c rfl
    rw [if_neg, if_neg]
    · simp [hc]
    · intro hsep
      simp only [isBreak, Bool.or_eq_false_iff, decide_eq_false_iff_not] at hc
      simp_all
  · rfl

end Cursor

end AnnotatedApi.Yaml
