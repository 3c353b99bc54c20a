/-
  Texts cut at a character: what stands in front of the first one and behind it (`cutAt`), and the
  pieces between all of them (`splitAt`), for a text that is given with the character in it and for
  one that does not have it.
-/
import AnnotatedApi.Text.Cut

namespace AnnotatedApi.Text

variable {sep : Char} {s t : List Char}

theorem cutAt_append (h : sep ∉ s) : cutAt sep (s ++ sep :: t) = (s, some t) := by
  induction s with
  | nil => simp [cutAt]
  | cons c s ih =>
    rw [List.mem_cons, not_or] at h
    rw [List.cons_append, cutAt, if_neg (Ne.symm h.1), ih h.2]

theorem cutAt_of_notMem (h : sep ∉ s) : cutAt sep s = (s, none) := by
  induction s with
  | nil => rfl
  | cons c s ih =>
    rw [List.mem_cons, not_or] at h
    rw [cutAt, if_neg (Ne.symm h.1), ih h.2]

theorem fst_cutAt (sep : Char) (s : List Char) : (cutAt sep s).1 = s.takeWhile (· ≠ sep) := by
  induction s with
  | nil => rfl
  | cons c s ih =>
    by_cases h : c = sep
    · simp [cutAt, h]
    · simp [cutAt, h, ih]

/-- What is behind the separator; without one it is nothing. -/
theorem getD_snd_cutAt (sep : Char) (s : List Char) :
    (cutAt sep s).2.getD [] = (s.dropWhile (· ≠ sep)).drop 1 := by
  induction s with
  | nil => rfl
  | cons c s ih =>
    by_cases h : c = sep
    · simp [cutAt, h]
    · simp [cutAt, h, ih]

theorem splitAt_of_notMem (h : sep ∉ s) : splitAt sep s = [s] := by
  induction s with
  | nil => rfl
  | cons c s ih =>
    rw [List.mem_cons, not_or] at h
    rw [splitAt, if_neg (Ne.symm h.1), ih h.2]

/-- The piece before the first separator, and the pieces of what follows it. -/
theorem splitAt_append (h : sep ∉ s) (t : List Char) :
    splitAt sep (s ++ sep :: t) = s :: splitAt sep t := by
  induction s with
  | nil => simp [splitAt]
  | cons c s ih =>
    simp only [List.mem_cons, not_or] at h
    simp [splitAt, Ne.symm h.1, ih h.2]

end AnnotatedApi.Text
