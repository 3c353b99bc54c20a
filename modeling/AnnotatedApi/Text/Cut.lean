/-
  Cutting a text where a pattern stands: at its first occurrence (`cut?`, `cutAt`) or at
  every occurrence of one character (`splitAt`). What is cut off in front gives the text back with
  what follows it (`after?_some`, `cutAt_some`).
-/

namespace AnnotatedApi.Text

/-- What follows `pat` in a text that starts with it. -/
def after? : List Char → List Char → Option (List Char)
  | [], s => some s
  | _ :: _, [] => none
  | p :: pat, c :: s => if p = c then after? pat s else none

theorem after?_some {pat s rest : List Char} (h : after? pat s = some rest) : s = pat ++ rest := by
  induction pat generalizing s with
  | nil => simp only [after?, Option.some.injEq] at h; simp [h]
  | cons p pat ih =>
    cases s with
    | nil => simp [after?] at h
    | cons c s =>
      simp only [after?] at h
      split at h
      · next e => rw [e, ih h]; rfl
      · cases h

def startsWith (pat s : List Char) : Bool := (after? pat s).isSome

/-- The text before and after the first occurrence of `pat`. -/
def cut? (pat : List Char) : List Char → Option (List Char × List Char)
  | [] => if pat.isEmpty then some ([], []) else none
  | c :: s =>
    match after? pat (c :: s) with
    | some rest => some ([], rest)
    | none => (cut? pat s).map fun (before, rest) => (c :: before, rest)

/-- The text before the first `sep`, and what follows it if there is one. -/
def cutAt (sep : Char) : List Char → List Char × Option (List Char)
  | [] => ([], none)
  | c :: s =>
    if c = sep then ([], some s)
    else
      let (before, rest) := cutAt sep s
      (c :: before, rest)

theorem cutAt_some {sep : Char} {s before rest : List Char}
    (h : cutAt sep s = (before, some rest)) :
    s = before ++ sep :: rest ∧ sep ∉ before := by
  induction s generalizing before with
  | nil => simp_all [cutAt]
  | cons c s ih =>
    simp only [cutAt] at h
    split at h
    · next e => simp_all
    · next ne =>
      simp only [Prod.mk.injEq] at h
      have := @ih (cutAt sep s).1 (by rw [← h.2])
      grind

/-- The pieces between the occurrences of `sep`; there is always a first one. -/
def splitAt (sep : Char) : List Char → List (List Char)
  | [] => [[]]
  | c :: s =>
    if c = sep then [] :: splitAt sep s
    else
      match splitAt sep s with
      | [] => [[c]]
      | piece :: pieces => (c :: piece) :: pieces

/-- `pieces` with `sep` between them. -/
def joinWith (sep : List Char) : List (List Char) → List Char
  | [] => []
  | [p] => p
  | p :: ps => p ++ sep ++ joinWith sep ps

end AnnotatedApi.Text
