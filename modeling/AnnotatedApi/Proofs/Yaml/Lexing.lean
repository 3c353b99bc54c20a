/-
  Runs of the lexer. A step first goes to the next token (`approach`) and then takes it (`take`).
  What is read before a token counts only through where the approach ends: a plain scalar is read
  with the space behind it, a quoted one without. So runs are told up to the next approach
  (`Lexes`), which makes them compose.

  Main statement: if a run comes to a state from which the end of the text is taken, the tokens of
  the text are those of that state (`run_of_lexes`).
-/
import AnnotatedApi.Proofs.Run
import AnnotatedApi.Proofs.Yaml.Places
import AnnotatedApi.Yaml.Lexer

namespace AnnotatedApi.Yaml

namespace Lexer

variable {x y z : Lexer}

/-- To the place of the next token, with keys given up and blocks closed on the way. -/
def approach (x : Lexer) : Except Fault Lexer := do
  let y ← (toNextToken (x.cursor.left + 1) x).dropStale
  return y.unwindTo y.cursor.column

/-- The token at the cursor, or the end of the text. -/
def take (x : Lexer) : Except Fault Lexer :=
  match x.cursor.rest with
  | [] => do
    let y ← x.settled
    return { y with done := true }
  | c :: s => x.token c s

theorem step_eq (x : Lexer) : x.step = x.approach >>= take := by
  unfold step approach
  dsimp only
  cases (toNextToken (x.cursor.left + 1) x).dropStale <;> rfl

/-- A step that takes at least one character behind the place it approached. -/
def Moves (x y : Lexer) : Prop :=
  ∃ z, x.approach = .ok z ∧ z.take = .ok y ∧ y.done = false ∧
    y.cursor.rest.length < z.cursor.rest.length

/-- Steps up to the next approach. -/
inductive Lexes : Lexer → Lexer → Prop
  | same {x y : Lexer} (h : x.approach = y.approach) : Lexes x y
  | move {x y z : Lexer} (h : Moves x y) (hyz : Lexes y z) : Lexes x z

theorem Lexes.refl (x : Lexer) : Lexes x x := .same rfl

theorem Lexes.trans (hxy : Lexes x y) (hyz : Lexes y z) : Lexes x z := by
  induction hxy with
  | same h =>
    cases hyz with
    | same h' => exact .same (h.trans h')
    | move hmoves hrest =>
      obtain ⟨u, hu, htake⟩ := hmoves
      exact .move ⟨u, h.trans hu, htake⟩ hrest
  | move h _ ih => exact .move h (ih hyz)

/-! ## The whole run -/

theorem length_rest_skip (p : Cursor) (s : List Char) : (p.skip s).rest.length ≤ p.rest.length := by
  simp [Cursor.skip]

theorem length_rest_next (p : Cursor) : p.next.rest.length ≤ p.rest.length := by
  cases h : p.rest with
  | nil => simp [Cursor.next, h]
  | cons c r => rw [Cursor.rest_next h, List.length_cons]; omega

theorem length_rest_lineBreak {p q : Cursor} {c : Char} (h : p.lineBreak = some (c, q)) :
    q.rest.length ≤ p.rest.length := by
  unfold Cursor.lineBreak at h
  split at h
  · next s hs =>
    cases h
    rw [hs]
    simp only [List.length_cons]
    omega
  · split at h
    · cases h
      exact length_rest_next p
    · split at h
      · cases h
        exact length_rest_next p
      · cases h
  · cases h

theorem length_rest_toNextToken (fuel : Nat) (x : Lexer) :
    (toNextToken fuel x).cursor.rest.length ≤ x.cursor.rest.length := by
  induction fuel generalizing x with
  | zero => exact Nat.le_refl _
  | succ fuel ih =>
    rw [toNextToken]
    have hspaces : x.cursor.skipSpaces.rest.length ≤ x.cursor.rest.length := length_rest_skip _ _
    have hcomment : (if x.cursor.skipSpaces.sees '#' = true then x.cursor.skipSpaces.skipLine
        else x.cursor.skipSpaces).rest.length ≤ x.cursor.rest.length := by
      split
      · exact Nat.le_trans (length_rest_skip _ _) hspaces
      · exact hspaces
    split
    · next q hq =>
      exact Nat.le_trans (ih _) (Nat.le_trans (length_rest_lineBreak hq) hcomment)
    · exact hcomment

/-- What does not tell of blocks and tokens stays when blocks are closed. -/
theorem unwind_eq {α : Type} {f : Lexer → α}
    (hf : ∀ x indent indents tokens count, f { x with indent, indents, tokens, count } = f x)
    (column : Int) (is : List Int) (x : Lexer) : f (unwind column is x) = f x := by
  induction is generalizing x with
  | nil => rfl
  | cons i is ih =>
    rw [unwind]
    split
    · rw [ih, hf]
    · rfl

theorem cursor_unwindTo (column : Int) (x : Lexer) : (x.unwindTo column).cursor = x.cursor := by
  unfold unwindTo
  split
  · rfl
  · exact unwind_eq (f := cursor) (fun _ _ _ _ _ => rfl) _ _ _

theorem cursor_dropStale (h : x.dropStale = .ok y) : y.cursor = x.cursor := by
  unfold dropStale at h
  cases hkey : x.aged x.key with
  | error f => rw [hkey] at h; cases h
  | ok key =>
    cases houter : x.outerKeys.mapM x.aged with
    | error f => rw [hkey, houter] at h; cases h
    | ok outer => rw [hkey, houter] at h; cases h; rfl

theorem length_rest_approach (h : x.approach = .ok y) :
    y.cursor.rest.length ≤ x.cursor.rest.length := by
  unfold approach at h
  cases hstale : (toNextToken (x.cursor.left + 1) x).dropStale with
  | error f => rw [hstale] at h; cases h
  | ok z =>
    rw [hstale, ok_bind] at h
    cases h
    rw [cursor_unwindTo, cursor_dropStale hstale]
    exact length_rest_toNextToken _ _

/-- The tokens of a run that comes to the end of the text. -/
theorem run_of_lexes (h : Lexes x y) (hy : y.step = .ok z) (hz : z.done = true) {fuel : Nat}
    (hfuel : x.cursor.rest.length < fuel) : x.run fuel = (Token.streamEnd :: z.tokens).reverse := by
  induction h generalizing fuel with
  | same h =>
    obtain ⟨fuel, rfl⟩ := Nat.exists_eq_add_of_le' (show 1 ≤ fuel by omega)
    rw [run, step_eq, h, ← step_eq, hy]
    simp only [hz, if_true]
  | @move x u _ h _ ih =>
    obtain ⟨fuel, rfl⟩ := Nat.exists_eq_add_of_le' (show 1 ≤ fuel by omega)
    obtain ⟨v, hv, htake, hdone, hlength⟩ := h
    have hle := length_rest_approach hv
    rw [run, step_eq, hv, ok_bind, htake]
    simp only [hdone, Bool.false_eq_true, if_false]
    exact ih hy (by omega)

end Lexer

end AnnotatedApi.Yaml
