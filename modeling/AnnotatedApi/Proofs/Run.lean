/-
  Runs of steps that may stop. A sequence of reports has a result exactly when each of its parts
  has one (`Report.result_bind_eq_ok`, `Report.foldlM_cons_eq_ok`), and what each step keeps holds
  at its end (`Report.foldlM_invariant`). `Ends` says of a run that its result has a property, or
  its error one of its own; `EndsAs` says which error it is, or that there is none, and of several
  steps the first one with an error counts (`endsAs_mapM`, `endsAs_foldlM`). An edit for each
  element of a list splits where the list splits (`Edit.each_append`). What a run gives follows
  from what each of its steps gives, without the log (`Report.result_foldlM`, `Edit.result_each`).
-/
import AnnotatedApi.Document.Edit

namespace AnnotatedApi

variable {ε α β : Type}

/-- A step that has come to a result, and then the next one. -/
theorem ok_bind (a : α) (f : α → Except ε β) : (Except.ok a >>= f) = f a := rfl

theorem error_bind (e : ε) (f : α → Except ε β) : (Except.error e >>= f) = .error e := rfl

/-- Steps that have come to a result have done so one by one. -/
theorem exists_of_bind_ok {x : Except ε α} {f : α → Except ε β} {b : β} (h : (x >>= f) = .ok b) :
    ∃ a, x = .ok a ∧ f a = .ok b := by
  cases x with
  | error e => cases h
  | ok a => exact ⟨a, rfl, h⟩

/-- A result that was put into another form. -/
theorem exists_of_map_ok {x : Except ε α} {f : α → β} {b : β} (h : f <$> x = .ok b) :
    ∃ a, x = .ok a ∧ f a = b := by
  cases x with
  | error e => cases h
  | ok a => exact ⟨a, rfl, Except.ok.inj h⟩

theorem map_eq_error_iff {x : Except ε α} {f : α → β} {e : ε} :
    f <$> x = .error e ↔ x = .error e := by
  cases x with
  | error e' =>
    constructor
    · exact fun h => congrArg _ (Except.error.inj h)
    · exact fun h => congrArg _ (Except.error.inj h)
  | ok a => exact ⟨nofun, nofun⟩

/-- A result of which some part is known. -/
theorem exists_of_toOption_map {x : Except ε α} {f : α → β} {b : β}
    (h : x.toOption.map f = some b) : ∃ a, x = .ok a ∧ f a = b := by
  cases x with
  | error e => cases h
  | ok a => exact ⟨a, rfl, Option.some.inj h⟩

/-- A step for each element of a list has come to results, the first one and the others. -/
theorem exists_of_mapM_cons_ok {f : α → Except ε β} {a : α} {as : List α} {bs : List β}
    (h : (a :: as).mapM f = .ok bs) :
    ∃ b rest, f a = .ok b ∧ as.mapM f = .ok rest ∧ bs = b :: rest := by
  rw [List.mapM_cons] at h
  obtain ⟨b, hb, h⟩ := exists_of_bind_ok h
  obtain ⟨rest, hrest, h⟩ := exists_of_bind_ok h
  cases h
  exact ⟨b, rest, hb, hrest, rfl⟩

/-- A step for each element of a list has come to results if it has for each one. -/
theorem exists_of_mapM_ok {f : α → Except ε β} {as : List α} {bs : List β}
    (h : as.mapM f = .ok bs) :
    (∀ a ∈ as, ∃ b ∈ bs, f a = .ok b) ∧ ∀ b ∈ bs, ∃ a ∈ as, f a = .ok b := by
  induction as generalizing bs with
  | nil =>
    cases h
    simp
  | cons a as ih =>
    obtain ⟨b, rest, hb, hrest, rfl⟩ := exists_of_mapM_cons_ok h
    obtain ⟨hleft, hright⟩ := ih hrest
    constructor
    · intro x hx
      rcases List.mem_cons.mp hx with rfl | hx
      · exact ⟨b, List.mem_cons_self, hb⟩
      · obtain ⟨y, hy, hxy⟩ := hleft x hx
        exact ⟨y, List.mem_cons_of_mem _ hy, hxy⟩
    · intro y hy
      rcases List.mem_cons.mp hy with rfl | hy
      · exact ⟨a, List.mem_cons_self, hb⟩
      · obtain ⟨x, hx, hxy⟩ := hright y hy
        exact ⟨x, List.mem_cons_of_mem _ hx, hxy⟩

/-- A step with a state that has come to a result, and then the next one. -/
theorem bind_of_ok {σ : Type} {x : StateT σ (Except ε) α} {k : α → StateT σ (Except ε) β}
    {s t : σ} {a : α} (h : x s = .ok (a, t)) : (x >>= k) s = k a t := by
  show (x s >>= fun r => k r.1 r.2) = _
  rw [h]
  rfl

/-! ## Results or permitted errors -/

/-- A result that `P` holds of, or an error that `R` holds of. -/
inductive Ends (P : α → Prop) (R : ε → Prop) : Except ε α → Prop where
  | ok {a : α} (h : P a) : Ends P R (.ok a)
  | error {e : ε} (h : R e) : Ends P R (.error e)

@[simp] theorem ends_ok {P : α → Prop} {R : ε → Prop} {a : α} : Ends P R (.ok a) ↔ P a :=
  ⟨fun h => by cases h; assumption, .ok⟩

@[simp] theorem ends_error {P : α → Prop} {R : ε → Prop} {e : ε} : Ends P R (.error e) ↔ R e :=
  ⟨fun h => by cases h; assumption, .error⟩

theorem Ends.bind {P : α → Prop} {Q : β → Prop} {R : ε → Prop} {x : Except ε α}
    {f : α → Except ε β} (hx : Ends P R x) (hf : ∀ a, P a → Ends Q R (f a)) :
    Ends Q R (x >>= f) := by
  cases hx with
  | ok h => exact hf _ h
  | error h => exact .error h

theorem ends_mapM {P : β → Prop} {R : ε → Prop} {f : α → Except ε β} {as : List α}
    (h : ∀ a ∈ as, Ends P R (f a)) : Ends (fun bs => ∀ b ∈ bs, P b) R (as.mapM f) := by
  induction as with
  | nil => exact .ok (by simp)
  | cons a as ih =>
    rw [List.mapM_cons]
    refine (h a List.mem_cons_self).bind fun b hb => ?_
    refine (ih fun a ha => h a (List.mem_cons_of_mem _ ha)).bind fun bs hbs => ?_
    exact .ok (List.forall_mem_cons.mpr ⟨hb, hbs⟩)

/-- What holds at first and is kept by every step holds at the end. -/
theorem ends_foldlM {P : β → Prop} {R : ε → Prop} {f : β → α → Except ε β} {xs : List α}
    (step : ∀ b x, x ∈ xs → P b → Ends P R (f b x)) {b : β} (h : P b) :
    Ends P R (xs.foldlM f b) := by
  induction xs generalizing b with
  | nil => exact .ok h
  | cons x xs ih =>
    rw [List.foldlM_cons]
    refine (step b x List.mem_cons_self h).bind fun c hc => ?_
    exact ih (fun b y hy => step b y (List.mem_cons_of_mem _ hy)) hc

/-! ## Results or a certain error -/

section

variable {P : α → Prop} {Q : β → Prop} {x : Except ε α} {o o' : Option ε}

/-- A result that `P` holds of, where there is no error, and else this error. -/
inductive EndsAs (P : α → Prop) : Option ε → Except ε α → Prop where
  | ok {a : α} (h : P a) : EndsAs P none (.ok a)
  | error {e : ε} : EndsAs P (some e) (.error e)

/-- The error of a computation that ends with one. -/
def errorOf? : Except ε α → Option ε
  | .ok _ => none
  | .error e => some e

theorem errorOf?_eq_some_iff {e : ε} : errorOf? x = some e ↔ x = .error e := by
  cases x <;> simp [errorOf?]

theorem isSome_errorOf?_iff : (errorOf? x).isSome ↔ ∃ e, x = .error e := by
  cases x <;> simp [errorOf?]

theorem endsAs_errorOf? (x : Except ε α) : EndsAs (fun a => x = .ok a) (errorOf? x) x := by
  cases x with
  | ok a => exact .ok rfl
  | error e => exact .error

theorem EndsAs.errorOf?_eq (h : EndsAs P o x) : errorOf? x = o := by
  cases h <;> rfl

theorem EndsAs.mono {P' : α → Prop} (h : EndsAs P o x) (hP : ∀ a, P a → P' a) : EndsAs P' o x := by
  cases h with
  | ok h => exact .ok (hP _ h)
  | error => exact .error

theorem EndsAs.bind {f : α → Except ε β} (hx : EndsAs P o x) (hf : ∀ a, P a → EndsAs Q o' (f a)) :
    EndsAs Q (o.or o') (x >>= f) := by
  cases hx with
  | ok h => exact hf _ h
  | error => exact .error

/-- A step behind which nothing can fail any more. -/
theorem EndsAs.bind_ok {f : α → Except ε β} (hx : EndsAs P o x)
    (hf : ∀ a, P a → ∃ b, f a = .ok b ∧ Q b) : EndsAs Q o (x >>= f) := by
  have h : EndsAs Q (o.or none) (x >>= f) := by
    refine hx.bind fun a ha => ?_
    obtain ⟨b, hb, hq⟩ := hf a ha
    rw [hb]
    exact .ok hq
  rwa [Option.or_none] at h

theorem findSome?_cons_or (g : α → Option ε) (a : α) (as : List α) :
    (a :: as).findSome? g = (g a).or (as.findSome? g) := by
  rw [List.findSome?_cons]
  cases g a <;> rfl

theorem findSome?_filter {p : α → Bool} {g : α → Option ε} (h : ∀ a, p a = false → g a = none)
    (as : List α) : (as.filter p).findSome? g = as.findSome? g := by
  induction as with
  | nil => rfl
  | cons a as ih =>
    rw [findSome?_cons_or, List.filter_cons]
    cases hp : p a with
    | true => rw [if_pos rfl, findSome?_cons_or, ih]
    | false => rw [if_neg (by decide), ih, h a hp, Option.none_or]

/-- A step for each element of a list: the first error is that of the first element with one. -/
theorem endsAs_mapM {f : α → Except ε β} {g : α → Option ε} {as : List α}
    (h : ∀ a ∈ as, errorOf? (f a) = g a) :
    EndsAs (fun _ => True) (as.findSome? g) (as.mapM f) := by
  induction as with
  | nil => exact .ok trivial
  | cons a as ih =>
    rw [List.mapM_cons, findSome?_cons_or, ← h a List.mem_cons_self]
    refine (endsAs_errorOf? (f a)).bind fun b _ => ?_
    refine (ih fun a ha => h a (List.mem_cons_of_mem _ ha)).bind_ok fun bs _ => ?_
    exact ⟨_, rfl, trivial⟩

/-- Steps that keep `P`: the first error is that of the first step with one. -/
theorem endsAs_foldlM {f : β → α → Except ε β} {g : α → Option ε} {xs : List α}
    (step : ∀ b x, x ∈ xs → Q b → EndsAs Q (g x) (f b x)) {b : β} (h : Q b) :
    EndsAs Q (xs.findSome? g) (xs.foldlM f b) := by
  induction xs generalizing b with
  | nil => exact .ok h
  | cons x xs ih =>
    rw [List.foldlM_cons, findSome?_cons_or]
    refine (step b x List.mem_cons_self h).bind fun c hc => ?_
    exact ih (fun b y hy => step b y (List.mem_cons_of_mem _ hy)) hc

end

namespace Report

theorem ends_bind {P : α → Prop} {Q : β → Prop} {R : ε → Prop} {r : Report ε α}
    {f : α → Report ε β} (hr : Ends P R r.result) (hf : ∀ a, P a → Ends Q R (f a).result) :
    Ends Q R (r >>= f).result := by
  rw [result_bind]
  exact Ends.bind hr hf

theorem result_bind_eq_ok {r : Report ε α} {f : α → Report ε β} {b : β} :
    (r >>= f).result = .ok b ↔ ∃ a, r.result = .ok a ∧ (f a).result = .ok b := by
  rw [result_bind]
  cases r.result with
  | ok a => simp [Except.bind]
  | error e => simp [Except.bind]

theorem result_foldlM (f : β → α → Report ε β) (b : β) (xs : List α) :
    (xs.foldlM f b).result = xs.foldlM (fun b x => (f b x).result) b := by
  induction xs generalizing b with
  | nil => rfl
  | cons x xs ih =>
    rw [List.foldlM_cons, List.foldlM_cons, result_bind]
    exact congrArg _ (funext ih)

theorem foldlM_cons_eq_ok {f : β → α → Report ε β} {b b' : β} {x : α} {xs : List α} :
    ((x :: xs).foldlM f b).result = .ok b' ↔
      ∃ c, (f b x).result = .ok c ∧ (xs.foldlM f c).result = .ok b' := by
  rw [List.foldlM_cons, result_bind_eq_ok]

/-- A property that holds of the start, relative to nothing read, and is kept by every step that
has a result, holds at the end, relative to all that was read. -/
theorem foldlM_invariant {f : β → α → Report ε β} (P : List α → β → Prop)
    (step : ∀ pre b x b', P pre b → (f b x).result = .ok b' → P (pre ++ [x]) b')
    {xs : List α} {b b' : β} (h : P [] b) (hrun : (xs.foldlM f b).result = .ok b') : P xs b' := by
  suffices ∀ pre b, P pre b → (xs.foldlM f b).result = .ok b' → P (pre ++ xs) b' by
    simpa using this [] b h hrun
  clear h hrun
  induction xs with
  | nil =>
    intro pre b h hrun
    simp only [List.foldlM_nil, result_pure, Except.ok.injEq] at hrun
    simpa [← hrun] using h
  | cons x xs ih =>
    intro pre b h hrun
    obtain ⟨c, hc, hrun⟩ := foldlM_cons_eq_ok.mp hrun
    simpa using ih (pre ++ [x]) c (step pre b x c h hc) hrun

end Report

namespace Edit

@[simp] theorem each_nil (f : α → β → Edit ε α) (a : α) : each f a [] = ⟨a, [], none⟩ := rfl

theorem each_cons (f : α → β → Edit ε α) (a : α) (b : β) (bs : List β) :
    each f a (b :: bs) = (f a b).andThen fun a => each f a bs := rfl

theorem andThen_of_error {e : Edit ε α} {err : ε} (h : e.error = some err)
    (f : α → Edit ε α) : e.andThen f = e := by
  simp [andThen, h]

theorem error_andThen {e : Edit ε α} (h : e.error = none) (f : α → Edit ε α) :
    (e.andThen f).error = (f e.state).error := by
  simp [andThen, h]

theorem state_andThen {e : Edit ε α} (h : e.error = none) (f : α → Edit ε α) :
    (e.andThen f).state = (f e.state).state := by
  simp [andThen, h]

theorem error_andThen_eq_none {e : Edit ε α} {f : α → Edit ε α} :
    (e.andThen f).error = none ↔ e.error = none ∧ (f e.state).error = none := by
  cases h : e.error with
  | none => simp [error_andThen h]
  | some err => simp [andThen_of_error h, h]

theorem each_append (f : α → β → Edit ε α) (a : α) (bs cs : List β) :
    each f a (bs ++ cs) = (each f a bs).andThen fun a => each f a cs := by
  induction bs generalizing a with
  | nil => simp [each, andThen]
  | cons b bs ih =>
    rw [List.cons_append, each_cons, each_cons]
    cases h : (f a b).error with
    | some err =>
      rw [andThen_of_error h, andThen_of_error h, andThen_of_error h]
    | none =>
      simp only [andThen, h, ih]
      cases hbs : (each f (f a b).state bs).error with
      | none => simp [List.append_assoc]
      | some err => simp [hbs]

theorem andThen_keeps {P : α → Prop} {e : Edit ε α} {f : α → Edit ε α} (h : P e.state)
    (step : ∀ a, P a → P (f a).state) : P (e.andThen f).state := by
  cases he : e.error with
  | some err =>
    rw [andThen_of_error he]
    exact h
  | none =>
    rw [state_andThen he]
    exact step e.state h

/-- What each change keeps holds at the end, also of the state that an error leaves. -/
theorem each_keeps {P : α → Prop} {f : α → β → Edit ε α} {bs : List β}
    (step : ∀ a, ∀ b ∈ bs, P a → P (f a b).state) {a : α} (h : P a) : P (each f a bs).state := by
  induction bs generalizing a with
  | nil => exact h
  | cons b bs ih =>
    refine andThen_keeps (step a b List.mem_cons_self h) fun a ha => ?_
    exact ih (fun a b hb => step a b (List.mem_cons_of_mem _ hb)) ha

/-- A change that nothing stops is followed by another. -/
theorem andThen_takes {P Q : α → Prop} {e : Edit ε α} {f : α → Edit ε α}
    (h : e.error = none ∧ P e.state)
    (step : ∀ a, P a → (f a).error = none ∧ Q (f a).state) :
    (e.andThen f).error = none ∧ Q (e.andThen f).state := by
  rw [error_andThen h.1, state_andThen h.1]
  exact step e.state h.2

/-- Changes that nothing stops, one after the other. -/
theorem each_takes {P : α → Prop} {f : α → β → Edit ε α} {bs : List β}
    (step : ∀ a, ∀ b ∈ bs, P a → (f a b).error = none ∧ P (f a b).state) {a : α} (h : P a) :
    (each f a bs).error = none ∧ P (each f a bs).state := by
  induction bs generalizing a with
  | nil => exact ⟨rfl, h⟩
  | cons b bs ih =>
    refine andThen_takes (step a b List.mem_cons_self h) fun a ha => ?_
    exact ih (fun a b hb => step a b (List.mem_cons_of_mem _ hb)) ha

theorem result_each (f : α → β → Edit ε α) (a : α) (bs : List β) :
    (each f a bs).toReport.result = bs.foldlM (fun a b => (f a b).toReport.result) a := by
  induction bs generalizing a with
  | nil => rfl
  | cons b bs ih =>
    rw [each_cons, List.foldlM_cons]
    cases h : (f a b).error with
    | none =>
      have hb : (f a b).toReport.result = .ok (f a b).state := by simp [toReport, h]
      rw [hb]
      refine Eq.trans ?_ (ih (f a b).state)
      simp [toReport, error_andThen h, state_andThen h]
    | some err =>
      have hb : (f a b).toReport.result = .error err := by simp [toReport, h]
      rw [andThen_of_error h, hb]
      rfl

end Edit

end AnnotatedApi
