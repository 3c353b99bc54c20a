/-
  The grammar of JSON, and what its reader makes of any text. A text denotes a value by the rules of
  the notation alone, whatever its numbers are (`Denotes`, `IsText`); the words for the infinities
  and for what is no number belong to it (`words`). The reader takes such a value from the front of
  a text, and no other; but it gives up where a value is due and an integer of too many digits
  stands (`Overlong`). These are texts that may go wrong later, or end too soon: what stands behind
  the integer is never looked at.

  Lists and objects are read by one loop, over items in the one case and over keys with their values
  in the other, so both are said and proved once (`Parts`, `OverlongParts`, `PartReader`). The
  induction is on the fuel of the reader, of which a value needs as much as it has characters, and
  what is in front of an integer of too many digits twice as much, because its brackets stay open.

  Main statements: a text is read as a value exactly if it is JSON for that value and not too long
  (`read_eq_ok_iff`), and it is too long to be read exactly if the notation says so
  (`read_eq_tooLong_iff`).
-/
import AnnotatedApi.Proofs.JsonLexemes

namespace AnnotatedApi

namespace Json

variable {b s r : List Char}

/-! ## The notation -/

/-- Parts with commas between them: the items of a list, or the entries of an object. -/
inductive Parts {α : Type} (P : List Char → α → Prop) : List Char → List α → Prop
  | last {t b : List Char} {a : α} (h : P t a) (hb : Blanks b) : Parts P (t ++ b) [a]
  | more {t b b' s : List Char} {a : α} {as : List α} (h : P t a) (hb : Blanks b) (hb' : Blanks b')
      (hs : Parts P s as) : Parts P (t ++ (b ++ ',' :: (b' ++ s))) (a :: as)

/-- A key with its colon, and the blanks around that. -/
inductive KeyText : List Char → Value → Prop
  | mk {body b b' : List Char} {ns : List Nat} (h : StringBody body ns) (hb : Blanks b)
      (hb' : Blanks b') : KeyText ('"' :: (body ++ '"' :: (b ++ ':' :: b'))) (ofUnits ns)

mutual

/-- The text is JSON for the value. Of entries with one key the last one counts. -/
inductive Denotes : List Char → Value → Prop
  | word {w : List Char × Value} (hw : w ∈ words) : Denotes w.1 w.2
  | number {t : List Char} {v : Value} (h : NumberText t v) : Denotes t v
  | string {body : List Char} {ns : List Nat} (h : StringBody body ns) :
      Denotes ('"' :: (body ++ ['"'])) (ofUnits ns)
  | emptyList {b : List Char} (hb : Blanks b) : Denotes ('[' :: (b ++ [']'])) (.array [])
  | list {b s : List Char} {vs : List Value} (hb : Blanks b) (h : Parts Denotes s vs) :
      Denotes ('[' :: (b ++ (s ++ [']']))) (.array vs)
  | emptyObject {b : List Char} (hb : Blanks b) : Denotes ('\x7b' :: (b ++ ['\x7d'])) (.map none [])
  | object {b s : List Char} {es : List (Value × Value)} (hb : Blanks b)
      (h : Parts DenotesEntry s es) :
      Denotes ('\x7b' :: (b ++ (s ++ ['\x7d']))) (.map none (Assoc.ofEntries es))

/-- A key and the value behind it. -/
inductive DenotesEntry : List Char → Value × Value → Prop
  | mk {k t : List Char} {key v : Value} (hk : KeyText k key) (h : Denotes t v) :
      DenotesEntry (k ++ t) (key, v)

end

/-- Parts up to one that cannot be read. -/
inductive OverlongParts {α : Type} (P : List Char → α → Prop) (Q : List Char → Prop) :
    List Char → Prop
  | here {s : List Char} (h : Q s) : OverlongParts P Q s
  | later {t b b' s : List Char} {a : α} (h : P t a) (hb : Blanks b) (hb' : Blanks b')
      (hs : OverlongParts P Q s) : OverlongParts P Q (t ++ (b ++ ',' :: (b' ++ s)))

mutual

/-- Where a value is due, perhaps inside lists and objects that are open, an integer of too many
digits stands. -/
inductive Overlong : List Char → Prop
  | number {s : List Char} (h : StartsTooLong s) : Overlong s
  | list {b s : List Char} (hb : Blanks b) (h : OverlongParts Denotes Overlong s) :
      Overlong ('[' :: (b ++ s))
  | object {b s : List Char} (hb : Blanks b) (h : OverlongParts DenotesEntry OverlongEntry s) :
      Overlong ('\x7b' :: (b ++ s))

inductive OverlongEntry : List Char → Prop
  | mk {k s : List Char} {key : Value} (hk : KeyText k key) (h : Overlong s) :
      OverlongEntry (k ++ s)

end

/-- A text is JSON for a value, with blanks around it. -/
def IsText (text : String) (v : Value) : Prop :=
  ∃ b t b', text.toList = b ++ (t ++ b') ∧ Blanks b ∧ Blanks b' ∧ Denotes t v

/-- A text comes to an integer of too many digits where a value is due. -/
def IsOverlong (text : String) : Prop := ∃ b s, text.toList = b ++ s ∧ Blanks b ∧ Overlong s

/-! ## Starts -/

theorem NumberText.head {t : List Char} {v : Value} (h : NumberText t v) :
    ∃ minus c u, t = minusSign minus ++ c :: u ∧ Text.isAsciiDigit c = true := by
  cases h with
  | @integer minus whole hw =>
    obtain ⟨c, ds, rfl, hc⟩ := hw.head
    exact ⟨minus, c, ds, rfl, hc⟩
  | @decimal minus whole part ds power e hw _ _ _ =>
    obtain ⟨c, ds, rfl, hc⟩ := hw.head
    exact ⟨minus, c, _, rfl, hc⟩

theorem StartsTooLong.head (h : StartsTooLong s) :
    ∃ minus c u, s = minusSign minus ++ c :: u ∧ Text.isAsciiDigit c = true := by
  obtain ⟨minus, whole, r, rfl, hw, -, -⟩ := h
  obtain ⟨c, ds, rfl, hc⟩ := hw.head
  exact ⟨minus, c, _, rfl, hc⟩

/-- A word or a number starts with no bracket, no quote and no blank. -/
def StartsSimple (s : List Char) : Prop :=
  ∃ c t, s = c :: t ∧ isBlank c = false ∧ c ∉ ['"', '[', '\x7b', ']', '\x7d', ',']

theorem startsSimple_number (minus : Bool) {c : Char} (hc : Text.isAsciiDigit c = true)
    (u : List Char) : StartsSimple (minusSign minus ++ c :: u) := by
  cases minus with
  | true => exact ⟨'-', c :: u, rfl, by decide, by decide⟩
  | false =>
    obtain ⟨hblank, hmark⟩ := @forall_isAsciiDigit
      (fun c => isBlank c = false ∧ c ∉ ['"', '[', '\x7b', ']', '\x7d', ',']) (by decide) c hc
    exact ⟨c, u, rfl, hblank, hmark⟩

theorem startsSimple_word {w : List Char × Value} (hw : w ∈ words) (r : List Char) :
    StartsSimple (w.1 ++ r) := by
  simp only [words, List.mem_cons, List.not_mem_nil, or_false] at hw
  rcases hw with rfl | rfl | rfl | rfl | rfl | rfl <;>
    exact ⟨_, _, rfl, by decide, by decide⟩

/-- A part of a list or an object starts with no blank and with no closing bracket. -/
def StartsPart (s : List Char) : Prop := ∃ c t, s = c :: t ∧ isBlank c = false ∧ c ∉ [']', '\x7d']

theorem StartsPart.skipBlanks_append (h : StartsPart s) (hb : Blanks b) (r : List Char) :
    skipBlanks (b ++ (s ++ r)) = s ++ r := by
  obtain ⟨c, t, rfl, hc, -⟩ := h
  exact Json.skipBlanks_append hb hc (t ++ r)

theorem StartsSimple.part (h : StartsSimple s) : StartsPart s := by
  obtain ⟨c, t, rfl, hblank, hc⟩ := h
  exact ⟨c, t, rfl, hblank, fun hmem => hc (by simp_all)⟩

theorem Denotes.starts {t : List Char} {v : Value} (h : Denotes t v) : StartsPart t := by
  cases h with
  | @word w hw => simpa using (startsSimple_word hw []).part
  | number h =>
    obtain ⟨minus, c, u, rfl, hc⟩ := h.head
    exact (startsSimple_number minus hc u).part
  | string _ => exact ⟨_, _, rfl, by decide, by decide⟩
  | emptyList _ => exact ⟨_, _, rfl, by decide, by decide⟩
  | list _ _ => exact ⟨_, _, rfl, by decide, by decide⟩
  | emptyObject _ => exact ⟨_, _, rfl, by decide, by decide⟩
  | object _ _ => exact ⟨_, _, rfl, by decide, by decide⟩

theorem Overlong.starts (h : Overlong s) : StartsPart s := by
  cases h with
  | number h =>
    obtain ⟨minus, c, u, rfl, hc⟩ := h.head
    exact (startsSimple_number minus hc u).part
  | list _ _ => exact ⟨_, _, rfl, by decide, by decide⟩
  | object _ _ => exact ⟨_, _, rfl, by decide, by decide⟩

theorem KeyText.starts {k : List Char} {key : Value} (h : KeyText k key) (s : List Char) :
    StartsPart (k ++ s) := by
  cases h
  exact ⟨'"', _, rfl, by decide, by decide⟩

/-! ## The steps of the reader -/

/-- One step of the reader of values, by what is at the front. -/
inductive ValueStep (fuel : Nat) : List Char → Except Fault (Value × List Char) → Prop
  | string (u : List Char) :
      ValueStep fuel ('"' :: u) ((fun p => (ofUnits p.1, p.2)) <$> stringRest u)
  | emptyList {b : List Char} (hb : Blanks b) (r : List Char) :
      ValueStep fuel ('[' :: (b ++ ']' :: r)) (.ok (.array [], r))
  | list {b : List Char} (hb : Blanks b) (u : List Char) :
      ValueStep fuel ('[' :: (b ++ u)) ((fun p => (.array p.1, p.2)) <$> items fuel u)
  | emptyObject {b : List Char} (hb : Blanks b) (r : List Char) :
      ValueStep fuel ('\x7b' :: (b ++ '\x7d' :: r)) (.ok (.map none [], r))
  | object {b : List Char} (hb : Blanks b) (u : List Char) :
      ValueStep fuel ('\x7b' :: (b ++ u))
        ((fun p => (.map none (Assoc.ofEntries p.1), p.2)) <$> entries fuel u)
  | simple (s : List Char) : ValueStep fuel s (simple s)

theorem valueStep (fuel : Nat) (s : List Char) : ValueStep fuel s (value (fuel + 1) s) := by
  rw [value.eq_def]
  dsimp only
  split
  · exact .string _
  · next u =>
    obtain ⟨b, hb, hu⟩ := blanks_append_skipBlanks u
    split
    · next r hr =>
      rw [hu, hr]
      exact .emptyList hb r
    · conv => arg 2; rw [hu]
      exact .list hb _
  · next u =>
    obtain ⟨b, hb, hu⟩ := blanks_append_skipBlanks u
    split
    · next r hr =>
      rw [hu, hr]
      exact .emptyObject hb r
    · conv => arg 2; rw [hu]
      exact .object hb _
  · exact .simple s

variable {fuel : Nat}

theorem value_string (u : List Char) :
    value (fuel + 1) ('"' :: u) = (fun p => (ofUnits p.1, p.2)) <$> stringRest u := by
  rw [value]
  rfl

theorem value_emptyList (hb : Blanks b) (r : List Char) :
    value (fuel + 1) ('[' :: (b ++ ']' :: r)) = .ok (.array [], r) := by
  rw [value, skipBlanks_append hb (by decide)]
  rfl

theorem value_list (hb : Blanks b) {u : List Char} (hu : StartsPart u) (r : List Char) :
    value (fuel + 1) ('[' :: (b ++ (u ++ r))) =
      (fun p => (.array p.1, p.2)) <$> items fuel (u ++ r) := by
  have hskip := hu.skipBlanks_append hb r
  obtain ⟨c, t, rfl, -, hc⟩ := hu
  rw [value, hskip]
  split
  · next h => exact (hc (by simp [(List.cons.inj h).1])).elim
  · rfl

theorem value_emptyObject (hb : Blanks b) (r : List Char) :
    value (fuel + 1) ('\x7b' :: (b ++ '\x7d' :: r)) = .ok (.map none [], r) := by
  rw [value, skipBlanks_append hb (by decide)]
  rfl

theorem value_object (hb : Blanks b) {u : List Char} (hu : StartsPart u) (r : List Char) :
    value (fuel + 1) ('\x7b' :: (b ++ (u ++ r))) =
      (fun p => (.map none (Assoc.ofEntries p.1), p.2)) <$> entries fuel (u ++ r) := by
  have hskip := hu.skipBlanks_append hb r
  obtain ⟨c, t, rfl, -, hc⟩ := hu
  rw [value, hskip]
  split
  · next h => exact (hc (by simp [(List.cons.inj h).1])).elim
  · rfl

theorem value_simple (h : StartsSimple s) (r : List Char) :
    value (fuel + 1) (s ++ r) = simple (s ++ r) := by
  obtain ⟨c, t, rfl, -, hc⟩ := h
  rw [List.cons_append, value]
  · exact fun u h => hc (by simp [(List.cons.inj h).1])
  · exact fun u h => hc (by simp [(List.cons.inj h).1])
  · exact fun u h => hc (by simp [(List.cons.inj h).1])

/-- One entry of an object. -/
def entry (fuel : Nat) (s : List Char) : Except Fault ((Value × Value) × List Char) :=
  match s with
  | '"' :: s => do
    let (ns, s) ← stringRest s
    match skipBlanks s with
    | ':' :: s =>
      let (v, s) ← value fuel (skipBlanks s)
      return ((ofUnits ns, v), s)
    | _ => .error .malformed
  | _ => .error .malformed

/-- A key is at the front of an entry, or the entry is malformed. -/
theorem entry_cases (fuel : Nat) (s : List Char) :
    entry fuel s = .error .malformed ∨
      ∃ k key u, s = k ++ u ∧ KeyText k key ∧
        entry fuel s = (fun p => ((key, p.1), p.2)) <$> value fuel u := by
  unfold entry
  split
  · next t =>
    cases hstring : stringRest t with
    | error e =>
      cases e with
      | malformed => exact Or.inl rfl
      | tooLong => exact (stringRest_ne_tooLong t hstring).elim
    | ok p =>
      obtain ⟨ns, u⟩ := p
      obtain ⟨body, rfl, hbody⟩ := stringBody_of_stringRest hstring
      obtain ⟨b, hb, hu⟩ := blanks_append_skipBlanks u
      rw [ok_bind]
      dsimp only
      split
      · next w hcolon =>
        obtain ⟨b', hb', hw⟩ := blanks_append_skipBlanks w
        refine Or.inr ⟨_, _, skipBlanks w, ?_, .mk hbody hb hb', rfl⟩
        rw [hu, hcolon]
        simp [← hw]
      · exact Or.inl rfl
  · exact Or.inl rfl

theorem entry_key {k : List Char} {key : Value} (hk : KeyText k key) {u : List Char}
    (hu : StartsPart u) (r : List Char) :
    entry fuel (k ++ (u ++ r)) = (fun p => ((key, p.1), p.2)) <$> value fuel (u ++ r) := by
  cases hk with
  | @mk body b b' ns hbody hb hb' =>
    have hread := hbody.stringRest_append (b ++ ':' :: (b' ++ (u ++ r)))
    simp only [List.cons_append, List.append_assoc, entry, hread, ok_bind,
      skipBlanks_append hb (show isBlank ':' = false from rfl), hu.skipBlanks_append hb']
    rfl

/-! ## Parts -/

variable {α : Type} {close : Char} {P : List Char → α → Prop} {Q : List Char → Prop}

/-- What is read behind a part: the end, or a comma and more parts. -/
def afterPart (close : Char) (more : List Char → Except Fault (List α × List Char)) (a : α)
    (t : List Char) : Except Fault (List α × List Char) :=
  match skipBlanks t with
  | [] => .error .malformed
  | c :: rest =>
    if c = close then .ok ([a], rest)
    else if c = ',' then (fun p => (a :: p.1, p.2)) <$> more (skipBlanks rest)
    else .error .malformed

theorem afterPart_bracket (more : List Char → Except Fault (List α × List Char)) (a : α)
    (t : List Char) :
    afterPart ']' more a t =
      match skipBlanks t with
      | ']' :: rest => .ok ([a], rest)
      | ',' :: rest => (fun p => (a :: p.1, p.2)) <$> more (skipBlanks rest)
      | _ => .error .malformed := by
  unfold afterPart
  cases skipBlanks t with
  | nil => rfl
  | cons c u =>
    by_cases hclose : c = ']'
    · subst hclose
      rfl
    by_cases hcomma : c = ','
    · subst hcomma
      rfl
    simp [hclose, hcomma]

theorem afterPart_brace (more : List Char → Except Fault (List α × List Char)) (a : α)
    (t : List Char) :
    afterPart '\x7d' more a t =
      match skipBlanks t with
      | '\x7d' :: rest => .ok ([a], rest)
      | ',' :: rest => (fun p => (a :: p.1, p.2)) <$> more (skipBlanks rest)
      | _ => .error .malformed := by
  unfold afterPart
  cases skipBlanks t with
  | nil => rfl
  | cons c u =>
    by_cases hclose : c = '\x7d'
    · subst hclose
      rfl
    by_cases hcomma : c = ','
    · subst hcomma
      rfl
    simp [hclose, hcomma]

/-- The loop reads parts up to a closing bracket, each of them by `part`. -/
structure PartReader (close : Char) (part : Nat → List Char → Except Fault (α × List Char))
    (loop : Nat → List Char → Except Fault (List α × List Char)) : Prop where
  close_mem : close ∈ [']', '\x7d']
  zero : ∀ s, loop 0 s = .error .malformed
  succ : ∀ fuel s, loop (fuel + 1) s =
    part fuel s >>= fun p => afterPart close (loop fuel) p.1 p.2

theorem partReader_items : PartReader ']' value items where
  close_mem := by decide
  zero _ := rfl
  succ fuel s := by
    simp only [afterPart_bracket]
    rw [items]
    rfl

theorem entries_eq (fuel : Nat) (s : List Char) :
    entries (fuel + 1) s = entry fuel s >>= fun p => afterPart '\x7d' (entries fuel) p.1 p.2 := by
  simp only [afterPart_brace]
  rw [entries.eq_def, entry.eq_def]
  by_cases hquote : ∃ t, s = '"' :: t
  · obtain ⟨t, rfl⟩ := hquote
    cases hstring : stringRest t with
    | error e => simp only [hstring, error_bind]
    | ok p =>
      simp only [hstring, ok_bind]
      by_cases hcolon : ∃ w, skipBlanks p.2 = ':' :: w
      · obtain ⟨w, hw⟩ := hcolon
        simp only [hw]
        cases value fuel (skipBlanks w) <;> rfl
      · -- The form of `hcolon` lets both matches go on to their last case.
        simp only [not_exists] at hcolon
        simp only [error_bind]
  · simp only [not_exists] at hquote
    simp only [error_bind]

theorem partReader_entries : PartReader '\x7d' entry entries where
  close_mem := by decide
  zero _ := rfl
  succ := entries_eq

/-- Behind a part the list or object ends, or a comma and more parts follow, or it is malformed. -/
theorem afterPart_cases (close : Char) (more : List Char → Except Fault (List α × List Char))
    (a : α) (t : List Char) :
    afterPart close more a t = .error .malformed ∨
      (∃ b r, Blanks b ∧ t = b ++ close :: r ∧ afterPart close more a t = .ok ([a], r)) ∨
      ∃ b b' u, Blanks b ∧ Blanks b' ∧ t = b ++ ',' :: (b' ++ u) ∧
        afterPart close more a t = (fun p => (a :: p.1, p.2)) <$> more u := by
  obtain ⟨b, hb, ht⟩ := blanks_append_skipBlanks t
  unfold afterPart
  cases hskip : skipBlanks t with
  | nil => exact Or.inl rfl
  | cons c u =>
    rw [hskip] at ht
    by_cases hclose : c = close
    · subst hclose
      exact Or.inr (Or.inl ⟨b, u, hb, ht, if_pos rfl⟩)
    by_cases hcomma : c = ','
    · subst hcomma
      obtain ⟨b', hb', hu⟩ := blanks_append_skipBlanks u
      refine Or.inr (Or.inr ⟨b, b', skipBlanks u, hb, hb', by rw [← hu]; exact ht, ?_⟩)
      simp [hclose]
    · exact Or.inl (by simp [hclose, hcomma])

theorem StartsPart.append (h : StartsPart s) (r : List Char) : StartsPart (s ++ r) := by
  obtain ⟨c, t, rfl, hc⟩ := h
  exact ⟨c, t ++ r, rfl, hc⟩

theorem Parts.starts (hstart : ∀ t a, P t a → StartsPart t) {s : List Char} {as : List α}
    (h : Parts P s as) : StartsPart s := by
  cases h with
  | last ht _ => exact (hstart _ _ ht).append _
  | more ht _ _ _ => exact (hstart _ _ ht).append _

theorem OverlongParts.starts (hstart : ∀ t a, P t a → StartsPart t)
    (hlongStart : ∀ s, Q s → StartsPart s) {s : List Char} (h : OverlongParts P Q s) :
    StartsPart s := by
  cases h with
  | here hs => exact hlongStart _ hs
  | later ht _ _ _ => exact (hstart _ _ ht).append _

/-- What is read is in the notation. -/
def ReadsOnly {β : Type} (read : List Char → Except Fault (β × List Char))
    (P : List Char → β → Prop) : Prop :=
  ∀ s r a, read s = .ok (a, r) → ∃ t, s = t ++ r ∧ P t a

/-- What is too long to be read is so by the notation. -/
def GivesUpOnly {β : Type} (read : List Char → Except Fault (β × List Char))
    (Q : List Char → Prop) : Prop :=
  ∀ s, read s = .error .tooLong → Q s

/-- The text is read as `a` up to `r`, or something in it is too long. -/
def Reaches {β : Type} (x : Except Fault (β × List Char)) (a : β) (r : List Char) : Prop :=
  x = .ok (a, r) ∨ x = .error .tooLong

theorem Reaches.map {β γ : Type} {x : Except Fault (β × List Char)} {a : β} (h : Reaches x a r)
    (f : β → γ) : Reaches ((fun p => (f p.1, p.2)) <$> x) (f a) r := by
  rcases h with rfl | rfl
  · exact Or.inl rfl
  · exact Or.inr rfl

/-- What is in the notation is read, unless something in it is too long, if the fuel exceeds its
length. -/
def ReadsAll {β : Type} (read : Nat → List Char → Except Fault (β × List Char))
    (P : List Char → β → Prop) (fuel : Nat) : Prop :=
  ∀ t a r, P t a → ¬ GoesOn r → t.length < fuel → Reaches (read fuel (t ++ r)) a r

/-- What is too long by the notation is so to the reader, if the fuel exceeds its length twice. -/
def GivesUpOn {β : Type} (read : Nat → List Char → Except Fault (β × List Char))
    (Q : List Char → Prop) (fuel : Nat) : Prop :=
  ∀ s, Q s → 2 * s.length < fuel → read fuel s = .error .tooLong

variable {part : Nat → List Char → Except Fault (α × List Char)}
  {loop : Nat → List Char → Except Fault (List α × List Char)}

namespace PartReader

theorem afterPart_close (h : PartReader close part loop) (hb : Blanks b)
    (more : List Char → Except Fault (List α × List Char)) (a : α) (r : List Char) :
    afterPart close more a (b ++ close :: r) = .ok ([a], r) := by
  have hblank : isBlank close = false := by
    have hclose := h.close_mem
    simp only [List.mem_cons, List.not_mem_nil, or_false] at hclose
    rcases hclose with rfl | rfl <;> rfl
  rw [afterPart, skipBlanks_append hb hblank]
  exact if_pos rfl

theorem afterPart_comma (h : PartReader close part loop) (hb : Blanks b)
    (more : List Char → Except Fault (List α × List Char)) (a : α) (u : List Char) :
    afterPart close more a (b ++ ',' :: u) =
      (fun p => (a :: p.1, p.2)) <$> more (skipBlanks u) := by
  have hne : ',' ≠ close := by
    have hclose := h.close_mem
    simp only [List.mem_cons, List.not_mem_nil, or_false] at hclose
    rcases hclose with rfl | rfl <;> decide
  rw [afterPart, skipBlanks_append hb (by decide)]
  simp [hne]

/-- The parts that are read up to the bracket are parts of the notation. -/
theorem sound (h : PartReader close part loop)
    (hpart : ∀ m < fuel, ReadsOnly (part m) P)
    {s r : List Char} {as : List α} (hread : loop fuel s = .ok (as, r)) :
    ∃ t, s = t ++ close :: r ∧ Parts P t as := by
  induction fuel generalizing s r as with
  | zero =>
    rw [h.zero] at hread
    cases hread
  | succ fuel ih =>
    rw [h.succ] at hread
    obtain ⟨⟨a, u⟩, hfirst, hrest⟩ := exists_of_bind_ok hread
    obtain ⟨t, rfl, ht⟩ := hpart fuel (Nat.lt_succ_self _) _ _ _ hfirst
    dsimp only at hrest
    rcases afterPart_cases close (loop fuel) a u with hbad | ⟨b, r', hb, rfl, hend⟩ |
      ⟨b, b', w, hb, hb', rfl, hmore⟩
    · rw [hbad] at hrest
      cases hrest
    · rw [hend] at hrest
      cases hrest
      exact ⟨t ++ b, by simp, .last ht hb⟩
    · rw [hmore] at hrest
      obtain ⟨⟨as', r'⟩, hloop, heq⟩ := exists_of_map_ok hrest
      cases heq
      obtain ⟨w, rfl, hw⟩ := ih (fun m hm => hpart m (Nat.lt_succ_of_lt hm)) hloop
      exact ⟨_, by simp, .more ht hb hb' hw⟩

/-- Where the loop gives up, a part is due that cannot be read. -/
theorem sound_tooLong (h : PartReader close part loop)
    (hpart : ∀ m < fuel, ReadsOnly (part m) P)
    (hlong : ∀ m < fuel, GivesUpOnly (part m) Q)
    {s : List Char} (hread : loop fuel s = .error .tooLong) : OverlongParts P Q s := by
  induction fuel generalizing s with
  | zero =>
    rw [h.zero] at hread
    cases hread
  | succ fuel ih =>
    rw [h.succ] at hread
    cases hfirst : part fuel s with
    | error e =>
      rw [hfirst] at hread
      cases hread
      exact .here (hlong fuel (Nat.lt_succ_self _) s hfirst)
    | ok p =>
      obtain ⟨a, u⟩ := p
      rw [hfirst, ok_bind] at hread
      dsimp only at hread
      obtain ⟨t, rfl, ht⟩ := hpart fuel (Nat.lt_succ_self _) _ _ _ hfirst
      rcases afterPart_cases close (loop fuel) a u with hbad | ⟨b, r', hb, rfl, hend⟩ |
        ⟨b, b', w, hb, hb', rfl, hmore⟩
      · rw [hbad] at hread
        cases hread
      · rw [hend] at hread
        cases hread
      · rw [hmore, map_eq_error_iff] at hread
        exact .later ht hb hb' (ih (fun m hm => hpart m (Nat.lt_succ_of_lt hm))
          (fun m hm => hlong m (Nat.lt_succ_of_lt hm)) hread)

/-- Parts of the notation are read up to the bracket, unless one of them is too long. -/
theorem complete (h : PartReader close part loop) (hstart : ∀ t a, P t a → StartsPart t)
    (hpart : ∀ m < fuel, ReadsAll part P m)
    {s : List Char} {as : List α} (hs : Parts P s as) (hfuel : s.length + 1 < fuel)
    (r : List Char) : Reaches (loop fuel (s ++ close :: r)) as r := by
  have hmark : close ∈ [',', ']', '\x7d'] := List.mem_cons_of_mem _ h.close_mem
  induction hs generalizing fuel with
  | @last t b a ht hb =>
    obtain ⟨fuel, rfl⟩ := Nat.exists_eq_succ_of_ne_zero (by omega : fuel ≠ 0)
    simp only [List.length_append] at hfuel
    rw [List.append_assoc, h.succ]
    rcases hpart fuel (Nat.lt_succ_self _) t a _ ht (not_goesOn_append hb hmark r) (by omega) with
      hread | hread
    · rw [hread, ok_bind, h.afterPart_close hb]
      exact Or.inl rfl
    · rw [hread]
      exact Or.inr rfl
  | @more t b b' s a as ht hb hb' hs ih =>
    obtain ⟨fuel, rfl⟩ := Nat.exists_eq_succ_of_ne_zero (by omega : fuel ≠ 0)
    simp only [List.length_append, List.length_cons] at hfuel
    simp only [List.append_assoc, List.cons_append]
    rw [h.succ]
    rcases hpart fuel (Nat.lt_succ_self _) t a _ ht
      (not_goesOn_append hb List.mem_cons_self (b' ++ (s ++ close :: r))) (by omega) with
      hread | hread
    · obtain ⟨c, u, rfl, -⟩ := hstart t a ht
      rw [List.length_cons] at hfuel
      have hskip := (hs.starts hstart).skipBlanks_append hb' (close :: r)
      rw [hread, ok_bind, h.afterPart_comma hb, hskip]
      exact (ih (fun m hm => hpart m (Nat.lt_succ_of_lt hm)) (by omega)).map _
    · rw [hread]
      exact Or.inr rfl

/-- Where a part is due that cannot be read, the loop gives up. -/
theorem complete_tooLong (h : PartReader close part loop) (hstart : ∀ t a, P t a → StartsPart t)
    (hlongStart : ∀ s, Q s → StartsPart s)
    (hpart : ∀ m < fuel, ReadsAll part P m)
    (hlong : ∀ m < fuel, GivesUpOn part Q m)
    {s : List Char} (hs : OverlongParts P Q s) (hfuel : 2 * s.length + 1 < fuel) :
    loop fuel s = .error .tooLong := by
  induction hs generalizing fuel with
  | @here s hs =>
    obtain ⟨fuel, rfl⟩ := Nat.exists_eq_succ_of_ne_zero (by omega : fuel ≠ 0)
    rw [h.succ, hlong fuel (Nat.lt_succ_self _) s hs (by omega)]
    rfl
  | @later t b b' s a ht hb hb' hs ih =>
    obtain ⟨fuel, rfl⟩ := Nat.exists_eq_succ_of_ne_zero (by omega : fuel ≠ 0)
    simp only [List.length_append, List.length_cons] at hfuel
    rw [h.succ]
    rcases hpart fuel (Nat.lt_succ_self _) t a _ ht
      (not_goesOn_append hb List.mem_cons_self (b' ++ s)) (by omega) with hread | hread
    · have hskip := (hs.starts hstart hlongStart).skipBlanks_append hb' []
      simp only [List.append_nil] at hskip
      rw [hread, ok_bind, h.afterPart_comma hb, hskip,
        ih (fun m hm => hpart m (Nat.lt_succ_of_lt hm)) (fun m hm => hlong m (Nat.lt_succ_of_lt hm))
          (by omega)]
      rfl
    · rw [hread]
      rfl

end PartReader

/-! ## Values -/

theorem entry_sound (hvalue : ReadsOnly (value fuel) Denotes) :
    ReadsOnly (entry fuel) DenotesEntry := by
  intro s r e h
  rcases entry_cases fuel s with hbad | ⟨k, key, u, rfl, hk, hread⟩
  · rw [hbad] at h
    cases h
  · rw [hread] at h
    obtain ⟨⟨v, r'⟩, hv, heq⟩ := exists_of_map_ok h
    cases heq
    obtain ⟨t, rfl, ht⟩ := hvalue _ _ _ hv
    exact ⟨k ++ t, by simp, .mk hk ht⟩

theorem entry_sound_tooLong (hvalue : GivesUpOnly (value fuel) Overlong) :
    GivesUpOnly (entry fuel) OverlongEntry := by
  intro s h
  rcases entry_cases fuel s with hbad | ⟨k, key, u, rfl, hk, hread⟩
  · rw [hbad] at h
    cases h
  · rw [hread, map_eq_error_iff] at h
    exact .mk hk (hvalue u h)

/-- What is read as a value is JSON for it. -/
theorem value_sound (fuel : Nat) : ReadsOnly (value fuel) Denotes := by
  induction fuel using Nat.strongRecOn with
  | _ fuel ih =>
    intro s r v h
    cases fuel with
    | zero => cases h
    | succ fuel =>
      have hvalue : ∀ m < fuel, ReadsOnly (value m) Denotes :=
        fun m hm => ih m (Nat.lt_succ_of_lt hm)
      have hstep := valueStep fuel s
      generalize value (fuel + 1) s = x at h hstep
      cases hstep with
      | string u =>
        obtain ⟨⟨ns, r'⟩, hstring, heq⟩ := exists_of_map_ok h
        cases heq
        obtain ⟨body, rfl, hbody⟩ := stringBody_of_stringRest hstring
        exact ⟨_, by simp, .string hbody⟩
      | @emptyList b hb r =>
        cases h
        exact ⟨_, by simp, .emptyList hb⟩
      | @list b hb u =>
        obtain ⟨⟨vs, r'⟩, hitems, heq⟩ := exists_of_map_ok h
        cases heq
        obtain ⟨t, rfl, ht⟩ := partReader_items.sound hvalue hitems
        exact ⟨_, by simp, .list hb ht⟩
      | @emptyObject b hb r =>
        cases h
        exact ⟨_, by simp, .emptyObject hb⟩
      | @object b hb u =>
        obtain ⟨⟨es, r'⟩, hentries, heq⟩ := exists_of_map_ok h
        cases heq
        obtain ⟨t, rfl, ht⟩ := partReader_entries.sound
          (fun m hm => entry_sound (hvalue m hm)) hentries
        exact ⟨_, by simp, .object hb ht⟩
      | simple =>
        rcases simple_cases s with ⟨w, hw, u, rfl, hread⟩ | hread
        · rw [hread] at h
          cases h
          exact ⟨w.1, rfl, .word hw⟩
        · rw [hread] at h
          obtain ⟨t, rfl, ht⟩ := numberText_of_number h
          exact ⟨t, rfl, .number ht⟩

/-- Where the reader gives up, an integer of too many digits stands. -/
theorem value_sound_tooLong (fuel : Nat) : GivesUpOnly (value fuel) Overlong := by
  induction fuel using Nat.strongRecOn with
  | _ fuel ih =>
    intro s h
    cases fuel with
    | zero => cases h
    | succ fuel =>
      have hlong : ∀ m < fuel, GivesUpOnly (value m) Overlong :=
        fun m hm => ih m (Nat.lt_succ_of_lt hm)
      have hstep := valueStep fuel s
      generalize value (fuel + 1) s = x at h hstep
      cases hstep with
      | string u =>
        rw [map_eq_error_iff] at h
        exact (stringRest_ne_tooLong u h).elim
      | emptyList => cases h
      | list hb u =>
        rw [map_eq_error_iff] at h
        exact .list hb (partReader_items.sound_tooLong (fun m _ => value_sound m) hlong h)
      | emptyObject => cases h
      | object hb u =>
        rw [map_eq_error_iff] at h
        exact .object hb (partReader_entries.sound_tooLong
          (fun m _ => entry_sound (value_sound m))
          (fun m hm => entry_sound_tooLong (hlong m hm)) h)
      | simple =>
        rcases simple_cases s with ⟨w, hw, u, rfl, hread⟩ | hread
        · rw [hread] at h
          cases h
        · rw [hread] at h
          exact .number (number_eq_tooLong_iff.mp h)

theorem DenotesEntry.starts (t : List Char) (e : Value × Value) (h : DenotesEntry t e) :
    StartsPart t := by
  cases h with
  | mk hk _ => exact hk.starts _

theorem OverlongEntry.starts (s : List Char) (h : OverlongEntry s) : StartsPart s := by
  cases h with
  | mk hk _ => exact hk.starts _

theorem entry_complete (hvalue : ReadsAll value Denotes fuel) :
    ReadsAll entry DenotesEntry fuel := by
  intro t e r h hr hfuel
  cases h with
  | @mk k t key v hk ht =>
    rw [List.length_append] at hfuel
    rw [List.append_assoc, entry_key hk ht.starts]
    exact (hvalue t v r ht hr (by omega)).map _

theorem entry_tooLong (hvalue : GivesUpOn value Overlong fuel) :
    GivesUpOn entry OverlongEntry fuel := by
  intro s h hfuel
  cases h with
  | @mk k s key hk hs =>
    have hread : entry fuel (k ++ (s ++ [])) = _ := entry_key hk hs.starts []
    rw [List.length_append] at hfuel
    rw [List.append_nil] at hread
    rw [hread, hvalue s hs (by omega)]
    rfl

/-- JSON for a value is read as it, unless something in it is too long. -/
theorem value_complete (fuel : Nat) : ReadsAll value Denotes fuel := by
  induction fuel using Nat.strongRecOn with
  | _ fuel ih =>
    intro t v r h hr hfuel
    obtain ⟨fuel, rfl⟩ := Nat.exists_eq_succ_of_ne_zero (by omega : fuel ≠ 0)
    have hvalue : ∀ m < fuel, ReadsAll value Denotes m := fun m hm => ih m (Nat.lt_succ_of_lt hm)
    cases h with
    | @word w hw =>
      rw [value_simple (by simpa using startsSimple_word hw []), simple_word hw]
      exact Or.inl rfl
    | number h =>
      have hread := h.number_append hr
      obtain ⟨minus, c, u, rfl, hc⟩ := h.head
      rw [value_simple (startsSimple_number minus hc u)]
      rw [List.append_assoc, List.cons_append] at hread ⊢
      rw [simple_minusSign hc]
      exact hread
    | string h =>
      rw [List.cons_append, List.append_assoc, List.singleton_append, value_string,
        h.stringRest_append]
      exact Or.inl rfl
    | emptyList hb =>
      rw [List.cons_append, List.append_assoc, List.singleton_append, value_emptyList hb]
      exact Or.inl rfl
    | list hb hs =>
      simp only [List.length_cons, List.length_append, List.length_nil] at hfuel
      simp only [List.cons_append, List.append_assoc, List.nil_append]
      rw [value_list hb (hs.starts fun _ _ => Denotes.starts)]
      exact (partReader_items.complete (fun _ _ => Denotes.starts) hvalue hs (by omega) r).map _
    | emptyObject hb =>
      rw [List.cons_append, List.append_assoc, List.singleton_append, value_emptyObject hb]
      exact Or.inl rfl
    | object hb hs =>
      simp only [List.length_cons, List.length_append, List.length_nil] at hfuel
      simp only [List.cons_append, List.append_assoc, List.nil_append]
      rw [value_object hb (hs.starts DenotesEntry.starts)]
      exact (partReader_entries.complete DenotesEntry.starts
        (fun m hm => entry_complete (hvalue m hm)) hs (by omega) r).map
          fun es => Value.map none (Assoc.ofEntries es)

/-- Where an integer of too many digits stands, the reader gives up. -/
theorem value_tooLong (fuel : Nat) : GivesUpOn value Overlong fuel := by
  induction fuel using Nat.strongRecOn with
  | _ fuel ih =>
    intro s h hfuel
    obtain ⟨fuel, rfl⟩ := Nat.exists_eq_succ_of_ne_zero (by omega : fuel ≠ 0)
    have hlong : ∀ m < fuel, GivesUpOn value Overlong m := fun m hm => ih m (Nat.lt_succ_of_lt hm)
    cases h with
    | number h =>
      have hread := number_eq_tooLong_iff.mpr h
      obtain ⟨minus, c, u, rfl, hc⟩ := h.head
      have hvalue : value (fuel + 1) (minusSign minus ++ c :: u ++ []) = _ :=
        value_simple (startsSimple_number minus hc u) []
      rw [List.append_nil] at hvalue
      rw [hvalue, simple_minusSign hc, hread]
    | @list b s hb hs =>
      have hstarts := hs.starts (fun _ _ => Denotes.starts) fun _ => Overlong.starts
      have hvalue : value (fuel + 1) ('[' :: (b ++ (s ++ []))) = _ := value_list hb hstarts []
      simp only [List.length_cons, List.length_append] at hfuel
      rw [List.append_nil] at hvalue
      rw [hvalue, partReader_items.complete_tooLong (fun _ _ => Denotes.starts)
        (fun _ => Overlong.starts) (fun m _ => value_complete m) hlong hs (by omega)]
      rfl
    | @object b s hb hs =>
      have hstarts := hs.starts DenotesEntry.starts OverlongEntry.starts
      have hvalue : value (fuel + 1) ('\x7b' :: (b ++ (s ++ []))) = _ := value_object hb hstarts []
      simp only [List.length_cons, List.length_append] at hfuel
      rw [List.append_nil] at hvalue
      rw [hvalue, partReader_entries.complete_tooLong DenotesEntry.starts OverlongEntry.starts
        (fun m _ => entry_complete (value_complete m)) (fun m hm => entry_tooLong (hlong m hm)) hs
        (by omega)]
      rfl

/-! ## Texts -/

/-- **What the reader of JSON gives up on.** It is exactly the texts in which an integer of too many
digits stands where a value is due. -/
theorem read_eq_tooLong_iff {text : String} :
    read text = .error .tooLong ↔ IsOverlong text := by
  obtain ⟨b, hb, htext⟩ := blanks_append_skipBlanks text.toList
  have hlength : 2 * (skipBlanks text.toList).length < 2 * text.toList.length + 1 := by
    have := congrArg List.length htext
    rw [List.length_append] at this
    omega
  constructor
  · intro h
    refine ⟨b, skipBlanks text.toList, htext, hb,
      value_sound_tooLong (2 * text.toList.length + 1) _ ?_⟩
    rw [read] at h
    cases hvalue : value (2 * text.toList.length + 1) (skipBlanks text.toList) with
    | error e =>
      rw [hvalue] at h
      cases h
      rfl
    | ok p =>
      rw [hvalue, ok_bind] at h
      dsimp only at h
      split at h <;> cases h
  · rintro ⟨b', s, htext', hb', hs⟩
    have hskip := hs.starts.skipBlanks_append hb' []
    simp only [List.append_nil] at hskip
    rw [← htext'] at hskip
    rw [hskip] at hlength
    rw [read, hskip, value_tooLong _ s hs hlength]
    rfl

theorem skipBlanks_of_blanks (hb : Blanks b) : skipBlanks b = [] := by
  rw [← List.append_nil b, skipBlanks, List.dropWhile_append_of_pos hb]
  rfl

/-- **What the reader of JSON reads.** It is exactly the texts that are JSON for the value, as long
as no integer in them has too many digits. -/
theorem read_eq_ok_iff {text : String} {v : Value} :
    read text = .ok v ↔ IsText text v ∧ ¬ IsOverlong text := by
  constructor
  · intro h
    refine ⟨?_, fun hlong => ?_⟩
    · obtain ⟨⟨w, rest⟩, hvalue, hread⟩ := exists_of_bind_ok h
      dsimp only at hread
      split at hread
      · next hend =>
        cases hread
        obtain ⟨b, hb, htext⟩ := blanks_append_skipBlanks text.toList
        obtain ⟨b', hb', hrest⟩ := blanks_append_skipBlanks rest
        obtain ⟨t, ht, hdenotes⟩ := value_sound _ _ _ _ hvalue
        rw [List.isEmpty_iff.mp hend, List.append_nil] at hrest
        exact ⟨b, t, b', by rw [htext, ht, hrest], hb, hb', hdenotes⟩
      · cases hread
    · rw [read_eq_tooLong_iff.mpr hlong] at h
      cases h
  · rintro ⟨⟨b, t, b', htext, hb, hb', ht⟩, hlong⟩
    have hskip := ht.starts.skipBlanks_append hb b'
    rw [← htext] at hskip
    have hlength : t.length < 2 * text.toList.length + 1 := by
      rw [htext, List.length_append, List.length_append]
      omega
    rcases value_complete _ t v b' ht (not_goesOn_blanks hb') hlength with hread | hread
    · rw [read, hskip, hread, ok_bind]
      simp [skipBlanks_of_blanks hb']
      rfl
    · refine (hlong (read_eq_tooLong_iff.mp ?_)).elim
      rw [read, hskip, hread]
      rfl

/-- A list that a text denotes starts with its bracket, and occurs once. -/
theorem Denotes.of_list {t : List Char} {l : Option Label} {vs : List Value}
    (h : Denotes t (.list l vs)) : l = none ∧ '[' ∈ t := by
  generalize hv : Value.list l vs = v at h
  cases h with
  | word hw =>
    simp only [words, List.mem_cons, List.not_mem_nil, or_false] at hw
    rcases hw with rfl | rfl | rfl | rfl | rfl | rfl <;> cases hv
  | number h => cases h <;> cases hv
  | string h =>
    unfold ofUnits at hv
    split at hv <;> cases hv
  | emptyList _ =>
    cases hv
    exact ⟨rfl, List.mem_cons_self⟩
  | list _ _ =>
    cases hv
    exact ⟨rfl, List.mem_cons_self⟩
  | emptyObject _ => cases hv
  | object _ _ => cases hv

theorem IsText.of_list {text : String} {l : Option Label} {vs : List Value}
    (h : IsText text (.list l vs)) : l = none ∧ '[' ∈ text.toList := by
  obtain ⟨b, t, b', htext, -, -, ht⟩ := h
  refine ⟨ht.of_list.1, ?_⟩
  rw [htext]
  simp [ht.of_list.2]

/-- For a text that can be read, fuel for each character is enough. -/
theorem value_of_read {text : String} {v : Value} (h : read text = .ok v) :
    ∃ rest, value (text.toList.length + 1) (skipBlanks text.toList) = .ok (v, rest) ∧
      skipBlanks rest = [] := by
  obtain ⟨⟨b, t, b', htext, hb, hb', ht⟩, hlong⟩ := read_eq_ok_iff.mp h
  have hskip := ht.starts.skipBlanks_append hb b'
  rw [← htext] at hskip
  have hlength : t.length < text.toList.length + 1 := by
    rw [htext, List.length_append, List.length_append]
    omega
  rcases value_complete _ t v b' ht (not_goesOn_blanks hb') hlength with hread | hread
  · exact ⟨b', by rw [hskip, hread], skipBlanks_of_blanks hb'⟩
  · exact (hlong ⟨b, t ++ b', htext, hb, value_sound_tooLong _ _ hread⟩).elim

end Json

end AnnotatedApi
