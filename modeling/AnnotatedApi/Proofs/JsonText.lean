/-
  JSON that is written and read back. Every reader of the notation is run on what its writer gives,
  with any rest behind it that does not go on with a number: strings (`stringRest_stringText`),
  integers (`simple_decimalInt`), and by one induction over values, items and entries, whole values
  (`readAs_valueText`). The fuel of the reader is more than the text it reads, which is enough,
  because every step down or forward passes a character.

  Main statement: a document that is written to a file of this format is valid JSON for that
  document, so its text in brackets is read as the list of it (`parse_dump`).
-/
import AnnotatedApi.Annotation.Security
import AnnotatedApi.Document.File
import AnnotatedApi.Proofs.JsonLexemes
import AnnotatedApi.Proofs.PlainValues

namespace AnnotatedApi

namespace Text

theorem not_isHigh_toNat (c : Char) : isHigh c.toNat = false := by
  have hvalid : c.toNat < 0xD800 ∨ 0xDFFF < c.toNat := by
    rcases c.valid with h | h
    · exact Or.inl h
    · exact Or.inr h.1
  simp only [isHigh, Bool.and_eq_false_iff, decide_eq_false_iff_not]
  omega

/-- Characters are no halves, so there is nothing to join. -/
theorem joinPairs_toNat (s : List Char) : joinPairs (s.map Char.toNat) = s.map Char.toNat := by
  induction s with
  | nil => rfl
  | cons c s ih =>
    cases s with
    | nil => rfl
    | cons d s =>
      simp only [List.map_cons] at ih ⊢
      simp [joinPairs, not_isHigh_toNat, ih]

theorem isValidChar_toNat (c : Char) : c.toNat.isValidChar := c.valid

end Text

namespace Json

/-! ## Strings -/

theorem ofUnits_toNat (s : List Char) : ofUnits (s.map Char.toNat) = .str (String.ofList s) := by
  have hall : ((s.map Char.toNat).all fun n => decide n.isValidChar) = true := by
    simp only [List.all_map, List.all_eq_true, Function.comp_apply, decide_eq_true_eq]
    exact fun c _ => Text.isValidChar_toNat c
  have hchars : (s.map Char.toNat).map Char.ofNat = s := by
    simp [List.map_map, Function.comp_def, Char.ofNat_toNat]
  simp only [ofUnits, Text.joinPairs_toNat, Text.ofPoints?, hall, if_true, hchars]

theorem hexUnit?_hexPadded : ∀ n, n < 32 → ∃ a b c d, Text.hexPadded false 4 n = [a, b, c, d] ∧
    hexUnit? a b c d = some n := by
  intro n hn
  have hlen := Text.length_hexPadded false (by decide) (show n < 16 ^ 4 by omega)
  have hval := Text.mapM_hexValue?_hexPadded false 4 n
  generalize Text.hexPadded false 4 n = ds at hlen hval
  match ds, hlen with
  | [a, b, c, d], _ =>
    refine ⟨a, b, c, d, rfl, ?_⟩
    simpa [hexUnit?, Option.map_eq_bind, Option.bind_assoc] using hval

theorem stringRest_escapedChar (c : Char) (r : List Char) :
    stringRest (escapedChar c ++ r) = withPoint c.toNat (stringRest r) := by
  unfold escapedChar
  split
  · subst_vars; exact stringRest_escape rfl r
  split
  · subst_vars; exact stringRest_escape rfl r
  split
  · subst_vars; exact stringRest_escape rfl r
  split
  · subst_vars; exact stringRest_escape rfl r
  split
  · subst_vars; exact stringRest_escape rfl r
  split
  · subst_vars; exact stringRest_escape rfl r
  split
  · subst_vars; exact stringRest_escape rfl r
  split
  · next hlt =>
    obtain ⟨a, b, d, e, hhex, hval⟩ := hexUnit?_hexPadded c.toNat hlt
    rw [hhex]
    exact stringRest_unit hval r
  · next hquote hback _ _ _ _ _ hlt => exact stringRest_plain hquote hback hlt r

theorem stringRest_stringText (s r : List Char) :
    stringRest (s.flatMap escapedChar ++ '"' :: r) = .ok (s.map Char.toNat, r) := by
  induction s with
  | nil => simp [stringRest]
  | cons c s ih =>
    rw [List.flatMap_cons, List.append_assoc, stringRest_escapedChar, ih]
    rfl

/-! ## Integers -/

/-- What follows a number does not go on with it. -/
def Stops (r : List Char) : Prop := ∀ c ∈ r.head?, c = ',' ∨ c = '\n'

theorem stops_newLine (level : Nat) (r : List Char) : Stops (newLine level ++ r) := by
  simp [Stops, newLine]

variable {r : List Char}

theorem Stops.not_goesOn (h : Stops r) : ¬ GoesOn r := by
  cases r with
  | nil => exact nofun
  | cons c r =>
    apply not_goesOn_cons
    rcases h c rfl with rfl | rfl
    · exact Or.inr List.mem_cons_self
    · exact Or.inl rfl

theorem unsigned_decimal (minus : Bool) {n : Nat} (hn : n < 10 ^ Numeral.digitLimit)
    (hr : Stops r) :
    unsigned minus (Text.decimal n ++ r) = .ok (.int (if minus then -(n : Int) else n), r) := by
  have hlength : ¬ Numeral.digitLimit < (Text.decimal n).length :=
    Nat.not_lt.mpr ((Text.length_decimal_le_iff n).mpr hn)
  rw [unsigned_integer minus (whole_decimal n) hr.not_goesOn, if_neg hlength, integerValue,
    wholeValue, Text.ofDigits_decimal]

theorem simple_decimalInt {n : Int} (hn : Value.writable n = true) (hr : Stops r) :
    simple (Text.decimalInt n ++ r) = .ok (.int n, r) := by
  have hlt := (Value.writable_iff n).mp hn
  cases n with
  | ofNat n =>
    obtain ⟨c, s, hs⟩ := List.exists_cons_of_ne_nil (Text.decimal_ne_nil n)
    have hc : Text.isAsciiDigit c = true :=
      Text.isAsciiDigit_of_mem_decimal (n := n) (by rw [hs]; exact List.mem_cons_self)
    have hminus : c ≠ '-' := by rintro rfl; exact absurd hc (by decide)
    have hread := unsigned_decimal false (n := n) hlt hr
    rw [Text.decimalInt]
    rw [hs, List.cons_append] at hread ⊢
    rw [(simple_of_digit hc).1, number]
    · exact hread
    · intro t h
      exact hminus (List.cons.inj h).1
  | negSucc n =>
    obtain ⟨c, s, hs⟩ := List.exists_cons_of_ne_nil (Text.decimal_ne_nil (n + 1))
    have hc : Text.isAsciiDigit c = true :=
      Text.isAsciiDigit_of_mem_decimal (n := n + 1) (by rw [hs]; exact List.mem_cons_self)
    have hread := unsigned_decimal true (n := n + 1) hlt hr
    rw [Text.decimalInt]
    rw [hs, List.cons_append] at hread
    rw [hs, List.cons_append, List.cons_append, (simple_of_digit hc).2, number]
    exact hread

/-! ## Values -/

/-- A text starts with neither a blank nor the end of a list. -/
def StartsValue (s : List Char) : Prop :=
  ∃ c t, s = c :: t ∧ isBlank c = false ∧ c ≠ ']'

theorem skipBlanks_newLine (level : Nat) {s : List Char} {c : Char} (hc : isBlank c = false) :
    skipBlanks (newLine level ++ c :: s) = c :: s := by
  have hblank : ∀ d ∈ newLine level, isBlank d = true := by
    intro d hd
    simp only [newLine, List.mem_cons, List.mem_replicate] at hd
    rcases hd with rfl | ⟨-, rfl⟩ <;> decide
  rw [skipBlanks, List.dropWhile_append_of_pos hblank]
  simp [hc]

theorem StartsValue.skipBlanks {s : List Char} (h : StartsValue s) (level : Nat) (r : List Char) :
    skipBlanks (newLine level ++ (s ++ r)) = s ++ r := by
  obtain ⟨c, t, rfl, hc, -⟩ := h
  exact skipBlanks_newLine level hc

theorem startsValue_decimalInt (n : Int) : StartsValue (Text.decimalInt n) := by
  have hdigit : ∀ c, Text.isAsciiDigit c = true → isBlank c = false ∧ c ≠ ']' := by
    intro c hc
    refine ⟨?_, by rintro rfl; exact absurd hc (by decide)⟩
    simp only [isBlank, Bool.or_eq_false_iff, decide_eq_false_iff_not]
    refine ⟨⟨⟨?_, ?_⟩, ?_⟩, ?_⟩ <;> (rintro rfl; exact absurd hc (by decide))
  cases n with
  | ofNat n =>
    obtain ⟨c, s, hs⟩ := List.exists_cons_of_ne_nil (Text.decimal_ne_nil n)
    refine ⟨c, s, hs, hdigit c (Text.isAsciiDigit_of_mem_decimal (n := n) ?_)⟩
    rw [hs]
    exact List.mem_cons_self
  | negSucc n => exact ⟨'-', _, rfl, rfl, by decide⟩

theorem integerText_of_writable {n : Int} (h : Value.writable n = true) :
    integerText n = .ok (Text.decimalInt n) := by
  rw [integerText, if_pos h]

/-- The text `s` is read as the value `w`, whatever follows it. -/
def ReadAs (s : List Char) (w : Value) : Prop :=
  StartsValue s ∧ ∀ fuel r, s.length < fuel → Stops r → value fuel (s ++ r) = .ok (w, r)

theorem readAs_of_simple {s : List Char} {w : Value} (hstart : StartsValue s)
    (hhead : ∀ c ∈ s.head?, c ≠ '"' ∧ c ≠ '[' ∧ c ≠ '\x7b')
    (hread : ∀ r, Stops r → simple (s ++ r) = .ok (w, r)) : ReadAs s w := by
  refine ⟨hstart, ?_⟩
  intro fuel r hfuel hr
  obtain ⟨c, t, rfl, -, -⟩ := hstart
  obtain ⟨hquote, hlist, hmap⟩ := hhead c rfl
  cases fuel with
  | zero => omega
  | succ fuel =>
    rw [← hread r hr, List.cons_append, value]
    · exact fun u h => hquote (List.cons.inj h).1
    · exact fun u h => hlist (List.cons.inj h).1
    · exact fun u h => hmap (List.cons.inj h).1

theorem readAs_decimalInt {n : Int} (hn : Value.writable n = true) :
    ReadAs (Text.decimalInt n) (.int n) := by
  refine readAs_of_simple (startsValue_decimalInt n) ?_ fun r hr => simple_decimalInt hn hr
  have hdigit : ∀ c, Text.isAsciiDigit c = true → c ≠ '"' ∧ c ≠ '[' ∧ c ≠ '\x7b' := by
    intro c hc
    refine ⟨?_, ?_, ?_⟩ <;> (rintro rfl; exact absurd hc (by decide))
  intro c hc
  cases n with
  | ofNat n => exact hdigit c (Text.isAsciiDigit_of_mem_decimal (List.mem_of_head? hc))
  | negSucc n =>
    cases hc
    decide

theorem readAs_stringText (s : List Char) : ReadAs (stringText s) (.str (String.ofList s)) := by
  refine ⟨⟨'"', _, rfl, rfl, by decide⟩, ?_⟩
  intro fuel r hfuel hr
  cases fuel with
  | zero => omega
  | succ fuel =>
    have htext : stringText s ++ r = '"' :: (s.flatMap escapedChar ++ '"' :: r) := by
      simp [stringText]
    rw [htext, value, stringRest_stringText]
    simp [ofUnits_toNat]

/-! ## Lists and mappings -/

/-- The items behind the first, which is read as `w`. -/
def ItemsReadAs (more : List Char) (ws : List Value) : Prop :=
  ∀ first w, ReadAs first w → ∀ fuel level r, first.length + more.length + 1 < fuel →
    items fuel (first ++ (more ++ (newLine level ++ ']' :: r))) = .ok (w :: ws, r)

theorem itemsReadAs_nil : ItemsReadAs [] [] := by
  intro first w hfirst fuel level r hfuel
  cases fuel with
  | zero => omega
  | succ fuel =>
    simp only [List.length_nil] at hfuel
    have hread := hfirst.2 fuel (newLine level ++ ']' :: r) (by omega) (stops_newLine level _)
    have hend : skipBlanks (newLine level ++ ']' :: r) = ']' :: r :=
      skipBlanks_newLine level (by decide)
    rw [List.nil_append, items, hread]
    simp only [ok_bind, hend]
    rfl

theorem itemsReadAs_cons {level : Nat} {first more : List Char} {w : Value} {ws : List Value}
    (hfirst : ReadAs first w) (hmore : ItemsReadAs more ws) :
    ItemsReadAs (',' :: (newLine level ++ first ++ more)) (w :: ws) := by
  intro before u hbefore fuel close r hfuel
  cases fuel with
  | zero => omega
  | succ fuel =>
    simp only [List.length_cons, List.length_append] at hfuel
    have hread := hbefore.2 fuel
      (',' :: (newLine level ++ (first ++ (more ++ (newLine close ++ ']' :: r))))) (by omega)
      (by simp [Stops])
    have hnext := hmore first w hfirst fuel close r (by omega)
    have htext : ',' :: (newLine level ++ first ++ more) ++ (newLine close ++ ']' :: r) =
        ',' :: (newLine level ++ (first ++ (more ++ (newLine close ++ ']' :: r)))) := by simp
    have hcomma : ∀ t, skipBlanks (',' :: t) = ',' :: t := fun _ => rfl
    rw [htext, items, hread]
    simp only [ok_bind, hcomma, hfirst.1.skipBlanks, hnext]
    rfl

/-- The entries behind the first, whose key is `name` and whose value is read as `w`. -/
def EntriesReadAs (more : List Char) (es : List (Value × Value)) : Prop :=
  ∀ name first w, ReadAs first w → ∀ fuel level r, first.length + more.length + 1 < fuel →
    entries fuel (stringText name ++ ':' :: ' ' :: (first ++
      (more ++ (newLine level ++ '\x7d' :: r)))) = .ok ((.str (String.ofList name), w) :: es, r)

/-- The first entry is read up to its end. -/
theorem entries_stringText {name first rest : List Char} {w : Value} {fuel : Nat}
    (hfirst : ReadAs first w) (hfuel : first.length < fuel) (hrest : Stops rest) :
    entries (fuel + 1) (stringText name ++ ':' :: ' ' :: (first ++ rest)) =
      match skipBlanks rest with
      | '\x7d' :: rest => .ok ([(.str (String.ofList name), w)], rest)
      | ',' :: rest => do
        let (es, rest) ← entries fuel (skipBlanks rest)
        return ((.str (String.ofList name), w) :: es, rest)
      | _ => .error .malformed := by
  have htext : stringText name ++ ':' :: ' ' :: (first ++ rest) =
      '"' :: (name.flatMap escapedChar ++ '"' :: ':' :: ' ' :: (first ++ rest)) := by
    simp [stringText]
  have hcolon : skipBlanks (':' :: ' ' :: (first ++ rest)) = ':' :: ' ' :: (first ++ rest) := rfl
  have hspace : skipBlanks (' ' :: (first ++ rest)) = first ++ rest := by
    obtain ⟨c, t, rfl, hc, -⟩ := hfirst.1
    simp [skipBlanks, show isBlank ' ' = true from rfl, hc]
  rw [htext, entries, stringRest_stringText]
  simp only [ok_bind, hcolon, hspace, hfirst.2 fuel rest hfuel hrest, ofUnits_toNat]
  rfl

theorem entriesReadAs_nil : EntriesReadAs [] [] := by
  intro name first w hfirst fuel level r hfuel
  cases fuel with
  | zero => omega
  | succ fuel =>
    simp only [List.length_nil] at hfuel
    rw [List.nil_append, entries_stringText hfirst (by omega) (stops_newLine level _),
      skipBlanks_newLine level (by decide)]
    rfl

theorem entriesReadAs_cons {level : Nat} {name first more : List Char} {w : Value}
    {es : List (Value × Value)} (hfirst : ReadAs first w) (hmore : EntriesReadAs more es) :
    EntriesReadAs (',' :: (newLine level ++ stringText name ++ ':' :: ' ' :: first ++ more))
      ((.str (String.ofList name), w) :: es) := by
  intro before text u htext fuel close r hfuel
  cases fuel with
  | zero => omega
  | succ fuel =>
    simp only [List.length_cons, List.length_append] at hfuel
    have hnext := hmore name first w hfirst fuel close r (by omega)
    have heq : ',' :: (newLine level ++ stringText name ++ ':' :: ' ' :: first ++ more) ++
        (newLine close ++ '\x7d' :: r) = ',' :: (newLine level ++ (stringText name ++
          (':' :: ' ' :: (first ++ (more ++ (newLine close ++ '\x7d' :: r)))))) := by simp
    rw [heq, entries_stringText htext (by omega) (by simp [Stops])]
    have hcomma : ∀ t, skipBlanks (',' :: t) = ',' :: t := fun _ => rfl
    simp only [hcomma, (readAs_stringText name).1.skipBlanks, hnext]
    rfl

theorem readAs_list {level : Nat} {first more : List Char} {w : Value} {ws : List Value}
    (hfirst : ReadAs first w) (hmore : ItemsReadAs more ws) :
    ReadAs ('[' :: (newLine (level + 1) ++ first ++ more ++ newLine level ++ [']']))
      (.list none (w :: ws)) := by
  refine ⟨⟨'[', _, rfl, rfl, by decide⟩, ?_⟩
  intro fuel r hfuel _
  cases fuel with
  | zero => omega
  | succ fuel =>
    simp only [List.length_cons, List.length_append] at hfuel
    have hread := hmore first w hfirst fuel level r (by omega)
    have htext : '[' :: (newLine (level + 1) ++ first ++ more ++ newLine level ++ [']']) ++ r =
        '[' :: (newLine (level + 1) ++ (first ++ (more ++ (newLine level ++ ']' :: r)))) := by
      simp
    have hskip := hfirst.1.skipBlanks (level + 1) (more ++ (newLine level ++ ']' :: r))
    obtain ⟨c, t, rfl, -, hc⟩ := hfirst.1
    rw [htext, value, hskip]
    split
    · next h => exact absurd (List.cons.inj h).1 hc
    · rw [hread]
      rfl

theorem readAs_map {level : Nat} {name first more : List Char} {w : Value}
    {es : List (Value × Value)} (hfirst : ReadAs first w) (hmore : EntriesReadAs more es)
    (hkeys : (Assoc.keys ((.str (String.ofList name), w) :: es)).Nodup) :
    ReadAs ('\x7b' :: (newLine (level + 1) ++ stringText name ++ ':' :: ' ' :: first ++ more ++
      newLine level ++ ['\x7d'])) (.map none ((.str (String.ofList name), w) :: es)) := by
  refine ⟨⟨'\x7b', _, rfl, rfl, by decide⟩, ?_⟩
  intro fuel r hfuel _
  cases fuel with
  | zero => omega
  | succ fuel =>
    simp only [List.length_cons, List.length_append] at hfuel
    have hread := hmore name first w hfirst fuel level r (by omega)
    have htext : '\x7b' :: (newLine (level + 1) ++ stringText name ++ ':' :: ' ' :: first ++
        more ++ newLine level ++ ['\x7d']) ++ r =
        '\x7b' :: (newLine (level + 1) ++ (stringText name ++
          (':' :: ' ' :: (first ++ (more ++ (newLine level ++ '\x7d' :: r)))))) := by
      simp
    have hskip := (readAs_stringText name).1.skipBlanks (level + 1)
      (':' :: ' ' :: (first ++ (more ++ (newLine level ++ '\x7d' :: r))))
    rw [htext, value, hskip]
    split
    · next h => exact absurd (List.cons.inj h).1 (by decide)
    · simp only [hread, ok_bind, Assoc.ofEntries_of_nodup hkeys]
      rfl

mutual

/-- A plain value is written, and what is written is read as it. -/
theorem readAs_valueText (level : Nat) : (v : Value) →
    (v.isPlain = true → ∃ s, valueText level v = .ok s ∧ ReadAs s v.unlabelled)
  | .null => fun _ =>
    ⟨"null".toList, by rw [valueText],
      readAs_of_simple ⟨'n', "ull".toList, by decide⟩ (fun _ hc => by cases hc; decide)
        fun _ _ => rfl⟩
  | .bool true => fun _ =>
    ⟨"true".toList, by rw [valueText]; rfl,
      readAs_of_simple ⟨'t', "rue".toList, by decide⟩ (fun _ hc => by cases hc; decide)
        fun _ _ => rfl⟩
  | .bool false => fun _ =>
    ⟨"false".toList, by rw [valueText]; rfl,
      readAs_of_simple ⟨'f', "alse".toList, by decide⟩ (fun _ hc => by cases hc; decide)
        fun _ _ => rfl⟩
  | .int n => fun hn => by
    rw [Value.isPlain] at hn
    rw [Value.unlabelled, valueText, integerText_of_writable hn]
    · exact ⟨_, rfl, readAs_decimalInt hn⟩
    all_goals simp
  | .str s => fun _ => by
    have hs := readAs_stringText s.toList
    rw [String.ofList_toList] at hs
    rw [Value.unlabelled, valueText]
    · exact ⟨_, rfl, hs⟩
    all_goals simp
  | .float _ | .illFormed _ | .bytes _ | .date .. | .moment .. | .pair .. | .set .. => fun h => by
    simp [Value.isPlain] at h
  | .list l [] => fun _ => by
    rw [valueText, Value.unlabelled, Value.unlabelledList]
    refine ⟨_, rfl, ⟨'[', _, rfl, rfl, by decide⟩, ?_⟩
    intro fuel r hfuel _
    cases fuel with
    | zero => omega
    | succ fuel => rfl
  | .list l (v :: vs) => fun h => by
    simp only [Value.isPlain, Value.isPlainList, Bool.and_eq_true] at h
    obtain ⟨first, hfirst, hreadFirst⟩ := readAs_valueText (level + 1) v h.1
    obtain ⟨more, hmore, hreadMore⟩ := itemsReadAs_itemTexts (level + 1) vs h.2
    rw [valueText, Value.unlabelled, Value.unlabelledList, hfirst, ok_bind, hmore, ok_bind]
    exact ⟨_, rfl, readAs_list hreadFirst hreadMore⟩
  | .map l [] => fun _ => by
    rw [valueText, Value.unlabelled, Value.unlabelledEntries]
    refine ⟨_, rfl, ⟨'\x7b', _, rfl, rfl, by decide⟩, ?_⟩
    intro fuel r hfuel _
    cases fuel with
    | zero => omega
    | succ fuel => rfl
  | .map l ((k, v) :: es) => fun h => by
    simp only [Value.isPlain, Bool.and_eq_true, decide_eq_true_eq] at h
    obtain ⟨hnodup, hentries⟩ := h
    rw [← Value.keys_unlabelledEntries hentries, Value.unlabelledEntries] at hnodup
    simp only [Value.isPlainEntries, Bool.and_eq_true] at hentries
    obtain ⟨name, rfl⟩ := Value.eq_str_of_isText hentries.1.1
    obtain ⟨first, hfirst, hreadFirst⟩ := readAs_valueText (level + 1) v hentries.1.2
    obtain ⟨more, hmore, hreadMore⟩ := entriesReadAs_entryTexts (level + 1) es hentries.2
    rw [valueText, Value.unlabelled, Value.unlabelledEntries, keyText, ok_bind, hfirst, ok_bind,
      hmore, ok_bind]
    have hread := @readAs_map level name.toList _ _ _ _ hreadFirst hreadMore
    rw [String.ofList_toList] at hread
    exact ⟨_, rfl, hread hnodup⟩

theorem itemsReadAs_itemTexts (level : Nat) : (vs : List Value) →
    (Value.isPlainList vs = true →
      ∃ s, itemTexts level vs = .ok s ∧ ItemsReadAs s (Value.unlabelledList vs))
  | [] => fun _ => by
    rw [itemTexts, Value.unlabelledList]
    exact ⟨_, rfl, itemsReadAs_nil⟩
  | v :: vs => fun h => by
    simp only [Value.isPlainList, Bool.and_eq_true] at h
    obtain ⟨first, hfirst, hreadFirst⟩ := readAs_valueText level v h.1
    obtain ⟨more, hmore, hreadMore⟩ := itemsReadAs_itemTexts level vs h.2
    rw [itemTexts, Value.unlabelledList, hfirst, ok_bind, hmore, ok_bind]
    exact ⟨_, rfl, itemsReadAs_cons hreadFirst hreadMore⟩

theorem entriesReadAs_entryTexts (level : Nat) : (es : List (Value × Value)) →
    (Value.isPlainEntries es = true →
      ∃ s, entryTexts level es = .ok s ∧ EntriesReadAs s (Value.unlabelledEntries es))
  | [] => fun _ => by
    rw [entryTexts, Value.unlabelledEntries]
    exact ⟨_, rfl, entriesReadAs_nil⟩
  | (k, v) :: es => fun h => by
    simp only [Value.isPlainEntries, Bool.and_eq_true] at h
    obtain ⟨name, rfl⟩ := Value.eq_str_of_isText h.1.1
    obtain ⟨first, hfirst, hreadFirst⟩ := readAs_valueText level v h.1.2
    obtain ⟨more, hmore, hreadMore⟩ := entriesReadAs_entryTexts level es h.2
    rw [entryTexts, Value.unlabelledEntries, keyText, ok_bind, hfirst, ok_bind, hmore, ok_bind]
    have hall := @entriesReadAs_cons level name.toList _ _ _ _ hreadFirst hreadMore
    rw [String.ofList_toList] at hall
    exact ⟨_, rfl, hall⟩

end

theorem startsValue_head {s : List Char} (h : StartsValue s) (r : List Char) :
    skipBlanks (s ++ r) = s ++ r := by
  obtain ⟨c, t, rfl, hc, -⟩ := h
  simp [skipBlanks, hc]

/-- A text that is read as a value is that value, with a line break behind it. -/
theorem read_of_readAs {s : List Char} {w : Value} (h : ReadAs s w) :
    read (String.ofList (s ++ ['\n'])) = .ok w := by
  have hfuel : s.length < 2 * (s ++ ['\n']).length + 1 := by
    rw [List.length_append]
    omega
  have hread := h.2 _ ['\n'] hfuel (by simp [Stops])
  rw [read, String.toList_ofList, startsValue_head h.1, hread]
  rfl

/-- In brackets it is the list of that one value. -/
theorem read_bracketed {s : List Char} {w : Value} (h : ReadAs s w) :
    read ("[" ++ String.ofList (s ++ ['\n']) ++ "]") = .ok (.array [w]) := by
  have htext : ("[" ++ String.ofList (s ++ ['\n']) ++ "]").toList = '[' :: (s ++ ['\n', ']']) := by
    simp
  have hitems := itemsReadAs_nil s w h (2 * s.length + 6) 0 [] (by simp; omega)
  have hskip := startsValue_head h.1 ['\n', ']']
  have hvalue : value (2 * s.length + 7) ('[' :: (s ++ ['\n', ']'])) = .ok (.array [w], []) := by
    obtain ⟨c, t, rfl, -, hc⟩ := h.1
    rw [value, hskip]
    split
    · next h => exact absurd (List.cons.inj h).1 hc
    · simp only [newLine, List.nil_append, Nat.mul_zero, List.replicate_zero] at hitems
      rw [List.singleton_append] at hitems
      rw [hitems]
      rfl
  have hblank : skipBlanks ('[' :: (s ++ ['\n', ']'])) = '[' :: (s ++ ['\n', ']']) := rfl
  have hlength : 2 * ('[' :: (s ++ ['\n', ']'])).length + 1 = 2 * s.length + 7 := by
    simp
    omega
  rw [read, htext, hblank, hlength, hvalue]
  rfl

end Json

/-- **The JSON text of a document denotes the document.** A plain value, whatever its depth, is
written to every file whose name does not end as that of a YAML file. The text is JSON for that
value, entries in their order and labels apart, and so is the text in brackets for the list of it:
for a document, which is a mapping, that list is what it is read as in the place of security
requirements. The depth of the interpreter's stack, which a deep value can exceed when it is written
or read, is not modelled. -/
theorem parse_dump (d : Value) (hd : d.isPlain = true) (file : Path)
    (hyaml : file.suffix ≠ ".yaml") (hyml : file.suffix ≠ ".yml") :
    ∃ t, dump d file = .ok t ∧ Json.read t = .ok d.unlabelled ∧
      Json.read ("[" ++ t ++ "]") = .ok (.array [d.unlabelled]) ∧
      (Security.isObject d = true →
        Security.parse ("[" ++ t ++ "]") = pure [d.unlabelled]) := by
  have hformat : Format.ofPath file = .json := by simp [Format.ofPath, hyaml, hyml]
  obtain ⟨s, hs, hread⟩ := Json.readAs_valueText 0 d hd
  have hlist := Json.read_bracketed hread
  refine ⟨String.ofList (s ++ ['\n']), ?_, Json.read_of_readAs hread, hlist, ?_⟩
  · simp only [dump, hformat, render, Json.write, hs, ok_bind]
    rfl
  · intro hobject
    have hall : Security.requirements? (.array [d.unlabelled]) = some [d.unlabelled] := by
      cases d with
      | map l es => simp [Value.array, Security.requirements?, Value.unlabelled, Security.isObject]
      | _ => cases hobject
    simp only [Security.parse, hlist, hall]

/-- A document with texts that need escapes, a long integer and empty containers. -/
def quotedDocument : Value :=
  .object
    [("paths", .object []), ("tags", .array []), ("é\"\\", .str "tab\t\x01 and \u2028"),
     ("x", .array [.int (-100000000000000000000), .null, .object [("", .bool true)]])]

theorem parse_dump_quotedDocument :
    ∃ t, dump quotedDocument (Path.parse "out/api.json") = .ok t ∧
      Security.parse ("[" ++ t ++ "]") = pure [quotedDocument] := by
  have hd : quotedDocument.isPlain = true := by decide +kernel
  obtain ⟨t, ht, -, -, hparse⟩ := parse_dump quotedDocument hd (Path.parse "out/api.json")
    (by decide +kernel) (by decide +kernel)
  exact ⟨t, ht, hparse rfl⟩

end AnnotatedApi
