/-
  The settings block of a description. `cut?` finds the first occurrence of a pattern and no other
  (`Text.cut?_eq_some_iff`), so the block that is taken out is the one behind the first opening
  mark, up to the next closing mark, and all other text stays. What the block says is the mapping
  that its YAML text gives, with the text of each key (`Settings.Loads`) and with the type that it
  declares (`Settings.Settles`); `Settings.ofEntries_of_keyed` and `Settings.keyed_of_ofEntries`
  have both. `extract_first_block` is the statement.
-/
import AnnotatedApi.Proofs.Blanks
import AnnotatedApi.Proofs.References

namespace AnnotatedApi

/-! ## First occurrences -/

namespace Text

/-- The first occurrence of `pat` in `s` stands behind `pre` and in front of `rest`. -/
structure FirstAt (pat pre rest s : List Char) : Prop where
  split : s = pre ++ pat ++ rest
  first : ∀ before after, s = before ++ pat ++ after → pre.length ≤ before.length

variable {pat pre rest s : List Char}

theorem after?_append (pat rest : List Char) : after? pat (pat ++ rest) = some rest := by
  induction pat with
  | nil => rfl
  | cons p pat ih => simp [after?, ih]

theorem after?_eq_some_iff : after? pat s = some rest ↔ s = pat ++ rest :=
  ⟨after?_some, fun h => h ▸ after?_append pat rest⟩

/-- What stands at the front stands there first. -/
theorem firstAt_front (pat rest : List Char) : FirstAt pat [] rest (pat ++ rest) :=
  ⟨rfl, fun _ _ _ => Nat.zero_le _⟩

/-- One more character in front, with which no occurrence starts. -/
theorem FirstAt.cons {c : Char} (h : FirstAt pat pre rest s) (hc : after? pat (c :: s) = none) :
    FirstAt pat (c :: pre) rest (c :: s) := by
  refine ⟨by simp [h.split], fun before after hs => ?_⟩
  cases before with
  | nil =>
    rw [List.nil_append] at hs
    rw [after?_eq_some_iff.mpr hs] at hc
    cases hc
  | cons b before =>
    simp only [List.cons_append, List.cons.injEq] at hs
    exact Nat.succ_le_succ (h.first before after hs.2)

/-- More text in front, without the character that the pattern starts with. -/
theorem FirstAt.prepend {p : Char} {front : List Char} (h : FirstAt (p :: pat) pre rest s)
    (hfront : p ∉ front) : FirstAt (p :: pat) (front ++ pre) rest (front ++ s) := by
  induction front with
  | nil => exact h
  | cons c front ih =>
    rw [List.mem_cons, not_or] at hfront
    exact (ih hfront.2).cons (by simp [after?, hfront.1])

/-- Nothing in front of it has the character that the pattern starts with. -/
theorem firstAt_of_notMem {p : Char} (h : p ∉ pre) (pat rest : List Char) :
    FirstAt (p :: pat) pre rest (pre ++ (p :: pat) ++ rest) := by
  have hprepend := (firstAt_front (p :: pat) rest).prepend h
  rwa [List.append_nil, ← List.append_assoc] at hprepend

theorem FirstAt.of_cons {c : Char} (h : FirstAt pat (c :: pre) rest (c :: s)) :
    FirstAt pat pre rest s := by
  refine ⟨by simpa using h.split, fun before after hs => ?_⟩
  have hlen := h.first (c :: before) after (by simp [hs])
  simpa using hlen

theorem cut?_eq_some_iff : cut? pat s = some (pre, rest) ↔ FirstAt pat pre rest s := by
  induction s generalizing pre with
  | nil =>
    unfold cut?
    constructor
    · intro h
      split at h
      · next hpat =>
        cases h
        obtain rfl := List.isEmpty_iff.mp hpat
        exact firstAt_front [] []
      · cases h
    · intro h
      have hall : pre = [] ∧ pat = [] ∧ rest = [] := by simpa [and_assoc] using h.split
      obtain ⟨rfl, rfl, rfl⟩ := hall
      rfl
  | cons c s ih =>
    unfold cut?
    cases hc : after? pat (c :: s) with
    | some rest' =>
      have hs := after?_some hc
      constructor
      · rintro h
        cases h
        rw [hs]
        exact firstAt_front pat rest
      · intro h
        have hnil : pre = [] := by
          have hlen := h.first [] rest' hs
          exact List.length_eq_zero_iff.mp (by simpa using hlen)
        subst hnil
        have hrest : rest' = rest := List.append_cancel_left (hs.symm.trans h.split)
        simp [hrest]
    | none =>
      constructor
      · intro h
        simp only [Option.map_eq_some_iff, Prod.exists, Prod.mk.injEq] at h
        obtain ⟨before, rest', hcut, rfl, rfl⟩ := h
        exact (ih.mp hcut).cons hc
      · intro h
        cases pre with
        | nil =>
          have hsplit : c :: s = pat ++ rest := h.split
          rw [after?_eq_some_iff.mpr hsplit] at hc
          cases hc
        | cons b pre =>
          obtain rfl : c = b := by
            have hsplit := h.split
            simp only [List.cons_append, List.cons.injEq] at hsplit
            exact hsplit.1
          simp [ih.mpr h.of_cons]

theorem cut?_eq_none_iff : cut? pat s = none ↔ ¬ pat <:+: s := by
  induction s with
  | nil =>
    unfold cut?
    by_cases h : pat = [] <;> simp [h]
  | cons c s ih =>
    unfold cut?
    rw [List.infix_cons_iff]
    cases hc : after? pat (c :: s) with
    | some rest =>
      have hstart : pat <+: c :: s := ⟨rest, (after?_some hc).symm⟩
      simp [hstart]
    | none =>
      have hstart : ¬ pat <+: c :: s := by
        rintro ⟨rest, hrest⟩
        rw [after?_eq_some_iff.mpr hrest.symm] at hc
        cases hc
      simp [hstart, ih]

/-- A longer pattern that starts with one occurs no earlier. -/
theorem FirstAt.extend {more : List Char} (h : FirstAt pat pre (more ++ rest) s) :
    FirstAt (pat ++ more) pre rest s := by
  refine ⟨by simp [h.split], fun before after hs => ?_⟩
  exact h.first before (more ++ after) (by simp [hs])

end Text

/-! ## The mapping of a block -/

namespace Checked

theorem every_eq_ok_iff {α : Type} {cs : List (Checked α)} {as : List α} :
    every cs = .ok as ↔ List.Forall₂ (fun c a => c = .ok a) cs as := by
  induction cs generalizing as with
  | nil =>
    rw [List.forall₂_nil_left_iff]
    exact ⟨fun h => (Except.ok.inj h).symm, fun h => h ▸ rfl⟩
  | cons c cs ih =>
    unfold every
    constructor
    · intro h
      cases c with
      | error e =>
        cases hcs : every cs with
        | ok bs => rw [hcs] at h; cases h
        | error e' => rw [hcs] at h; cases h
      | ok a =>
        cases hcs : every cs with
        | error e' => rw [hcs] at h; cases h
        | ok bs =>
          rw [hcs] at h
          cases h
          exact .cons rfl (ih.mp hcs)
    · rintro (_ | ⟨rfl, hcs⟩)
      rw [ih.mpr hcs]
      rfl

theorem under_eq_ok_iff {α : Type} {p : Place} {c : Checked α} {a : α} :
    under p c = .ok a ↔ c = .ok a := by
  cases c with
  | ok b => exact Iff.rfl
  | error cs => exact iff_of_false (fun h => by cases h) (fun h => by cases h)

theorem textKey_eq_ok_iff {k : Value} {s : String} : textKey k = .ok s ↔ text k = .ok s := by
  unfold textKey
  rw [under_eq_ok_iff, under_eq_ok_iff]

end Checked

namespace Settings

/-- The entries that the text of a block gives: those of a mapping, or none for null. -/
def Gives (body : String) (es : List (Value × Value)) : Prop :=
  (Yaml.read body = .ok .null ∧ es = []) ∨ ∃ l, Yaml.read body = .ok (.map l es)

/-- The type that a value declares: a mapping describes it, any other value names it. -/
def Declares (v : Value) (e : TypeExpr) : Prop :=
  match v with
  | .map .. => TypeExpr.check v = .ok e
  | .illFormed points => e = { name := some (Text.ofPoints points) }
  | v => v.spellable = true ∧ e = { name := some (String.ofList v.spelled) }

/-- The value of `propertyType`, unless it is empty, zero or false. -/
def typeValue? (es : List (Value × Value)) : Option Value :=
  (Assoc.get? (.str "propertyType") es).filter Value.truthy

/-- The text of a block gives a mapping whose keys have texts, those in `keyed`, and whose
`propertyType` declares a type if there is one. -/
structure Loads (body : String) (es : List (Value × Value)) (keyed : Fields) : Prop where
  entries : Gives body es
  keys : List.Forall₂ (fun e f => Checked.text e.1 = .ok f.1 ∧ e.2 = f.2) es keyed
  type : ∀ v, typeValue? es = some v → ∃ e, Declares v e

/-- The settings of a block are its mapping. A type that it declares stands beside them, not in
them; bytes that spell `propertyType` behind it take its place. -/
structure Settles (es : List (Value × Value)) (keyed : Fields) (x : Extracted) : Prop where
  declared : ∀ e, x.declared = some e ↔
    ∃ v, typeValue? es = some v ∧ Declares v e ∧
      lastKey? "propertyType" es = some (.str "propertyType")
  settings : x.settings =
    if x.declared.isSome then Assoc.erase "propertyType" (Assoc.ofEntries keyed)
    else Assoc.ofEntries keyed

theorem load_eq_ok_iff {body : String} {es : List (Value × Value)} :
    load body = .ok es ↔ Gives body es := by
  unfold load Gives
  cases Yaml.read body with
  | error f => cases f <;> simp
  | ok v => cases v <;> simp [eq_comm]

theorem declaredType_eq_ok_iff {v : Value} {e : TypeExpr} :
    declaredType v = .ok e ↔ Declares v e := by
  unfold declaredType Declares
  cases v with
  | map l es =>
    dsimp only
    cases TypeExpr.check (.map l es) <;> simp
  | illFormed points => simp [eq_comm]
  | _ =>
    dsimp only
    split
    · next hs => simp [hs, eq_comm]
    · next hs => simp [hs]

theorem textKeyed_eq_ok_iff {es : List (Value × Value)} {settings : Fields} :
    textKeyed es = .ok settings ↔
      ∃ keyed : Fields, List.Forall₂ (fun e f => Checked.text e.1 = .ok f.1 ∧ e.2 = f.2) es keyed ∧
        settings = Assoc.ofEntries keyed := by
  have hentry : ∀ (e : Value × Value) (f : String × Value),
      ((Checked.textKey e.1).map fun k => (k, e.2)) = .ok f ↔
        Checked.text e.1 = .ok f.1 ∧ e.2 = f.2 := by
    rintro ⟨k, v⟩ ⟨name, w⟩
    rw [← Checked.textKey_eq_ok_iff]
    cases Checked.textKey k <;> simp [Except.map]
  have hevery : ∀ keyed : Fields,
      Checked.every (es.map fun e => (Checked.textKey e.1).map fun k => (k, e.2)) = .ok keyed ↔
        List.Forall₂ (fun e f => Checked.text e.1 = .ok f.1 ∧ e.2 = f.2) es keyed := by
    intro keyed
    rw [Checked.every_eq_ok_iff, List.forall₂_map_left_iff]
    simp only [hentry]
  unfold textKeyed
  rw [Checked.under_eq_ok_iff]
  simp only [← hevery]
  cases Checked.every (es.map fun e => (Checked.textKey e.1).map fun k => (k, e.2)) with
  | error cs => simp [Except.map]
  | ok keyed => simp [Except.map, eq_comm]

variable {es : List (Value × Value)} {keyed : Fields}

/-- A mapping whose keys have texts and whose `propertyType` declares a type comes to settings. -/
theorem ofEntries_of_keyed
    (hkeys : List.Forall₂ (fun e f => Checked.text e.1 = .ok f.1 ∧ e.2 = f.2) es keyed)
    (htype : ∀ v, typeValue? es = some v → ∃ e, Declares v e) :
    ∃ r, ofEntries es = .ok r ∧
      ∀ description, Settles es keyed ⟨r.1, r.2, description⟩ := by
  have hkeyed : textKeyed es = .ok (Assoc.ofEntries keyed) :=
    textKeyed_eq_ok_iff.mpr ⟨keyed, hkeys, rfl⟩
  unfold ofEntries
  dsimp only
  rw [hkeyed, ← typeValue?]
  cases hv : typeValue? es with
  | none =>
    refine ⟨(Assoc.ofEntries keyed, none), rfl, fun _ => ⟨fun e => ?_, rfl⟩⟩
    simp [hv]
  | some v =>
    obtain ⟨e, he⟩ := htype v hv
    simp only [declaredType_eq_ok_iff.mpr he, ok_bind]
    by_cases hlast : lastKey? "propertyType" es = some (.str "propertyType")
    · rw [if_pos hlast]
      refine ⟨_, rfl, fun _ => ⟨fun e' => ?_, rfl⟩⟩
      constructor
      · rintro h
        cases h
        exact ⟨v, hv, he, hlast⟩
      · rintro ⟨v', hv', he', -⟩
        obtain rfl : v = v' := Option.some.inj (hv.symm.trans hv')
        have heq := (declaredType_eq_ok_iff.mpr he).symm.trans (declaredType_eq_ok_iff.mpr he')
        exact congrArg some (Except.ok.inj heq)
    · rw [if_neg hlast]
      refine ⟨_, rfl, fun _ => ⟨fun e' => ?_, rfl⟩⟩
      simp [hlast]

/-- Only such a mapping comes to settings. -/
theorem keyed_of_ofEntries {r : Fields × Option TypeExpr} (h : ofEntries es = .ok r) :
    (∃ keyed : Fields,
      List.Forall₂ (fun e f => Checked.text e.1 = .ok f.1 ∧ e.2 = f.2) es keyed) ∧
      ∀ v, typeValue? es = some v → ∃ e, Declares v e := by
  unfold ofEntries at h
  dsimp only at h
  rw [← typeValue?] at h
  cases hkeyed : textKeyed es with
  | error cs =>
    -- Without texts for the keys nothing comes about, whatever the type is.
    rw [hkeyed] at h
    cases hv : typeValue? es with
    | none => rw [hv] at h; cases h
    | some v =>
      rw [hv] at h
      obtain ⟨e, -, h⟩ := exists_of_bind_ok h
      cases h
  | ok settings =>
    obtain ⟨keyed, hkeys, -⟩ := textKeyed_eq_ok_iff.mp hkeyed
    refine ⟨⟨keyed, hkeys⟩, fun v hv => ?_⟩
    rw [hv] at h
    obtain ⟨e, he, -⟩ := exists_of_bind_ok h
    exact ⟨e, declaredType_eq_ok_iff.mp he⟩

/-! ## Blocks in descriptions -/

theorem extract_of_block {text : String} {pre body post : List Char}
    (hopen : Text.FirstAt opener pre (body ++ closer ++ post) text.toList)
    (hclose : Text.FirstAt closer body post (body ++ closer ++ post)) (hlen : body.length ≠ 1) :
    extract text = do
      let r ← ofEntries (← load (String.ofList body))
      return ⟨r.1, r.2, String.ofList (Text.trim (collapsed (pre ++ post)))⟩ := by
  have hblock : block? text.toList = some (some (body, pre ++ post)) := by
    rw [block?, Text.cut?_eq_some_iff.mpr hopen]
    dsimp only
    rw [Text.cut?_eq_some_iff.mpr hclose]
    dsimp only
    rw [if_neg hlen]
  unfold extract
  rw [hblock]

/-- A settings block with the text `body`, as it is written. -/
def block (body : String) : String := String.ofList opener ++ body ++ String.ofList closer

theorem toList_block (body : String) :
    (block body).toList = opener ++ (body.toList ++ closer) := by
  simp [block]

/-- A block has no blanks around it. -/
theorem trimmed_block (body : String) : Text.Trimmed (block body).toList := by
  rw [toList_block]
  exact Text.trimmed_between (by decide +kernel) (by decide +kernel) body.toList

/-- Of a text that is a block no text is left. -/
theorem extract_block {body : String}
    (hclose : Text.FirstAt closer body.toList [] (body.toList ++ closer)) (hlen : body.length ≠ 1) :
    extract (block body) = do
      let r ← ofEntries (← load body)
      return ⟨r.1, r.2, ""⟩ := by
  have hopen : Text.FirstAt opener [] (body.toList ++ closer ++ []) (block body).toList := by
    rw [toList_block, List.append_nil]
    exact Text.firstAt_front opener _
  have hclose' : Text.FirstAt closer body.toList [] (body.toList ++ closer ++ []) := by
    rwa [List.append_nil]
  rw [extract_of_block hopen hclose' hlen, String.ofList_toList]
  rfl

/-- A block that is not closed, or has one character, is none. -/
theorem extract_of_open {text : String} {pre rest : List Char}
    (hopen : Text.FirstAt opener pre rest text.toList)
    (hrest : ¬ closer <:+: rest ∨ ∃ c post, Text.FirstAt closer [c] post rest) :
    extract text = .ok { description := text } := by
  have hblock : block? text.toList = some none := by
    rw [block?, Text.cut?_eq_some_iff.mpr hopen]
    dsimp only
    rcases hrest with hrest | ⟨c, post, hclose⟩
    · rw [Text.cut?_eq_none_iff.mpr hrest]
    · rw [Text.cut?_eq_some_iff.mpr hclose]
      rfl
  unfold extract
  rw [hblock]
  rfl

theorem extract_of_no_block {text : String} (h : ¬ opener <:+: text.toList) :
    extract text = .ok { description := String.ofList (collapsed text.toList) } := by
  unfold extract
  rw [block?, Text.cut?_eq_none_iff.mpr h]
  rfl

/-- What is read from a text, from its parts. -/
theorem extract_of_parts {text : String} {x : Extracted} (hx : x.declared = none)
    (h : (extract text).toOption.map (fun x => (x.settings, x.declared.isNone, x.description)) =
      some (x.settings, true, x.description)) : extract text = .ok x := by
  obtain ⟨r, hr, hparts⟩ := exists_of_toOption_map h
  simp only [Prod.mk.injEq, Option.isNone_iff_eq_none] at hparts
  obtain ⟨hsettings, hdeclared, hdescription⟩ := hparts
  rw [hr]
  cases r
  cases x
  simp_all

end Settings

/-- **The first settings block is taken out, and nothing else.** Of a text with a block, closed and
not of one character, the settings are the mapping of the first block, and the visible text is all
that stands before and behind it; it fails if and only if the block gives no such mapping. Taking
out the block at its place is taking out the first occurrence of what is written there. A text whose
first block is not closed, or has one character, is left as it is, and one without a block has its
white space collapsed. -/
theorem extract_first_block (text : String) :
    (∀ pre body post,
      Text.FirstAt Settings.opener pre (body ++ Settings.closer ++ post) text.toList →
      Text.FirstAt Settings.closer body post (body ++ Settings.closer ++ post) →
      body.length ≠ 1 →
        ((∃ e, Settings.extract text = .error e) ↔
          ¬ ∃ es keyed, Settings.Loads (String.ofList body) es keyed) ∧
        (∀ es keyed, Settings.Loads (String.ofList body) es keyed →
          ∃ x, Settings.extract text = .ok x ∧ Settings.Settles es keyed x ∧
            x.description =
              String.ofList (Text.trim (Settings.collapsed (pre ++ post)))) ∧
        Text.FirstAt (Settings.opener ++ (body ++ Settings.closer)) pre post text.toList) ∧
    (∀ pre rest, Text.FirstAt Settings.opener pre rest text.toList →
      (¬ Settings.closer <:+: rest ∨ ∃ c post, Text.FirstAt Settings.closer [c] post rest) →
        Settings.extract text = .ok { settings := [], declared := none, description := text }) ∧
    (¬ Settings.opener <:+: text.toList →
      Settings.extract text = .ok
        { settings := [], declared := none,
          description := String.ofList (Settings.collapsed text.toList) }) := by
  refine ⟨?_, fun _ _ => Settings.extract_of_open, Settings.extract_of_no_block⟩
  intro pre body post hopen hclose hlen
  have heq := Settings.extract_of_block hopen hclose hlen
  have hok : ∀ es keyed, Settings.Loads (String.ofList body) es keyed →
      ∃ x, Settings.extract text = .ok x ∧ Settings.Settles es keyed x ∧
        x.description = String.ofList (Text.trim (Settings.collapsed (pre ++ post))) := by
    intro es keyed hloads
    obtain ⟨r, hr, hsettles⟩ := Settings.ofEntries_of_keyed hloads.keys hloads.type
    rw [heq, Settings.load_eq_ok_iff.mpr hloads.entries, ok_bind, hr]
    exact ⟨_, rfl, hsettles _, rfl⟩
  refine ⟨⟨?_, ?_⟩, hok, hopen.extend⟩
  · rintro ⟨e, he⟩ ⟨es, keyed, hloads⟩
    obtain ⟨x, hx, -⟩ := hok es keyed hloads
    rw [hx] at he
    cases he
  · intro hno
    cases hx : Settings.extract text with
    | error e => exact ⟨e, rfl⟩
    | ok x =>
      rw [heq] at hx
      obtain ⟨es, hes, hx⟩ := exists_of_bind_ok hx
      obtain ⟨r, hr, -⟩ := exists_of_bind_ok hx
      obtain ⟨⟨keyed, hkeys⟩, htype⟩ := Settings.keyed_of_ofEntries hr
      exact absurd ⟨es, keyed, Settings.load_eq_ok_iff.mp hes, hkeys, htype⟩ hno

/-- A description with two blocks, the first of them closed by four marks. -/
def twoBlocks : String :=
  "Pets ```yaml-swagger-settings\nmodelName: Pet\n```` or ```yaml-swagger-settings\nitems: 1\n```"

theorem extract_first_block_twoBlocks :
    ∃ x, Settings.extract twoBlocks = .ok x ∧
      Settings.Settles [(.str "modelName", .str "Pet")] [("modelName", .str "Pet")] x ∧
      x.description = "Pets ` or ```yaml-swagger-settings items: 1 ```" := by
  have hopen : Text.FirstAt Settings.opener "Pets ".toList
      ("\nmodelName: Pet\n".toList ++ Settings.closer ++
        "` or ```yaml-swagger-settings\nitems: 1\n```".toList) twoBlocks.toList :=
    Text.cut?_eq_some_iff.mp (by decide +kernel)
  have hclose : Text.FirstAt Settings.closer "\nmodelName: Pet\n".toList
      "` or ```yaml-swagger-settings\nitems: 1\n```".toList
      ("\nmodelName: Pet\n".toList ++ Settings.closer ++
        "` or ```yaml-swagger-settings\nitems: 1\n```".toList) :=
    Text.cut?_eq_some_iff.mp (by decide +kernel)
  have hloads : Settings.Loads (String.ofList "\nmodelName: Pet\n".toList)
      [(.str "modelName", .str "Pet")] [("modelName", .str "Pet")] :=
    ⟨Or.inr ⟨none, by decide +kernel⟩, .cons ⟨rfl, rfl⟩ .nil, fun v hv => by cases hv⟩
  obtain ⟨x, hx, hsettles, hdescription⟩ :=
    ((extract_first_block twoBlocks).1 _ _ _ hopen hclose (by decide)).2.1 _ _ hloads
  exact ⟨x, hx, hsettles, hdescription.trans (by decide +kernel)⟩

end AnnotatedApi
