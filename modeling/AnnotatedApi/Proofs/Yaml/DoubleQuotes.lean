/-
  What the pen writes between double quotes. Every character that does not stand for itself is
  escaped, and every escape is read as its character (`quotedAs_escaped`). A line may be broken with
  a backslash before a blank or beside an escape.

  Main statement: the code points of a text are written as text that is read as them
  (`Pen.doubleRest_of_calm`), unless the indentation is beyond the width and a blank stands right
  behind an escape: then the line is broken between the blank and the backslash for it.
-/
import AnnotatedApi.Proofs.Yaml.Pen

namespace AnnotatedApi.Yaml

/-! ## Escapes -/

theorem isInline_of_ascii {c : Char} (hlow : 0x20 ≤ c.toNat) (hhigh : c.toNat ≤ 0x7E) :
    isInline c = true :=
  @isInline_of_class (fun c => 0x20 ≤ c.toNat && c.toNat ≤ 0x7E) c (by simp [hlow, hhigh])
    (by decide)

/-- Digits to base sixteen are visible ASCII characters. -/
theorem ascii_of_hexValue? {c : Char} {d : Nat} (h : Text.hexValue? c = some d) :
    0x20 ≤ c.toNat ∧ c.toNat ≤ 0x7E := by
  have hle : ∀ a b : Char, (a ≤ b) = (a.toNat ≤ b.toNat) := fun _ _ => rfl
  simp only [Text.hexValue?, Text.isAsciiDigit, Bool.and_eq_true, decide_eq_true_eq, hle] at h
  have h0 : ('0' : Char).toNat = 48 := rfl
  have h9 : ('9' : Char).toNat = 57 := rfl
  have ha : ('a' : Char).toNat = 97 := rfl
  have hf : ('f' : Char).toNat = 102 := rfl
  have hA : ('A' : Char).toNat = 65 := rfl
  have hF : ('F' : Char).toNat = 70 := rfl
  split at h
  · omega
  · split at h
    · omega
    · split at h
      · omega
      · cases h

theorem ascii_of_mapM {ds : List Char} {ns : List Nat} (h : ds.mapM Text.hexValue? = some ns) :
    ∀ c ∈ ds, 0x20 ≤ c.toNat ∧ c.toNat ≤ 0x7E := by
  induction ds generalizing ns with
  | nil => simp
  | cons d ds ih =>
    rw [List.mapM_cons] at h
    cases hd : Text.hexValue? d with
    | none => rw [hd] at h; cases h
    | some n =>
      cases hds : ds.mapM Text.hexValue? with
      | none => rw [hd, hds] at h; cases h
      | some ms => exact List.forall_mem_cons.mpr ⟨ascii_of_hexValue? hd, ih hds⟩

theorem ascii_hexPadded (upper : Bool) (width n : Nat) :
    ∀ c ∈ Text.hexPadded upper width n, 0x20 ≤ c.toNat ∧ c.toNat ≤ 0x7E := by
  have h := Text.mapM_hexValue?_hexPadded upper width n
  cases hds : (Text.hexPadded upper width n).mapM Text.hexValue? with
  | none => rw [hds] at h; cases h
  | some ms => exact ascii_of_mapM hds

theorem mem_of_lookup {α β : Type} [BEq α] [LawfulBEq α] {a : α} {b : β} {l : List (α × β)}
    (h : l.lookup a = some b) : (a, b) ∈ l := by
  induction l with
  | nil => cases h
  | cons e l ih =>
    obtain ⟨a', b'⟩ := e
    rw [List.lookup_cons] at h
    split at h
    · next heq =>
      cases h
      rw [eq_of_beq heq]
      exact List.mem_cons_self
    · exact List.mem_cons_of_mem _ (ih h)

/-- Every escape that the pen writes is read as the character it was written for. -/
theorem quotedAs_escaped {c : Char} {body : List Char} {ns : List Nat}
    (h : QuotedAs true body ns) : QuotedAs true (Pen.escaped c.toNat ++ body) (c.toNat :: ns) := by
  have hmax : c.toNat < 0x110000 := by
    have := c.valid
    simp only [UInt32.isValidChar, Nat.isValidChar] at this
    show c.val.toNat < _
    omega
  have hnumber : ∀ (l : Char) (width : Nat), escape? l = none → escapeWidth? l = some width →
      isInline l = true → 0 < width → c.toNat < 16 ^ width →
      QuotedAs true ('\\' :: l :: Text.hexPadded true width c.toNat ++ body) (c.toNat :: ns) := by
    intro l width hl hwidth hinline hpos hlt
    refine h.number hl (by rw [Text.length_hexPadded true hpos hlt]; exact hwidth)
      (Text.mapM_hexValue?_hexPadded true width c.toNat) hmax ?_
    refine List.forall_mem_cons.mpr ⟨hinline, fun d hd => ?_⟩
    obtain ⟨hlow, hhigh⟩ := ascii_hexPadded true width c.toNat d hd
    exact isInline_of_ascii hlow hhigh
  unfold Pen.escaped
  split
  · next l hl =>
    have hletters : ∀ e ∈ Pen.escapeLetters, escape? e.2 = some (Char.ofNat e.1) := by decide
    have hread := hletters _ (mem_of_lookup hl)
    rw [Char.ofNat_toNat] at hread
    exact h.letter hread
  · split
    · exact hnumber 'x' 2 rfl rfl (by decide) (by decide) (by omega)
    · split
      · exact hnumber 'u' 4 rfl rfl (by decide) (by decide) (by omega)
      · exact hnumber 'U' 8 rfl rfl (by decide) (by decide) (by omega)

theorem escaped_eq_cons (n : Nat) : ∃ t, Pen.escaped n = '\\' :: t := by
  unfold Pen.escaped
  split
  · exact ⟨_, rfl⟩
  · split
    · exact ⟨_, rfl⟩
    · split <;> exact ⟨_, rfl⟩

theorem isInline_of_needsEscape {c : Char} (h : Pen.needsEscape c.toNat = false) :
    isInline c = true :=
  @isInline_of_class (fun c => !Pen.needsEscape c.toNat) c (by simp [h]) (by decide)

/-- What needs no escape is a blank or stands for itself. -/
theorem isOrdinary_of_needsEscape {c : Char} (h : Pen.needsEscape c.toNat = false) (hc : c ≠ ' ') :
    isOrdinary true c = true := by
  have hne : ∀ d : Char, Pen.needsEscape d.toNat = true → c ≠ d := fun d hd e => by
    rw [e, hd] at h
    cases h
  have hbreak := isBreak_of_isInline (isInline_of_needsEscape h)
  simp [isOrdinary, closing, isGap, hc, hbreak, hne '\t' (by decide), hne '"' (by decide),
    hne '\\' (by decide)]

theorem isGap_of_isOrdinary {double : Bool} {c : Char} (h : isOrdinary double c = true) :
    isGap c = false := by
  simp only [isOrdinary, Bool.and_eq_true, Bool.not_eq_true'] at h
  exact h.1.1

/-! ## Runs of the pen -/

namespace Pen

/-- A line broken between double quotes. -/
theorem doubleBreak_eq {indent : Nat} {next : Option Nat} {p : Pen} (hmargin : p.margin = false) :
    p.doubleBreak indent next =
      ⟨(['\\', '\n'] ++ spaces indent ++ (if next = some 32 then ['\\'] else [])).reverse ++ p.out,
        indent + (if next = some 32 then 1 else 0), false, false⟩ := by
  unfold doubleBreak
  rw [indentTo_newLine (p := p.put ['\\']) (Or.inl hmargin)]
  split <;> simp [put, inside]

theorem toNat_eq_32 {c : Char} : c.toNat = 32 ↔ c = ' ' :=
  ⟨fun h => Char.toNat_inj.mp h, fun h => h ▸ rfl⟩

/-- Whether a blank stands right behind a character that is escaped. -/
def blankBehindEscape (s : List Char) : Bool :=
  adjacent (fun c => needsEscape c.toNat) (· = ' ') s

/-- From `p` to `q` the pen wrote `body` between double quotes for the text `s`. A text that starts
with a blank is written with it, if the pen is not beyond the width. -/
structure Doubled (s : List Char) (p q : Pen) (body : List Char) : Prop where
  wrote : Wrote p q body
  quoted : QuotedAs true body (s.map Char.toNat)
  firm : Firm body
  solid : s.head? ≠ some ' ' → Solid body
  blank : s.head? = some ' ' → p.column ≤ width →
    ∃ more, body = ' ' :: more ∧ QuotedAs true more (s.tail.map Char.toNat)

section

variable {c : Char} {s body : List Char} {p q : Pen} {indent : Nat}

theorem doubled_nil (p : Pen) : Doubled [] p p [] := by
  have hsolid : Solid ([] : List Char) := fun c hc => by cases hc
  exact ⟨rfl, quotedAs_nil true, hsolid.firm, fun _ => hsolid, fun h => by cases h⟩

/-- Text that starts with a backslash or with an ordinary character. -/
theorem doubled_solid (hwrote : Wrote p q body)
    (hquoted : QuotedAs true body ((c :: s).map Char.toNat)) (hsolid : Solid body)
    (hblank : c = ' ' → width < p.column) : Doubled (c :: s) p q body :=
  ⟨hwrote, hquoted, hsolid.firm, fun _ => hsolid,
    fun h hp => absurd (hblank (Option.some.inj h)) (Nat.not_lt.mpr hp)⟩

theorem solid_escaped (n : Nat) (t : List Char) : Solid (escaped n ++ t) := by
  obtain ⟨e, he⟩ := escaped_eq_cons n
  rw [he]
  exact solid_of_isGap (by decide) _

theorem ne_blank_of_needsEscape (hc : needsEscape c.toNat = true) : c ≠ ' ' := by
  rintro rfl
  cases hc

theorem Doubled.escape (hc : needsEscape c.toNat = true)
    (h : Doubled s (p.put (escaped c.toNat)) q body) :
    Doubled (c :: s) p q (escaped c.toNat ++ body) :=
  doubled_solid ((wrote_put p _).trans h.wrote) (quotedAs_escaped h.quoted) (solid_escaped _ _)
    fun e => absurd e (ne_blank_of_needsEscape hc)

/-- A line broken behind an escape. If a blank comes next, a backslash is written for it already;
with the pen beyond the width the blank would be torn from it, so a deep indentation and a blank
behind an escape do not go together. -/
theorem Doubled.escapeBreak (hpos : 0 < indent) (hp : p.margin = false)
    (hc : needsEscape c.toNat = true)
    (hcalm : indent < width ∨ blankBehindEscape (c :: s) = false)
    (h : Doubled s ((p.put (escaped c.toNat)).doubleBreak indent (s.map Char.toNat).head?) q body) :
    ∃ body', Doubled (c :: s) p q body' := by
  rw [doubleBreak_eq (p := p.put (escaped c.toNat)) hp] at h
  obtain ⟨hwrote, hquoted, -, hsolid, hblank⟩ := h
  have hput := (wrote_put p (escaped c.toNat)).trans ((wrote_mk _ _ _ _ _).trans hwrote)
  refine ⟨_, doubled_solid hput (quotedAs_escaped ?_) (solid_escaped _ _)
    fun e => absurd e (ne_blank_of_needsEscape hc)⟩
  by_cases hnext : s.head? = some ' '
  · have hhead : (s.map Char.toNat).head? = some 32 := by rw [List.head?_map, hnext]; rfl
    have hshallow : indent + 1 ≤ width := by
      refine hcalm.resolve_right fun h => ?_
      have hfalse := adjacent_head (r := [c]) h (by simp) (by simpa using hc) ' ' hnext
      cases hfalse
    simp only [hhead, if_true] at hblank ⊢
    obtain ⟨more, rfl, hmore⟩ := hblank hnext hshallow
    obtain ⟨s', rfl⟩ : ∃ s', s = ' ' :: s' := by
      cases s with
      | nil => cases hnext
      | cons d s' => exact ⟨s', by rw [Option.some.inj hnext]⟩
    have hletter := @QuotedAs.letter more _ ' ' ' ' hmore rfl
    simpa using hletter.continued (solid_of_isGap (by decide) _) hpos
  · have hhead : (s.map Char.toNat).head? ≠ some 32 := fun h => by
      rw [List.head?_map] at h
      obtain ⟨d, hd, hn⟩ := Option.map_eq_some_iff.mp h
      rw [toNat_eq_32] at hn
      exact hnext (hn ▸ hd)
    rw [if_neg hhead]
    simpa using hquoted.continued (hsolid hnext) hpos

theorem Doubled.char (hc : needsEscape c.toNat = false) (h : Doubled s (p.put [c]) q body) :
    Doubled (c :: s) p q (c :: body) := by
  have hwrote := (wrote_put p [c]).trans h.wrote
  by_cases hblank : c = ' '
  · subst hblank
    exact ⟨hwrote, h.quoted.blank h.firm, h.firm.blank, fun h => absurd rfl h,
      fun _ _ => ⟨body, rfl, h.quoted⟩⟩
  · have hordinary := isOrdinary_of_needsEscape hc hblank
    exact doubled_solid hwrote (h.quoted.char hordinary)
      (solid_of_isGap (isGap_of_isOrdinary hordinary) _) fun e => absurd e hblank

/-- A line broken before a character. A blank gets a backslash. -/
theorem Doubled.charBreak (hpos : 0 < indent) (hp : p.margin = false) (hwide : width < p.column)
    (hc : needsEscape c.toNat = false)
    (h : Doubled s ((p.doubleBreak indent (some c.toNat)).put [c]) q body) :
    ∃ body', Doubled (c :: s) p q body' := by
  rw [doubleBreak_eq hp] at h
  refine ⟨_, doubled_solid ((wrote_mk p _ _ _ _).trans ((wrote_put _ [c]).trans h.wrote)) ?_
    (solid_of_isGap (by decide) _) fun _ => hwide⟩
  by_cases hblank : c = ' '
  · subst hblank
    have hletter := @QuotedAs.letter body _ ' ' ' ' h.quoted rfl
    simpa using hletter.continued (solid_of_isGap (by decide) _) hpos
  · have hne : some c.toNat ≠ some 32 := fun e => hblank (toNat_eq_32.mp (Option.some.inj e))
    have hordinary := isOrdinary_of_needsEscape hc hblank
    have hchar := h.quoted.char hordinary
    rw [if_neg hne]
    simpa using hchar.continued (solid_of_isGap (isGap_of_isOrdinary hordinary) _) hpos

end

/-- Code points between double quotes, one after the other. -/
theorem doubleRest_of_calm (split : Bool) {indent : Nat} (hpos : 0 < indent) {s : List Char}
    (hcalm : split = true → indent < width ∨ blankBehindEscape s = false)
    (first afterEscape : Bool) (p : Pen) (hp : p.margin = false) :
    ∃ body, Doubled s p (doubleRest split indent first afterEscape (s.map Char.toNat) p) body := by
  induction s generalizing first afterEscape p with
  | nil => exact ⟨[], doubled_nil p⟩
  | cons c s ih =>
    have hstep := ih fun hsplit => (hcalm hsplit).imp_right fun h => adjacent_suffix (r := [c]) h
    rw [List.map_cons, doubleRest]
    cases hescape : needsEscape c.toNat with
    | true =>
      simp only [if_true]
      split
      · next hbroken =>
        have hsplit : split = true := by
          simp only [Bool.and_eq_true] at hbroken
          exact hbroken.1.1.1
        have hmargin : ((p.put (escaped c.toNat)).doubleBreak indent
            (s.map Char.toNat).head?).margin = false := by
          rw [doubleBreak_eq (p := p.put (escaped c.toNat)) hp]
        obtain ⟨body, hbody⟩ := hstep false true _ hmargin
        exact hbody.escapeBreak hpos hp hescape (hcalm hsplit)
      · obtain ⟨body, hbody⟩ := hstep false true (p.put (escaped c.toNat)) hp
        exact ⟨_, hbody.escape hescape⟩
    | false =>
      simp only [Bool.false_eq_true, if_false, Char.ofNat_toNat]
      split
      · next hbroken =>
        have hwide : width < p.column := by
          simp only [Bool.and_eq_true, decide_eq_true_eq] at hbroken
          exact hbroken.2
        have hmargin : ((p.doubleBreak indent (some c.toNat)).put [c]).margin = false := by
          rw [doubleBreak_eq hp]
          rfl
        obtain ⟨body, hbody⟩ := hstep false false _ hmargin
        exact hbody.charBreak hpos hp hwide hescape
      · obtain ⟨body, hbody⟩ := hstep false false (p.put [c]) hp
        exact ⟨_, hbody.char hescape⟩

end Pen

end AnnotatedApi.Yaml
