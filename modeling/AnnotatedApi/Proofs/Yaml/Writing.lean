/-
  What the writer makes of a value, as a layout. A plain value without shared containers whose texts
  are `legible` where they stand is laid out in blocks (`Writer.nodeLays`), in characters that a
  file keeps.

  Main statement: such a mapping is written, and its text is read as the mapping
  (`write_of_legible`).
-/
import AnnotatedApi.Proofs.PlainValues
import AnnotatedApi.Proofs.Yaml.Keys
import AnnotatedApi.Proofs.Yaml.Layout
import AnnotatedApi.Yaml.Writer

namespace AnnotatedApi

/-! ## Legible values -/

namespace Value

/-- Whether a key stands on the line of its value. -/
def isSimpleKey : Value → Bool
  | .str s => Yaml.ScalarText.isSimpleKey 0 ⟨.str, .text s.toList, false⟩
  | _ => false

/-- Whether a key survives being written at the indentation and read. On the line of its value it
must not be wider than a reader looks back. -/
def legibleKey (indent : Nat) : Value → Bool
  | .str s =>
    if Yaml.ScalarText.isSimpleKey 0 ⟨.str, .text s.toList, false⟩ then
      Yaml.legible true indent s.toList && (Yaml.keyText s.toList).length ≤ 1024
    else Yaml.legible false indent s.toList
  | _ => true

mutual

/-- Whether the texts of a value survive being written and read; `indent` is the column of a block
inside it, and `underKey` says whether it stands behind a key on its line. -/
def legible (underKey : Bool) (indent : Nat) : Value → Bool
  | .str s => Yaml.legible false indent s.toList
  | .list _ vs => legibleItems (if underKey then indent else indent + 2) vs
  | .map _ es => legibleEntries (indent + 2) es
  | _ => true

def legibleItems (indent : Nat) : List Value → Bool
  | [] => true
  | v :: vs => v.legible false indent && legibleItems indent vs

def legibleEntries (indent : Nat) : List (Value × Value) → Bool
  | [] => true
  | (k, v) :: es =>
    k.legibleKey indent && v.legible k.isSimpleKey indent && legibleEntries indent es

end

end Value

namespace Yaml

/-! ## The pen between nodes -/

/-- Characters that a YAML text may hold and that a file keeps as they are. -/
def isKept (c : Char) : Bool := isAllowed c && c ≠ '\r' && c ≠ '\uFEFF'

theorem isKept_of_ascii (c : Char) (hlow : 0x20 ≤ c.toNat) (hhigh : c.toNat ≤ 0x7E) :
    isKept c = true := by
  have hne : ∀ d : Char, ¬(0x20 ≤ d.toNat ∧ d.toNat ≤ 0x7E) → c ≠ d := fun d hd e =>
    hd (e ▸ ⟨hlow, hhigh⟩)
  simp [isKept, isAllowed, hlow, hhigh, hne '\r' (by decide), hne '\uFEFF' (by decide)]

@[simp] theorem all_isKept_spaces (n : Nat) : (spaces n).all isKept = true :=
  List.all_eq_true.mpr fun c hc => by
    rw [eq_space_of_mem_spaces hc]
    decide

theorem isKept_of_isSpecial {c : Char} (h : isSpecial c = false) : isKept c = true := by
  have hne : ∀ d : Char, isSpecial d = true → c ≠ d := fun d hd e => by
    rw [e, hd] at h
    cases h
  simp [isKept, isAllowed_of_isSpecial h, hne '\r' (by decide), hne '\uFEFF' (by decide)]

theorem isKept_of_needsEscape {c : Char} (h : Pen.needsEscape c.toNat = false) :
    isKept c = true := by
  have hne : ∀ d : Char, Pen.needsEscape d.toNat = true → c ≠ d := fun d hd e => by
    rw [e, hd] at h
    cases h
  have hallowed : isAllowed c = true := by
    simp only [Pen.needsEscape, Bool.or_eq_false_iff, Bool.not_eq_false', Bool.or_eq_true,
      Bool.and_eq_true, decide_eq_true_eq] at h
    simp only [isAllowed, Bool.or_eq_true, Bool.and_eq_true, decide_eq_true_eq]
    omega
  simp [isKept, hallowed, hne '\r' (by decide), hne '\uFEFF' (by decide)]

namespace Pen

/-- From `p` the pen comes to the column `c` by writing `g`. -/
structure Reaches (p : Pen) (c : Nat) (g : List Char) : Prop where
  wrote : Wrote p (p.indentTo c) g
  column : (p.indentTo c).column = c
  blank : (p.indentTo c).blank = true
  margin : (p.indentTo c).margin = true

theorem reaches_newLine {p : Pen} (h : p.margin = false) (c : Nat) :
    p.Reaches c ('\n' :: spaces c) := by
  have hline := @indentTo_newLine p c (Or.inl h)
  exact ⟨by rw [hline]; exact wrote_mk _ _ _ _ _, by rw [hline], by rw [hline], by rw [hline]⟩

/-- Behind the mark of an item or of a value at the column `c`. -/
structure BehindMark (p : Pen) (c : Nat) : Prop where
  blank : p.blank = false
  margin : p.margin = true
  column : p.column = c + 1

/-- Behind a key on the line of its value. -/
structure BehindKey (p : Pen) : Prop where
  blank : p.blank = false
  margin : p.margin = false

theorem BehindMark.reaches {p : Pen} {c : Nat} (h : p.BehindMark c) : p.Reaches (c + 2) [' '] := by
  have hline := @indentTo_sameLine p 1 h.margin (by decide)
  rw [h.column] at hline
  exact ⟨by rw [hline]; exact wrote_mk _ _ _ _ _, by rw [hline], by rw [hline], by rw [hline]⟩

/-- From `p` to `q` the pen wrote `g` and a layout of the part at the column `c`. -/
structure Lays (p q : Pen) (g : List Char) (part : Part) (c : Nat) (o : List Char) : Prop where
  wrote : Wrote p q (g ++ o)
  margin : q.margin = false
  laid : Laid part c o
  kept : o.all isKept = true

section

variable {p q r : Pen} {g o o' : List Char} {c : Nat} {v : Value}

theorem Lays.lastItem (h : Lays p q g (.item v) c o) : Lays p q g (.items [v]) c o :=
  ⟨h.wrote, h.margin, .lastItem h.laid, h.kept⟩

theorem Lays.moreItems {vs : List Value} (h : Lays p q g (.item v) c o)
    (hvs : Lays q r ('\n' :: spaces c) (.items vs) c o') :
    Lays p r g (.items (v :: vs)) c (o ++ '\n' :: spaces c ++ o') := by
  refine ⟨?_, hvs.margin, .moreItems h.laid hvs.laid, ?_⟩
  · simpa using h.wrote.trans hvs.wrote
  · simp [h.kept, hvs.kept]
    decide

theorem Lays.lastEntry {s : String} (h : Lays p q g (.entry s.toList v) c o) :
    Lays p q g (.entries [(.str s, v)]) c o := by
  have hlast := Laid.lastEntry h.laid
  rw [String.ofList_toList] at hlast
  exact ⟨h.wrote, h.margin, hlast, h.kept⟩

theorem Lays.moreEntries {s : String} {es : List (Value × Value)}
    (h : Lays p q g (.entry s.toList v) c o)
    (hes : Lays q r ('\n' :: spaces c) (.entries es) c o') :
    Lays p r g (.entries ((.str s, v) :: es)) c (o ++ '\n' :: spaces c ++ o') := by
  have hmore := Laid.moreEntries h.laid hes.laid
  rw [String.ofList_toList] at hmore
  refine ⟨?_, hes.margin, hmore, ?_⟩
  · simpa using h.wrote.trans hes.wrote
  · simp [h.kept, hes.kept]
    decide

end

/-- The characters of a scalar without a tag. -/
theorem all_isKept_of_wrote {key : Bool} {indent : Nat} {tag : Tag} {s o : List Char} {p : Pen}
    (hshows : ScalarText.showsTag key ⟨tag, .text s, false⟩ = false)
    (h : Wrote p (p.scalar key indent ⟨tag, .text s, false⟩) (p.lead ++ o)) :
    o.all isKept = true := by
  obtain ⟨o', ho', hkept⟩ := adds_scalar isKept_of_ascii hshows (fun c _ => isKept_of_isSpecial)
    (fun c _ => isKept_of_needsEscape) (fun _ => by decide) indent p
  rw [ho'.eq h] at hkept
  exact List.all_eq_true.mpr fun c hc => hkept c (List.mem_append_right _ hc)

/-! ## Scalars -/

/-- From `p` to `q` the pen wrote a scalar or an empty collection, with a blank if none is there. -/
structure WroteLeaf (p q : Pen) (indent : Nat) (v : Value) (o : List Char) : Prop where
  wrote : Wrote p q (p.lead ++ o)
  margin : q.margin = false
  leaf : ∃ ts, Leaf indent o v ts
  kept : o.all isKept = true

theorem leaf_of_word {tag : Tag} {s : List Char} {v : Value} (hs : Unmarked s)
    (htag : implicitTag s = tag) (hscalar : tag.isScalar = true)
    (hv : scalarValue none tag (.text s) = .ok v) (indent : Nat) (p : Pen) :
    ∃ o, WroteLeaf p (p.scalar false indent ⟨tag, .text s, false⟩) indent v o := by
  obtain ⟨o, ho⟩ := scalar_of_word hs htag indent p
  have hread : Compose.scalarTag true s none = tag := htag
  exact ⟨o, ho.wrote, ho.margin, ⟨_, .scalar ho.scalar (hread ▸ hscalar) (hread ▸ hv)⟩,
    all_isKept_of_wrote (showsTag_word hs htag) ho.wrote⟩

theorem scalarTag_of_plain {plain : Bool} {s : List Char}
    (h : plain = true → implicitTag s = .str) :
    Compose.scalarTag plain s none = .str := by
  cases plain with
  | true => exact h rfl
  | false => rfl

theorem leaf_of_text {indent : Nat} (hpos : 0 < indent) {s : String}
    (h : legible false indent s.toList = true) (p : Pen) :
    ∃ o, WroteLeaf p (p.scalar false indent ⟨.str, .text s.toList, false⟩) indent (.str s) o := by
  obtain ⟨o, plain, ho, htag⟩ := scalar_of_legible hpos h p
  have hleaf := Leaf.text ho.scalar (scalarTag_of_plain htag)
  rw [String.ofList_toList] at hleaf
  exact ⟨o, ho.wrote, ho.margin, ⟨_, hleaf⟩, all_isKept_of_wrote (showsTag_text false _) ho.wrote⟩

theorem leaf_of_int {n : Int} (hn : Value.writable n = true) (indent : Nat) (p : Pen) :
    ∃ o, WroteLeaf p (p.scalar false indent ⟨.int, .text (Text.decimalInt n), false⟩) indent
      (.int n) o := by
  have hwhole := whole_decimal n.natAbs
  have hlength : (Text.decimal n.natAbs).length ≤ Numeral.digitLimit :=
    (Text.length_decimal_le_iff _).mpr ((Value.writable_iff n).mp hn)
  have hvalue : (wholeValue (Text.decimal n.natAbs) : Int) = n.natAbs :=
    congrArg Nat.cast (Text.ofDigits_decimal _)
  rw [decimalInt_eq]
  refine leaf_of_word (unmarked_whole hwhole _) (implicitTag_whole hwhole _) rfl ?_ indent p
  show Value.int <$> intValue _ = _
  rw [Content.chars, intValue_whole hwhole hlength, hvalue]
  by_cases hneg : n < 0
  · have habs : -(n.natAbs : Int) = n := by omega
    simp only [hneg, decide_true, if_true, habs]
    rfl
  · have habs : (n.natAbs : Int) = n := by omega
    simp only [hneg, decide_false, Bool.false_eq_true, if_false, habs]
    rfl

theorem unmarked_word {w : String} (hw : w ∈ ["null", "true", "false"]) : Unmarked w.toList := by
  simp only [List.mem_cons, List.not_mem_nil, or_false] at hw
  rcases hw with rfl | rfl | rfl <;>
    exact ⟨by decide, List.all_eq_true.mp (by decide), by decide, by decide, by decide, by decide,
      by decide, by decide⟩

/-- The scalar that is written for a plain value is read as the value. -/
theorem leaf_of_scalar {v : Value} {t : ScalarText} (ht : scalarOf? v = some t)
    (hplain : v.isPlain = true) {indent : Nat} (hpos : 0 < indent) {underKey : Bool}
    (hlegible : v.legible underKey indent = true) (p : Pen) :
    ∃ o, WroteLeaf p (p.scalar false indent t) indent v o := by
  cases v with
  | null =>
    cases ht
    exact leaf_of_word (unmarked_word (w := "null") (by simp)) (by decide) rfl rfl indent p
  | bool b =>
    cases ht
    cases b with
    | true =>
      exact leaf_of_word (unmarked_word (w := "true") (by simp)) (by decide) rfl (by decide +kernel)
        indent p
    | false =>
      exact leaf_of_word (unmarked_word (w := "false") (by simp)) (by decide) rfl
        (by decide +kernel) indent p
  | int n =>
    cases ht
    exact leaf_of_int hplain indent p
  | str s =>
    cases ht
    exact leaf_of_text hpos hlegible p
  | list _ _ | map _ _ | pair _ _ | set _ _ => cases ht
  | float _ | illFormed _ | bytes _ | date _ _ | moment _ _ => cases hplain

/-! ## Marks and keys -/

theorem lead_of_blank {p : Pen} (h : p.blank = false) : p.lead = [' '] := by
  rw [lead, h]
  rfl

/-- A mark at the column of a block. -/
theorem Reaches.mark {p : Pen} {c : Nat} {g : List Char} (h : p.Reaches c g) (mark : Char) :
    Wrote p ((p.indentTo c).indicator [mark] true false true) (g ++ [mark]) ∧
      ((p.indentTo c).indicator [mark] true false true).BehindMark c := by
  obtain ⟨hwrote, hcolumn, hblank, hmargin⟩ := h
  have hmark : Wrote (p.indentTo c) ((p.indentTo c).indicator [mark] true false true) [mark] := by
    unfold indicator
    rw [hblank]
    rfl
  refine ⟨hwrote.trans hmark, rfl, ?_, ?_⟩
  · simp [indicator, hmargin]
  · simp [indicator, hblank, put, hcolumn]

/-- What is written for the start of an entry, up to the place of its value. -/
structure Starts (p q : Pen) (g : List Char) (s : String) (c : Nat) (pre : List Char) : Prop where
  wrote : Wrote p q (g ++ pre)
  kept : pre.all isKept = true
  entry : (Value.str s).isSimpleKey = true ∧ q.BehindKey ∧
      (∀ v o, Laid (.behindKey v) c o → Laid (.entry s.toList v) c (pre ++ o)) ∨
    (Value.str s).isSimpleKey = false ∧ q.BehindMark c ∧
      ∀ v o, Laid (.behindMark v) c o → Laid (.entry s.toList v) c (pre ++ o)

/-- A key on the line of its value. -/
theorem Reaches.simpleKey {p : Pen} {c : Nat} {g : List Char} (h : p.Reaches c g) {s : String}
    (hsimple : ScalarText.isSimpleKey 0 ⟨.str, .text s.toList, false⟩ = true)
    (hlegible : legible true (c + 2) s.toList = true)
    (hlength : (keyText s.toList).length ≤ 1024) :
    Starts p (((p.indentTo c).scalar true (c + 2) ⟨.str, .text s.toList, false⟩).indicator [':']
      false false false) g s c (keyText s.toList ++ [':']) := by
  obtain ⟨⟨plain, hkey, htag⟩, hinline⟩ :=
    key_of_legible (Nat.succ_pos (c + 1)) hsimple hlegible (p.indentTo c)
  have hkept := all_isKept_of_wrote (showsTag_text true _) hkey.wrote
  have hwrote := hkey.wrote
  rw [show (p.indentTo c).lead = [] by rw [lead, h.blank]; rfl, List.nil_append] at hwrote
  generalize (p.indentTo c).scalar true (c + 2) ⟨.str, .text s.toList, false⟩ = q at *
  have hcolon : Wrote q (q.indicator [':'] false false false) [':'] := by
    unfold indicator
    cases q.blank <;> rfl
  refine ⟨h.wrote.trans (hwrote.trans hcolon), ?_, Or.inl ⟨hsimple, ⟨rfl, Bool.and_false _⟩, ?_⟩⟩
  · rw [List.all_append, hkept]
    decide
  · intro v o hv
    have hentry := Laid.simpleEntry hkey.scalar (scalarTag_of_plain htag) hinline hlength hv
    simpa using hentry

/-- A key on a line of its own. -/
theorem Reaches.complexKey {p : Pen} {c : Nat} {g : List Char} (h : p.Reaches c g) {s : String}
    (hsimple : ScalarText.isSimpleKey 0 ⟨.str, .text s.toList, false⟩ = false)
    (hlegible : legible false (c + 2) s.toList = true) :
    ∃ pre, Starts p (((((p.indentTo c).indicator ['?'] true false true).scalar false (c + 2)
      ⟨.str, .text s.toList, false⟩).indentTo c).indicator [':'] true false true) g s c pre := by
  obtain ⟨hquestion, hbehind⟩ := h.mark '?'
  generalize (p.indentTo c).indicator ['?'] true false true = q at *
  obtain ⟨o, plain, hkey, htag⟩ := scalar_of_legible (Nat.succ_pos (c + 1)) hlegible q
  have hkept := all_isKept_of_wrote (showsTag_text false _) hkey.wrote
  have hwrote := hkey.wrote
  rw [lead_of_blank hbehind.blank] at hwrote
  obtain ⟨hcolon, hmark⟩ := (reaches_newLine hkey.margin c).mark ':'
  refine ⟨'?' :: ' ' :: o ++ '\n' :: spaces c ++ [':'], ?_, ?_, Or.inr ⟨hsimple, hmark, ?_⟩⟩
  · have hall := (hquestion.trans hwrote).trans hcolon
    simpa using hall
  · simp [hkept]
    decide
  · intro v o' hv
    have hentry := Laid.complexEntry hkey.scalar (scalarTag_of_plain htag) hv
    simpa using hentry

/-- An empty collection. -/
theorem leaf_of_brackets {left right : Char} {v : Value} {ts : List Token} {indent : Nat}
    (h : Leaf indent [left, right] v ts) (hkept : [left, right].all isKept = true) (p : Pen) :
    WroteLeaf p ((p.indicator [left] true true false).indicator [right] false false false) indent v
      [left, right] := by
  refine ⟨?_, Bool.and_false _, ⟨ts, h⟩, hkept⟩
  have hright : Wrote (p.indicator [left] true true false)
      ((p.indicator [left] true true false).indicator [right] false false false) [right] := rfl
  have hall := (wrote_indicator p left true false).trans hright
  simpa using hall

end Pen

namespace Writer

variable {a : Anchors} {w : Writer} {c : Nat} {g : List Char}

open Pen (Wrote Lays)

theorem itemStart_spec (h : w.pen.Reaches c g) :
    Wrote w.pen (itemStart c w).pen (g ++ ['-']) ∧ (itemStart c w).pen.BehindMark c :=
  h.mark '-'

theorem entryStart_spec {s : String} (h : w.pen.Reaches c g)
    (hkey : (Value.str s).legibleKey (c + 2) = true) :
    ∃ pre, Pen.Starts w.pen (w.entryStart a (.str s) c).pen g s c pre := by
  have hisSimple : w.isSimpleKey a (.str s) =
      ScalarText.isSimpleKey 0 ⟨.str, .text s.toList, false⟩ := rfl
  unfold entryStart
  rw [hisSimple]
  rw [Value.legibleKey] at hkey
  split at hkey
  · next hsimple =>
    simp only [Bool.and_eq_true, decide_eq_true_eq] at hkey
    rw [if_pos hsimple]
    exact ⟨_, h.simpleKey hsimple hkey.1 hkey.2⟩
  · next hsimple =>
    rw [if_neg hsimple]
    exact h.complexKey (Bool.eq_false_iff.mpr hsimple) hkey

/-- A value behind a mark or behind a key is written as a layout of it. -/
def NodeLays (a : Anchors) (v : Value) : Prop :=
  (∀ (c : Nat) (around : Around) (w : Writer), w.pen.BehindMark c → v.legible false (c + 2) = true →
    ∃ o, Lays w.pen (node a around (c + 2) v w).pen [] (.behindMark v) c o) ∧
  ∀ (c : Nat) (w : Writer), w.pen.BehindKey → v.legible true (c + 2) = true →
    ∃ o, Lays w.pen (node a .entry (c + 2) v w).pen [] (.behindKey v) c o

/-- Scalars and empty collections stand behind a blank. -/
theorem nodeLays_leaf {v : Value}
    (h : ∀ (indent : Nat) (around : Around) (underKey : Bool) (w : Writer), 0 < indent →
      v.legible underKey indent = true →
      ∃ o, Pen.WroteLeaf w.pen (node a around indent v w).pen indent v o) : NodeLays a v := by
  have hblank : isKept ' ' = true := by decide
  refine ⟨fun c around w hw hv => ?_, fun c w hw hv => ?_⟩
  · obtain ⟨o, hwrote, hmargin, ⟨ts, hleaf⟩, hkept⟩ := h _ around false w (Nat.succ_pos _) hv
    rw [Pen.lead_of_blank hw.blank] at hwrote
    exact ⟨' ' :: o, hwrote, hmargin, .markLeaf hleaf, by simp [hkept, hblank]⟩
  · obtain ⟨o, hwrote, hmargin, ⟨ts, hleaf⟩, hkept⟩ := h _ .entry true w (Nat.succ_pos _) hv
    rw [Pen.lead_of_blank hw.blank] at hwrote
    exact ⟨' ' :: o, hwrote, hmargin, .keyLeaf hleaf, by simp [hkept, hblank]⟩

theorem nodeLays_scalar {v : Value} {t : ScalarText} (ht : scalarOf? v = some t)
    (hplain : v.isPlain = true)
    (hnode : ∀ around indent w, node a around indent v w = w.onPen (·.scalar false indent t)) :
    NodeLays a v := by
  refine nodeLays_leaf fun indent around underKey w hpos hv => ?_
  rw [hnode]
  exact Pen.leaf_of_scalar ht hplain hpos hv w.pen

/-- A list with items: behind a mark two columns deeper, behind a key at its column. -/
theorem nodeLays_list {v : Value} {vs : List Value}
    (h : ∀ (c : Nat) (g : List Char) (w : Writer), w.pen.Reaches c g →
      Value.legibleItems (c + 2) (v :: vs) = true →
      ∃ o, Lays w.pen (items a c (v :: vs) w).pen g (.items (v :: vs)) c o) :
    NodeLays a (.list none (v :: vs)) := by
  refine ⟨fun c around w hw hv => ?_, fun c w hw hv => ?_⟩
  · have hindent : w.itemIndent around (c + 2) = c + 2 := by
      cases around with
      | entry => rw [itemIndent, hw.margin]; rfl
      | item => rfl
    have hnode : node a around (c + 2) (.list none (v :: vs)) w = items a (c + 2) (v :: vs) w := by
      conv => lhs; rw [node]
      show items a (w.itemIndent around (c + 2)) (v :: vs) w = _
      rw [hindent]
    rw [Value.legible] at hv
    obtain ⟨o, hwrote, hmargin, hlaid, hkept⟩ := h (c + 2) [' '] w hw.reaches hv
    rw [hnode]
    exact ⟨' ' :: o, hwrote, hmargin, .markList hlaid, by simp [hkept]; decide⟩
  · have hnode : node a .entry (c + 2) (.list none (v :: vs)) w = items a c (v :: vs) w := by
      conv => lhs; rw [node]
      show items a (w.itemIndent .entry (c + 2)) (v :: vs) w = _
      rw [itemIndent, hw.margin]
      rfl
    rw [Value.legible] at hv
    obtain ⟨o, hwrote, hmargin, hlaid, hkept⟩ :=
      h c _ w (Pen.reaches_newLine hw.margin c) hv
    rw [hnode]
    exact ⟨'\n' :: spaces c ++ o, hwrote, hmargin, .keyList hlaid, by simp [hkept]; decide⟩

/-- A mapping with entries: two columns deeper. -/
theorem nodeLays_map {e : Value × Value} {es : List (Value × Value)}
    (hes : Assoc.ofEntries (e :: es) = e :: es)
    (h : ∀ (c : Nat) (g : List Char) (w : Writer), w.pen.Reaches c g →
      Value.legibleEntries (c + 2) (e :: es) = true →
      ∃ o, Lays w.pen (entries a c (e :: es) w).pen g (.entries (e :: es)) c o) :
    NodeLays a (.map none (e :: es)) := by
  have hnode : ∀ around indent w, node a around indent (.map none (e :: es)) w =
      entries a indent (e :: es) w := by
    intro around indent w
    rw [node]
    rfl
  refine ⟨fun c around w hw hv => ?_, fun c w hw hv => ?_⟩
  · rw [Value.legible] at hv
    obtain ⟨o, hwrote, hmargin, hlaid, hkept⟩ := h (c + 2) [' '] w hw.reaches hv
    have hmap := Laid.markMap hlaid
    rw [hes] at hmap
    rw [hnode]
    exact ⟨' ' :: o, hwrote, hmargin, hmap, by simp [hkept]; decide⟩
  · rw [Value.legible] at hv
    obtain ⟨o, hwrote, hmargin, hlaid, hkept⟩ :=
      h (c + 2) _ w (Pen.reaches_newLine hw.margin _) hv
    have hmap := Laid.keyMap hlaid
    rw [hes] at hmap
    rw [hnode]
    exact ⟨'\n' :: spaces (c + 2) ++ o, hwrote, hmargin, hmap, by simp [hkept]; decide⟩

theorem lays_item {v : Value} (hv : NodeLays a v) (h : w.pen.Reaches c g)
    (hlegible : v.legible false (c + 2) = true) :
    ∃ o, Lays w.pen (node a .item (c + 2) v (itemStart c w)).pen g (.item v) c o := by
  obtain ⟨hstart, hbehind⟩ := itemStart_spec h
  obtain ⟨o, hwrote, hmargin, hlaid, hkept⟩ := hv.1 c .item (itemStart c w) hbehind hlegible
  refine ⟨'-' :: o, ?_, hmargin, .item hlaid, by simp [hkept]; decide⟩
  simpa using hstart.trans hwrote

theorem lays_entry {s : String} {v : Value} (hv : NodeLays a v) (h : w.pen.Reaches c g)
    (hkey : (Value.str s).legibleKey (c + 2) = true)
    (hlegible : v.legible (Value.str s).isSimpleKey (c + 2) = true) :
    ∃ o, Lays w.pen (node a .entry (c + 2) v (w.entryStart a (.str s) c)).pen g
      (.entry s.toList v) c o := by
  obtain ⟨pre, hstart, hpre, hentry⟩ := @entryStart_spec a w c g s h hkey
  rcases hentry with ⟨hsimple, hbehind, hentry⟩ | ⟨hsimple, hbehind, hentry⟩
  · rw [hsimple] at hlegible
    obtain ⟨o, hwrote, hmargin, hlaid, hkept⟩ := hv.2 c _ hbehind hlegible
    refine ⟨pre ++ o, ?_, hmargin, hentry v o hlaid, by simp [hpre, hkept]⟩
    simpa using hstart.trans hwrote
  · rw [hsimple] at hlegible
    obtain ⟨o, hwrote, hmargin, hlaid, hkept⟩ := hv.1 c .entry _ hbehind hlegible
    refine ⟨pre ++ o, ?_, hmargin, hentry v o hlaid, by simp [hpre, hkept]⟩
    simpa using hstart.trans hwrote

mutual

/-- Every plain value without labels is laid out. -/
theorem nodeLays (a : Anchors) : (v : Value) →
    (v.isPlain = true → v.isTree = true → NodeLays a v)
  | .null => fun h _ => nodeLays_scalar rfl h fun _ _ _ => rfl
  | .bool b => fun h _ => nodeLays_scalar rfl h fun _ _ _ => rfl
  | .int n => fun h _ => nodeLays_scalar rfl h fun _ _ _ => rfl
  | .str s => fun h _ => nodeLays_scalar rfl h fun _ _ _ => rfl
  | .float _ | .illFormed _ | .bytes _ | .date .. | .moment .. | .pair .. | .set .. => fun hp => by
    simp [Value.isPlain] at hp
  | .list l [] => fun _ ht => by
    simp only [Value.isTree, Bool.and_eq_true, Option.isNone_iff_eq_none] at ht
    obtain ⟨rfl, -⟩ := ht
    exact nodeLays_leaf fun _ _ _ w _ _ => ⟨_, Pen.leaf_of_brackets .emptyList (by decide) w.pen⟩
  | .list l (v :: vs) => fun hp ht => by
    simp only [Value.isTree, Bool.and_eq_true, Option.isNone_iff_eq_none] at ht
    obtain ⟨rfl, htree⟩ := ht
    rw [Value.isPlain] at hp
    exact nodeLays_list (itemsLay a (v :: vs) hp htree (by simp))
  | .map l [] => fun _ ht => by
    simp only [Value.isTree, Bool.and_eq_true, Option.isNone_iff_eq_none] at ht
    obtain ⟨rfl, -⟩ := ht
    exact nodeLays_leaf fun _ _ _ w _ _ => ⟨_, Pen.leaf_of_brackets .emptyMap (by decide) w.pen⟩
  | .map l (e :: es) => fun hp ht => by
    simp only [Value.isTree, Bool.and_eq_true, Option.isNone_iff_eq_none] at ht
    obtain ⟨rfl, htree⟩ := ht
    simp only [Value.isPlain, Bool.and_eq_true, decide_eq_true_eq] at hp
    exact nodeLays_map (Assoc.ofEntries_of_nodup hp.1) (entriesLay a (e :: es) hp.2 htree (by simp))

theorem itemsLay (a : Anchors) : (vs : List Value) → (Value.isPlainList vs = true →
    Value.isTreeList vs = true → vs ≠ [] → ∀ (c : Nat) (g : List Char) (w : Writer),
    w.pen.Reaches c g → Value.legibleItems (c + 2) vs = true →
    ∃ o, Lays w.pen (items a c vs w).pen g (.items vs) c o)
  | [] => fun _ _ hne => absurd rfl hne
  | v :: vs => fun hp ht _ c g w hw hlegible => by
    simp only [Value.isPlainList, Bool.and_eq_true] at hp
    simp only [Value.isTreeList, Bool.and_eq_true] at ht
    simp only [Value.legibleItems, Bool.and_eq_true] at hlegible
    obtain ⟨o, hitem⟩ := lays_item (nodeLays a v hp.1 ht.1) hw hlegible.1
    rw [items]
    by_cases hvs : vs = []
    · subst hvs
      rw [items]
      exact ⟨o, hitem.lastItem⟩
    · obtain ⟨o', hmore⟩ := itemsLay a vs hp.2 ht.2 hvs c _ _ (Pen.reaches_newLine hitem.margin c)
        hlegible.2
      exact ⟨_, hitem.moreItems hmore⟩

theorem entriesLay (a : Anchors) : (es : List (Value × Value)) → (Value.isPlainEntries es = true →
    Value.isTreeEntries es = true → es ≠ [] → ∀ (c : Nat) (g : List Char) (w : Writer),
    w.pen.Reaches c g → Value.legibleEntries (c + 2) es = true →
    ∃ o, Lays w.pen (entries a c es w).pen g (.entries es) c o)
  | [] => fun _ _ hne => absurd rfl hne
  | (k, v) :: es => fun hp ht _ c g w hw hlegible => by
    simp only [Value.isPlainEntries, Bool.and_eq_true] at hp
    simp only [Value.isTreeEntries, Bool.and_eq_true] at ht
    simp only [Value.legibleEntries, Bool.and_eq_true] at hlegible
    obtain ⟨s, rfl⟩ := Value.eq_str_of_isText hp.1.1
    obtain ⟨o, hentry⟩ := lays_entry (nodeLays a v hp.1.2 ht.1.2) hw hlegible.1.1 hlegible.1.2
    rw [entries]
    by_cases hes : es = []
    · subst hes
      rw [entries]
      exact ⟨o, hentry.lastEntry⟩
    · obtain ⟨o', hmore⟩ := entriesLay a es hp.2 ht.2 hes c _ _
        (Pen.reaches_newLine hentry.margin c) hlegible.2
      exact ⟨_, hentry.moreEntries hmore⟩

end

end Writer

/-! ## Documents -/

mutual

/-- All integers of a plain value can be written. -/
theorem writable_visit : (v : Value) →
    (v.isPlain = true → v.isTree = true → ∀ a : Anchors, (a.visit v).writable = a.writable)
  | .null | .bool _ | .str _ => fun _ _ a => by rw [Anchors.visit] <;> simp
  | .int n => fun hp _ a => by
    rw [Value.isPlain] at hp
    simp only [Anchors.visit, hp, Bool.and_true]
  | .float _ | .illFormed _ | .bytes _ | .date .. | .moment .. | .pair .. | .set .. => fun hp => by
    simp [Value.isPlain] at hp
  | .list l vs => fun hp ht a => by
    simp only [Value.isTree, Bool.and_eq_true, Option.isNone_iff_eq_none] at ht
    obtain ⟨rfl, htree⟩ := ht
    rw [Value.isPlain] at hp
    rw [Anchors.visit]
    exact writable_visitList vs hp htree a
  | .map l es => fun hp ht a => by
    simp only [Value.isTree, Bool.and_eq_true, Option.isNone_iff_eq_none] at ht
    obtain ⟨rfl, htree⟩ := ht
    simp only [Value.isPlain, Bool.and_eq_true] at hp
    rw [Anchors.visit]
    exact writable_visitEntries es hp.2 htree a

theorem writable_visitList : (vs : List Value) → (Value.isPlainList vs = true →
    Value.isTreeList vs = true → ∀ a : Anchors, (a.visitList vs).writable = a.writable)
  | [] => fun _ _ a => by rw [Anchors.visitList]
  | v :: vs => fun hp ht a => by
    simp only [Value.isPlainList, Bool.and_eq_true] at hp
    simp only [Value.isTreeList, Bool.and_eq_true] at ht
    rw [Anchors.visitList, writable_visitList vs hp.2 ht.2, writable_visit v hp.1 ht.1]

theorem writable_visitEntries : (es : List (Value × Value)) → (Value.isPlainEntries es = true →
    Value.isTreeEntries es = true → ∀ a : Anchors, (a.visitEntries es).writable = a.writable)
  | [] => fun _ _ a => by rw [Anchors.visitEntries]
  | (k, v) :: es => fun hp ht a => by
    simp only [Value.isPlainEntries, Bool.and_eq_true] at hp
    simp only [Value.isTreeEntries, Bool.and_eq_true] at ht
    obtain ⟨s, rfl⟩ := Value.eq_str_of_isText hp.1.1
    rw [Anchors.visitEntries, writable_visitEntries es hp.2 ht.2, writable_visit v hp.1.2 ht.1.2]
    rfl

end

/-- The text of a document is a layout of it, and all of it survives in a file. -/
theorem write_of_legible {es : List (Value × Value)} (hplain : (Value.map none es).isPlain = true)
    (htree : (Value.map none es).isTree = true)
    (hlegible : (Value.map none es).legible false 0 = true) :
    ∃ o, write (.map none es) = .ok (String.ofList (o ++ ['\n'])) ∧ o.all isKept = true ∧
      read (String.ofList (o ++ ['\n'])) = .ok (.map none es) := by
  have hwritable : (Anchors.visit {} (.map none es)).writable = true :=
    writable_visit _ hplain htree {}
  rw [write, if_pos hwritable]
  generalize Anchors.visit {} (.map none es) = a
  cases es with
  | nil => exact ⟨['\x7b', '\x7d'], rfl, by decide, by decide +kernel⟩
  | cons e es =>
    simp only [Value.isPlain, Bool.and_eq_true, decide_eq_true_eq] at hplain
    simp only [Value.isTree, Bool.and_eq_true] at htree
    rw [Value.legible] at hlegible
    have hnode :
        Writer.node a .item 0 (.map none (e :: es)) {} = Writer.entries a 0 (e :: es) {} := by
      rw [Writer.node]
      rfl
    have hstart : ({} : Writer).pen.Reaches 0 [] := ⟨rfl, rfl, rfl, rfl⟩
    obtain ⟨o, ho⟩ :=
      Writer.entriesLay a (e :: es) hplain.2 htree.2 (by simp) 0 [] {} hstart hlegible
    have hwrote := ho.wrote.trans (Pen.reaches_newLine ho.margin 0).wrote
    have hread := read_of_laid ho.laid (fun c hc => ?_) fun hmark => ?_
    · rw [Assoc.ofEntries_of_nodup hplain.1] at hread
      refine ⟨o, ?_, ho.kept, hread⟩
      rw [hnode, show (Pen.indentTo 0 _).out = _ from hwrote]
      simp [spaces]
    · have hkept := List.all_eq_true.mp ho.kept c hc
      simp only [isKept, Bool.and_eq_true] at hkept
      exact hkept.1.1
    · exact absurd (List.all_eq_true.mp ho.kept _ hmark) (by decide)

end Yaml

end AnnotatedApi
