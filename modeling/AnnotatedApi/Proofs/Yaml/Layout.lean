/-
  The layout of a document in blocks, and its tokens. `Laid` is the grammar of the layout: scalars
  and empty collections stand on the line of the mark or key before them, a list under a key stands
  at the column of the key, and every other collection two columns deeper than what it belongs to.

  Main statement: a text that lays out a mapping is read as that mapping (`read_of_laid`).
-/
import AnnotatedApi.Proofs.Yaml.BlockSteps

namespace AnnotatedApi.Yaml

/-! ## The grammar -/

/-- Scalars and empty collections as they are written in a block, with their tokens. -/
inductive Leaf (indent : Nat) : List Char → Value → List Token → Prop
  | scalar {o s : List Char} {plain : Bool} {v : Value} (h : ScalarAs indent o s plain)
      (htag : (Compose.scalarTag plain s none).isScalar = true)
      (hv : scalarValue none (Compose.scalarTag plain s none) (.text s) = .ok v) :
      Leaf indent o v [.scalar (.text s) plain]
  | emptyList : Leaf indent ['[', ']'] (.list none []) [.flowSequence, .flowSequenceEnd]
  | emptyMap : Leaf indent ['\x7b', '\x7d'] (.map none []) [.flowMapping, .flowMappingEnd]

/-- What is laid out at a column: a value behind the mark of an item or of a value, a value behind a
key on its line, an item or an entry with its mark or key, or several of them. -/
inductive Part where
  | behindMark (v : Value)
  | behindKey (v : Value)
  | item (v : Value)
  | items (vs : List Value)
  | entry (name : List Char) (v : Value)
  | entries (es : List (Value × Value))

/-- The text lays out the part at the column. -/
inductive Laid : Part → Nat → List Char → Prop
  | markLeaf {c : Nat} {o : List Char} {v : Value} {ts : List Token} (h : Leaf (c + 2) o v ts) :
      Laid (.behindMark v) c (' ' :: o)
  | markList {c : Nat} {o : List Char} {vs : List Value} (h : Laid (.items vs) (c + 2) o) :
      Laid (.behindMark (.list none vs)) c (' ' :: o)
  | markMap {c : Nat} {o : List Char} {es : List (Value × Value)}
      (h : Laid (.entries es) (c + 2) o) :
      Laid (.behindMark (.map none (Assoc.ofEntries es))) c (' ' :: o)
  | keyLeaf {c : Nat} {o : List Char} {v : Value} {ts : List Token} (h : Leaf (c + 2) o v ts) :
      Laid (.behindKey v) c (' ' :: o)
  | keyList {c : Nat} {o : List Char} {vs : List Value} (h : Laid (.items vs) c o) :
      Laid (.behindKey (.list none vs)) c ('\n' :: spaces c ++ o)
  | keyMap {c : Nat} {o : List Char} {es : List (Value × Value)} (h : Laid (.entries es) (c + 2) o) :
      Laid (.behindKey (.map none (Assoc.ofEntries es))) c ('\n' :: spaces (c + 2) ++ o)
  | item {c : Nat} {o : List Char} {v : Value} (h : Laid (.behindMark v) c o) :
      Laid (.item v) c ('-' :: o)
  | lastItem {c : Nat} {o : List Char} {v : Value} (h : Laid (.item v) c o) : Laid (.items [v]) c o
  | moreItems {c : Nat} {o o' : List Char} {v : Value} {vs : List Value} (h : Laid (.item v) c o)
      (hvs : Laid (.items vs) c o') : Laid (.items (v :: vs)) c (o ++ '\n' :: spaces c ++ o')
  | simpleEntry {c : Nat} {o o' name : List Char} {plain : Bool} {v : Value}
      (hname : ScalarAs (c + 2) o name plain) (htag : Compose.scalarTag plain name none = .str)
      (hinline : ∀ d ∈ o, isInline d = true) (hlength : o.length ≤ 1024)
      (hv : Laid (.behindKey v) c o') : Laid (.entry name v) c (o ++ ':' :: o')
  | complexEntry {c : Nat} {o o' name : List Char} {plain : Bool} {v : Value}
      (hname : ScalarAs (c + 2) o name plain) (htag : Compose.scalarTag plain name none = .str)
      (hv : Laid (.behindMark v) c o') :
      Laid (.entry name v) c ('?' :: ' ' :: o ++ '\n' :: spaces c ++ ':' :: o')
  | lastEntry {c : Nat} {o name : List Char} {v : Value} (h : Laid (.entry name v) c o) :
      Laid (.entries [(.str (String.ofList name), v)]) c o
  | moreEntries {c : Nat} {o o' name : List Char} {v : Value} {es : List (Value × Value)}
      (h : Laid (.entry name v) c o) (hes : Laid (.entries es) c o') :
      Laid (.entries ((.str (String.ofList name), v) :: es)) c (o ++ '\n' :: spaces c ++ o')

/-- A text is a scalar that is read as it. -/
theorem Leaf.text {indent : Nat} {o s : List Char} {plain : Bool} (h : ScalarAs indent o s plain)
    (htag : Compose.scalarTag plain s none = .str) :
    Leaf indent o (.str (String.ofList s)) [.scalar (.text s) plain] :=
  .scalar h (by rw [htag]; rfl) (by rw [htag]; rfl)

theorem Leaf.spells {indent : Nat} {o : List Char} {v : Value} {ts : List Token}
    (h : Leaf indent o v ts) (place : Place) : Spells (.node place v) ts := by
  cases h with
  | scalar _ htag hv => exact .scalar htag hv
  | emptyList => exact .flowSeq .flowItemsEnd
  | emptyMap => exact @Spells.flowMap place [] _ .flowEntriesEnd

theorem Leaf.begins {indent : Nat} {o : List Char} {v : Value} {ts : List Token}
    (h : Leaf indent o v ts) (r : List Char) : Begins (o ++ r) := by
  cases h with
  | scalar h _ _ => exact h.begins r
  | emptyList => exact begins_mark (by decide) (by decide) _
  | emptyMap => exact begins_mark (by decide) (by decide) _

/-- Where a part starts: behind a blank or a line break, or at a token. -/
theorem Laid.start {part : Part} {c : Nat} {o : List Char} (h : Laid part c o) :
    match part with
    | .behindMark _ | .behindKey _ => ∀ r, endOr isGap (o ++ r) = true
    | _ => ∀ r, Begins (o ++ r) := by
  induction h with
  | markLeaf _ | markList _ _ | markMap _ _ | keyLeaf _ => exact fun _ => rfl
  | keyList _ _ | keyMap _ _ => exact fun _ => rfl
  | item _ _ => exact fun r => begins_mark (by decide) (by decide) _
  | lastItem _ ih => exact ih
  | moreItems _ _ ih _ =>
    intro r
    rw [List.append_assoc, List.append_assoc]
    exact ih _
  | simpleEntry hname _ _ _ _ _ =>
    intro r
    rw [List.append_assoc]
    exact hname.begins _
  | complexEntry _ _ _ _ => exact fun r => begins_mark (by decide) (by decide) _
  | lastEntry _ ih => exact ih
  | moreEntries _ _ ih _ =>
    intro r
    rw [List.append_assoc, List.append_assoc]
    exact ih _

/-! ## The tokens of a layout -/

namespace Lexer

/-- The text `o` comes next, up to the end of its line, and the next line starts at the column `k`.
-/
structure Stands (x : Lexer) (o : List Char) (k : Nat) : Prop where
  block : x.Block
  rest : ∃ r, Begins r ∧ x.cursor.rest = o ++ '\n' :: (spaces k ++ r)

theorem lexes_leaf {x : Lexer} {indent k : Nat} {o : List Char} {v : Value} {ts : List Token}
    (h : Leaf indent o v ts) (hx : x.Stands o k) (hk : (k : Int) ≤ x.indent)
    (hcolumn : x.indent < x.cursor.column) (hindent : x.indent < indent) :
    Lexes x (x.past o ts) := by
  obtain ⟨hblock, r, hr, hrest⟩ := hx
  cases h with
  | scalar h _ _ => exact lexes_scalar hblock hrest hr hk h hcolumn hindent
  | emptyList => exact lexes_emptyList hblock hr hrest hcolumn
  | emptyMap => exact lexes_emptyMap hblock hr hrest hcolumn

/-- What the tokens of a part are and where the lexer comes to. -/
def Lexed : Part → Nat → List Char → Prop
  | .behindMark v, c, o => ∀ (x : Lexer) (k : Nat), x.Stands o k → k ≤ c → x.indent = c →
      x.cursor.column = c + 1 → x.keyAllowed = true →
      ∃ ts, (∀ place : Place, place.block = true → Spells (.node place v) ts) ∧
        Lexes x (x.past o ts)
  | .behindKey v, c, o => ∀ (x : Lexer) (k : Nat), x.Stands o k → k ≤ c → x.indent = c →
      c < x.cursor.column → ∃ ts, Spells (.node .entry v) ts ∧ Lexes x (x.past o ts)
  | .item v, c, o => ∀ (x : Lexer) (k : Nat), x.Stands o k → k ≤ c → x.indent ≤ c →
      x.cursor.column = c → x.keyAllowed = true →
      ∃ ts, Spells (.node .item v) ts ∧
        Lexes x ((x.opens c .blockSequence).past o (.blockEntry :: ts))
  | .items vs, c, o => ∀ (x : Lexer) (k : Nat), x.Stands o k → k ≤ c → x.indent ≤ c →
      x.cursor.column = c → x.keyAllowed = true →
      ∃ ts, Spells (.blockItems vs) (ts ++ [.blockEnd]) ∧ Spells (.indentlessItems vs) ts ∧
        Lexes x ((x.opens c .blockSequence).past o ts)
  | .entry name v, c, o => ∀ (x : Lexer) (k : Nat), x.Stands o k → k ≤ c → x.indent ≤ c →
      x.cursor.column = c → x.keyAllowed = true →
      ∃ plain ts, Compose.scalarTag plain name none = .str ∧ Spells (.node .entry v) ts ∧
        Lexes x ((x.opens c .blockMapping).past o (keyTokens name plain ++ ts))
  | .entries es, c, o => ∀ (x : Lexer) (k : Nat), x.Stands o k → k ≤ c → x.indent ≤ c →
      x.cursor.column = c → x.keyAllowed = true →
      ∃ ts, Spells (.blockEntries es) (ts ++ [.blockEnd]) ∧
        Lexes x ((x.opens c .blockMapping).past o ts)

section

variable {x : Lexer} {c k : Nat} {o : List Char}

/-- Behind text that has been read, more of it stands. -/
theorem Stands.past {o' : List Char} (hx : x.Stands (o ++ o') k) (ts : List Token) :
    (x.past o ts).Stands o' k := by
  obtain ⟨hblock, r, hr, hrest⟩ := hx
  refine ⟨hblock.past o ts, r, hr, ?_⟩
  rw [List.append_assoc] at hrest
  exact Cursor.rest_after hrest

theorem Stands.allowKey (hx : x.Stands o k) (b : Bool) : (x.allowKey b).Stands o k :=
  ⟨hx.block.allowKey b, hx.rest⟩

theorem Stands.opens (hx : x.Stands o k) (t : Token) : (x.opens c t).Stands o k := by
  refine ⟨hx.block.opens c t, ?_⟩
  rw [(opens_spec x c t).1]
  exact hx.rest

/-- Text that is followed by a line at the column. -/
theorem Stands.line {o' : List Char} {n : Nat} (hx : x.Stands (o ++ '\n' :: spaces n ++ o') k)
    (ho' : ∀ r, Begins (o' ++ r)) : x.Stands o n := by
  obtain ⟨hblock, r, hr, hrest⟩ := hx
  exact ⟨hblock, _, ho' ('\n' :: (spaces k ++ r)), by rw [hrest]; simp⟩

theorem lexes_blank_of_stands (hx : x.Stands (' ' :: o) k) (ho : ∀ r, Begins (o ++ r))
    (hcolumn : x.indent < x.cursor.column) :
    let y := (x.past [' '] []).allowKey x.keyAllowed
    Lexes x y ∧ y.Stands o k ∧ y.cursor.column = x.cursor.column + 1 := by
  have hy := (@Stands.past x k [' '] o hx []).allowKey x.keyAllowed
  obtain ⟨hblock, r, hr, hrest⟩ := hx
  refine ⟨lexes_blank hblock hrest (ho _) (Int.le_of_lt hcolumn), hy, ?_⟩
  exact (@Cursor.line_after x.cursor (spaces 1) _ hrest fun c => isInline_of_mem_spaces).2

theorem lexes_break_of_stands {n : Nat} (hx : x.Stands ('\n' :: spaces n ++ o) k)
    (ho : ∀ r, Begins (o ++ r)) (hn : x.indent ≤ n) :
    let y := (x.past ('\n' :: spaces n) []).allowKey true
    Lexes x y ∧ y.Stands o k ∧ y.cursor.column = n := by
  have hy := (@Stands.past x k ('\n' :: spaces n) o hx []).allowKey true
  obtain ⟨hblock, r, hr, hrest⟩ := hx
  have hline : x.cursor.rest = '\n' :: (spaces n ++ (o ++ '\n' :: (spaces k ++ r))) := by
    rw [hrest]
    simp
  exact ⟨lexes_break hblock hline (ho _) hn, hy,
    Cursor.column_after_break hline (by decide) (by decide)⟩

/-- A block that is opened by its first token is closed by the line behind it. -/
theorem lexes_closed {t : Token} {ts : List Token} (hx : x.Stands o k)
    (h : Lexes x ((x.opens c t).past o ts)) (hopen : x.indent < c) (hk : k < c) :
    Lexes x (x.past o (t :: ts ++ [.blockEnd])) := by
  obtain ⟨hblock, r, hr, hrest⟩ := hx
  exact h.trans (lexes_close hblock hopen hrest hr hk)

/-! ### Values behind a mark or a key -/

/-- A scalar or an empty collection behind a blank. -/
theorem lexes_behind {v : Value} {ts : List Token} (h : Leaf (c + 2) o v ts)
    (hx : x.Stands (' ' :: o) k) (hk : k ≤ c) (hindent : x.indent = c)
    (hcolumn : c < x.cursor.column) : Lexes x (x.past (' ' :: o) ts) := by
  obtain ⟨hblank, hy, hycolumn⟩ := lexes_blank_of_stands hx h.begins (by omega)
  have hleaf := lexes_leaf h hy (show (k : Int) ≤ x.indent by omega)
    (show x.indent < _ by rw [hycolumn]; omega) (show x.indent < _ by omega)
  rw [allowKey_past, past_past] at hleaf
  exact hblank.trans hleaf

theorem lexed_markLeaf {v : Value} {ts : List Token} (h : Leaf (c + 2) o v ts) :
    Lexed (.behindMark v) c (' ' :: o) := by
  intro x k hx hk hindent hcolumn _
  exact ⟨ts, fun place _ => h.spells place, lexes_behind h hx hk hindent (by omega)⟩

theorem lexed_keyLeaf {v : Value} {ts : List Token} (h : Leaf (c + 2) o v ts) :
    Lexed (.behindKey v) c (' ' :: o) := by
  intro x k hx hk hindent hcolumn
  exact ⟨ts, h.spells .entry, lexes_behind h hx hk hindent hcolumn⟩

theorem lexed_markList {vs : List Value} (ho : ∀ r, Begins (o ++ r))
    (h : Lexed (.items vs) (c + 2) o) : Lexed (.behindMark (.list none vs)) c (' ' :: o) := by
  intro x k hx hk hindent hcolumn hallowed
  obtain ⟨hblank, hy, hycolumn⟩ := lexes_blank_of_stands hx ho (by omega)
  obtain ⟨ts, hspells, -, hlexes⟩ := h _ k hy (by omega) (show x.indent ≤ _ by omega)
    (by rw [hycolumn, hcolumn]) hallowed
  have hclosed := lexes_closed hy hlexes (show x.indent < _ by omega) (by omega)
  rw [allowKey_past, past_past] at hclosed
  exact ⟨_, fun place hplace => .blockSeq hplace hspells, hblank.trans hclosed⟩

theorem lexed_markMap {es : List (Value × Value)} (ho : ∀ r, Begins (o ++ r))
    (h : Lexed (.entries es) (c + 2) o) :
    Lexed (.behindMark (.map none (Assoc.ofEntries es))) c (' ' :: o) := by
  intro x k hx hk hindent hcolumn hallowed
  obtain ⟨hblank, hy, hycolumn⟩ := lexes_blank_of_stands hx ho (by omega)
  obtain ⟨ts, hspells, hlexes⟩ := h _ k hy (by omega) (show x.indent ≤ _ by omega)
    (by rw [hycolumn, hcolumn]) hallowed
  have hclosed := lexes_closed hy hlexes (show x.indent < _ by omega) (by omega)
  rw [allowKey_past, past_past] at hclosed
  exact ⟨_, fun place hplace => .blockMap hplace hspells, hblank.trans hclosed⟩

theorem lexed_keyMap {es : List (Value × Value)} (ho : ∀ r, Begins (o ++ r))
    (h : Lexed (.entries es) (c + 2) o) :
    Lexed (.behindKey (.map none (Assoc.ofEntries es))) c ('\n' :: spaces (c + 2) ++ o) := by
  intro x k hx hk hindent _
  obtain ⟨hbreak, hy, hycolumn⟩ := lexes_break_of_stands hx ho (by omega)
  obtain ⟨ts, hspells, hlexes⟩ := h _ k hy (by omega) (show x.indent ≤ _ by omega) hycolumn rfl
  have hclosed := lexes_closed hy hlexes (show x.indent < _ by omega) (by omega)
  rw [allowKey_past, past_past] at hclosed
  exact ⟨_, .blockMap rfl hspells, hbreak.trans hclosed⟩

/-- A list under a key opens no block: it stands at the column of the key. -/
theorem lexed_keyList {v : Value} {vs : List Value} (ho : ∀ r, Begins (o ++ r))
    (h : Lexed (.items (v :: vs)) c o) :
    Lexed (.behindKey (.list none (v :: vs))) c ('\n' :: spaces c ++ o) := by
  intro x k hx hk hindent _
  obtain ⟨hbreak, hy, hycolumn⟩ := lexes_break_of_stands hx ho (by omega)
  obtain ⟨ts, -, hspells, hlexes⟩ := h _ k hy hk (show x.indent ≤ _ by omega) hycolumn rfl
  rw [opens_of_le (by show (c : Int) ≤ x.indent; omega), allowKey_past, past_past] at hlexes
  exact ⟨ts, .indentlessSeq hspells, hbreak.trans hlexes⟩

/-! ### Items and entries -/

/-- Behind the mark that opens a block or goes on with it. -/
theorem stands_mark {a : Char} (hx : x.Stands (a :: o) k) (ha : isInline a = true)
    (hindent : x.indent ≤ c) (t : Token) (ts : List Token) :
    let y := ((x.opens c t).past [a] ts).allowKey true
    y.Stands o k ∧ y.indent = c ∧ y.cursor.column = x.cursor.column + 1 := by
  obtain ⟨hcursor, -, -, -, -, hopens⟩ := opens_spec x c t
  refine ⟨(@Stands.past _ k [a] o (hx.opens t) ts).allowKey true, hopens hindent, ?_⟩
  obtain ⟨-, r, -, hrest⟩ := hx
  show ((x.opens c t).cursor.after [a]).column = _
  rw [hcursor]
  exact (@Cursor.line_after x.cursor [a] _ hrest (by simpa using ha)).2

/-- From one part of a block to the next line of it. -/
theorem lexes_next {o' : List Char} {t : Token} {ts : List Token}
    (hx : x.Stands (o ++ '\n' :: spaces c ++ o') k) (ho' : ∀ r, Begins (o' ++ r))
    (hindent : x.indent ≤ c) (h : Lexes x ((x.opens c t).past o ts)) :
    ∃ y : Lexer, Lexes x y ∧ y.Stands o' k ∧ y.indent = c ∧ y.cursor.column = c ∧
      y.keyAllowed = true ∧ ∀ us t', (y.opens c t').past o' us =
        (x.opens c t).past (o ++ '\n' :: spaces c ++ o') (ts ++ us) := by
  have hopens : ((x.opens c t).past o ts).indent = c := (opens_spec x c t).2.2.2.2.2 hindent
  have hline : ((x.opens c t).past o ts).Stands ('\n' :: spaces c ++ o') k :=
    Stands.past (by rw [List.append_assoc] at hx; exact hx.opens t) ts
  obtain ⟨hbreak, hy, hcolumn⟩ := lexes_break_of_stands hline ho' (by omega)
  refine ⟨_, h.trans hbreak, hy, hopens, hcolumn, rfl, fun us t' => ?_⟩
  rw [opens_of_le (by show (c : Int) ≤ ((x.opens c t).past o ts).indent; omega), allowKey_past,
    past_past, past_past]
  simp

theorem lexed_item {v : Value} (ho : ∀ r, endOr isGap (o ++ r) = true)
    (h : Lexed (.behindMark v) c o) : Lexed (.item v) c ('-' :: o) := by
  intro x k hx hk hindent hcolumn hallowed
  obtain ⟨hblock, r, -, hrest⟩ := id hx
  have hdash := lexes_dash hblock hrest (ho _) hallowed (by omega)
  rw [hcolumn] at hdash
  obtain ⟨hy, hyindent, hycolumn⟩ := stands_mark hx (by decide) hindent .blockSequence [.blockEntry]
  obtain ⟨ts, hspells, hlexes⟩ := h _ k hy hk hyindent (by omega) rfl
  rw [allowKey_past, past_past] at hlexes
  exact ⟨ts, hspells .item rfl, hdash.trans hlexes⟩

theorem lexed_lastItem {v : Value} (h : Lexed (.item v) c o) : Lexed (.items [v]) c o := by
  intro x k hx hk hindent hcolumn hallowed
  obtain ⟨ts, hspells, hlexes⟩ := h x k hx hk hindent hcolumn hallowed
  have hblock := Spells.blockItem hspells .blockItemsEnd
  have hindentless := Spells.indentlessItem hspells .indentlessEnd
  rw [List.append_nil] at hindentless
  exact ⟨.blockEntry :: ts, hblock, hindentless, hlexes⟩

theorem lexed_moreItems {o' : List Char} {v : Value} {vs : List Value}
    (ho' : ∀ r, Begins (o' ++ r)) (h : Lexed (.item v) c o) (hvs : Lexed (.items vs) c o') :
    Lexed (.items (v :: vs)) c (o ++ '\n' :: spaces c ++ o') := by
  intro x k hx hk hindent hcolumn hallowed
  obtain ⟨ts, hspells, hlexes⟩ := h x c (hx.line ho') (Nat.le_refl c) hindent hcolumn hallowed
  obtain ⟨y, hnext, hy, hyindent, hycolumn, hyallowed, hpast⟩ := lexes_next hx ho' hindent hlexes
  obtain ⟨us, hblock, hindentless, hmore⟩ := hvs y k hy hk (by omega) hycolumn hyallowed
  rw [hpast] at hmore
  refine ⟨.blockEntry :: ts ++ us, ?_, .indentlessItem hspells hindentless, hnext.trans hmore⟩
  rw [List.append_assoc]
  exact .blockItem hspells hblock

theorem lexed_simpleEntry {o' name : List Char} {plain : Bool} {v : Value}
    (hname : ScalarAs (c + 2) o name plain) (htag : Compose.scalarTag plain name none = .str)
    (hinline : ∀ d ∈ o, isInline d = true) (hlength : o.length ≤ 1024)
    (ho' : ∀ r, endOr isGap (o' ++ r) = true) (h : Lexed (.behindKey v) c o') :
    Lexed (.entry name v) c (o ++ ':' :: o') := by
  intro x k hx hk hindent hcolumn hallowed
  obtain ⟨hblock, r, -, hrest⟩ := id hx
  rw [List.append_assoc] at hrest
  have hkey := lexes_key hblock hrest (ho' _) hname hinline hlength hallowed (by omega)
    (by omega) (by omega)
  rw [hcolumn] at hkey
  obtain ⟨hcursor, -, -, -, -, hopens⟩ := opens_spec x c .blockMapping
  have hy : ((x.opens c .blockMapping).past (o ++ [':']) (keyTokens name plain)).Stands o' k :=
    Stands.past (by rw [List.append_assoc]; exact hx.opens _) _
  have hycolumn : c < ((x.opens c .blockMapping).cursor.after (o ++ [':'])).column := by
    have hmark : ∀ d ∈ o ++ [':'], isInline d = true := by
      simpa [or_imp, forall_and] using ⟨hinline, by decide⟩
    rw [hcursor, (@Cursor.line_after x.cursor (o ++ [':']) _ (by simpa using hrest) hmark).2,
      List.length_append, List.length_singleton]
    omega
  obtain ⟨ts, hspells, hlexes⟩ := h _ k hy hk (hopens hindent) hycolumn
  rw [past_past] at hlexes
  exact ⟨plain, ts, htag, hspells, hkey.trans (by simpa using hlexes)⟩

theorem lexed_complexEntry {o' name : List Char} {plain : Bool} {v : Value}
    (hname : ScalarAs (c + 2) o name plain) (htag : Compose.scalarTag plain name none = .str)
    (ho' : ∀ r, endOr isGap (o' ++ r) = true) (h : Lexed (.behindMark v) c o') :
    Lexed (.entry name v) c ('?' :: ' ' :: o ++ '\n' :: spaces c ++ ':' :: o') := by
  intro x k hx hk hindent hcolumn hallowed
  obtain ⟨hblock, r, -, hrest⟩ := id hx
  have hquestion := lexes_question hblock hrest rfl hallowed (by omega)
  rw [hcolumn] at hquestion
  obtain ⟨hy, hyindent, hycolumn⟩ := stands_mark hx (by decide) hindent .blockMapping [.key]
  -- the key is a scalar behind a mark, up to the line of the colon
  have hbegins : ∀ r, Begins (':' :: o' ++ r) := fun r => begins_mark (by decide) (by decide) _
  have hscalar := lexes_behind (Leaf.text hname htag) (hy.line hbegins) (Nat.le_refl c) hyindent
    (by omega)
  have hopened := opens_of_le (Int.le_of_eq hyindent.symm) .blockMapping
  obtain ⟨z, hnext, hz, hzindent, hzcolumn, hzallowed, hpast⟩ :=
    lexes_next hy hbegins (Int.le_of_eq hyindent) (by rw [hopened]; exact hscalar)
  obtain ⟨hzblock, r', -, hzrest⟩ := id hz
  have hcolon := lexes_colon hzblock hzrest (ho' _) hzallowed (by omega)
  rw [hzcolumn] at hcolon
  obtain ⟨hw, hwindent, hwcolumn⟩ :=
    stands_mark hz (by decide) (Int.le_of_eq hzindent) .blockMapping [.value]
  obtain ⟨ts, hspells, hlexes⟩ := h _ k hw hk hwindent (by omega) rfl
  rw [allowKey_past, past_past, List.singleton_append, hpast, hopened, allowKey_past, past_past]
    at hlexes
  exact ⟨plain, ts, htag, hspells .entry rfl, hquestion.trans (hnext.trans (hcolon.trans hlexes))⟩

theorem lexed_lastEntry {name : List Char} {v : Value} (h : Lexed (.entry name v) c o) :
    Lexed (.entries [(.str (String.ofList name), v)]) c o := by
  intro x k hx hk hindent hcolumn hallowed
  obtain ⟨plain, ts, htag, hspells, hlexes⟩ := h x k hx hk hindent hcolumn hallowed
  exact ⟨_, .blockEntry htag hspells .blockEntriesEnd, hlexes⟩

theorem lexed_moreEntries {o' name : List Char} {v : Value} {es : List (Value × Value)}
    (ho' : ∀ r, Begins (o' ++ r)) (h : Lexed (.entry name v) c o) (hes : Lexed (.entries es) c o') :
    Lexed (.entries ((.str (String.ofList name), v) :: es)) c (o ++ '\n' :: spaces c ++ o') := by
  intro x k hx hk hindent hcolumn hallowed
  obtain ⟨plain, ts, htag, hspells, hlexes⟩ :=
    h x c (hx.line ho') (Nat.le_refl c) hindent hcolumn hallowed
  obtain ⟨y, hnext, hy, hyindent, hycolumn, hyallowed, hpast⟩ := lexes_next hx ho' hindent hlexes
  obtain ⟨us, hentries, hmore⟩ := hes y k hy hk (by omega) hycolumn hyallowed
  rw [hpast] at hmore
  refine ⟨keyTokens name plain ++ ts ++ us, ?_, hnext.trans hmore⟩
  rw [List.append_assoc]
  exact .blockEntry htag hspells hentries

end

/-- The tokens of a layout spell what is laid out. -/
theorem lexed_of_laid {part : Part} {c : Nat} {o : List Char} (h : Laid part c o) :
    Lexed part c o := by
  induction h with
  | markLeaf h => exact lexed_markLeaf h
  | markList h ih => exact lexed_markList h.start ih
  | markMap h ih => exact lexed_markMap h.start ih
  | keyLeaf h => exact lexed_keyLeaf h
  | keyList h ih =>
    cases h with
    | lastItem _ => exact lexed_keyList (Laid.lastItem ‹_›).start ih
    | moreItems _ _ => exact lexed_keyList (Laid.moreItems ‹_› ‹_›).start ih
  | keyMap h ih => exact lexed_keyMap h.start ih
  | item h ih => exact lexed_item h.start ih
  | lastItem _ ih => exact lexed_lastItem ih
  | moreItems _ hvs ih ihvs => exact lexed_moreItems hvs.start ih ihvs
  | simpleEntry hname htag hinline hlength hv ih =>
    exact lexed_simpleEntry hname htag hinline hlength hv.start ih
  | complexEntry hname htag hv ih => exact lexed_complexEntry hname htag hv.start ih
  | lastEntry _ ih => exact lexed_lastEntry ih
  | moreEntries _ hes ih ihes => exact lexed_moreEntries hes.start ih ihes

/-- At the end of the text all blocks are closed. -/
theorem take_nil {x : Lexer} (hx : x.Block) (hrest : x.cursor.rest = []) :
    x.take = .ok { x.unwindTo (-1) with key := none, keyAllowed := false, done := true } := by
  have hflow : x.flow = false := by rw [flow, hx.outer]; rfl
  have hkey : (x.unwindTo (-1)).key = none := by
    rw [unwindTo, hflow]
    exact (unwind_eq (f := key) (fun _ _ _ _ _ => rfl) _ _ _).trans hx.key
  rw [take, hrest]
  dsimp only
  rw [settled, dropKey, hkey]
  rfl

end Lexer

open Lexer in
/-- The tokens of a text whose last line ends with a line break. -/
theorem tokens_of_lexes {s : List Char} {y : Lexer} (hmark : s.head? ≠ some '\uFEFF')
    (h : Lexes (start s) y) (hy : y.Block) (hrest : y.cursor.rest = ['\n'])
    (hindent : y.indent ≤ 0) :
    tokens s =
      (Token.streamEnd :: (((y.past ['\n'] []).allowKey true).unwindTo (-1)).tokens).reverse := by
  have hsees : (Cursor.start s).sees '\uFEFF' = false := sees_eq_false hmark
  have hend : Begins [] := ⟨fun c hc => (by cases hc), by simp⟩
  have hz := (hy.past ['\n'] []).allowKey true
  have happroach : y.approach = .ok ((y.past ['\n'] []).allowKey true) := by
    rw [@approach_break y [] 0 hy.fits hrest hend hy.outer (hy.aged _),
      unwindTo_of_le (by exact hindent)]
    rfl
  have hstep := (step_eq y).trans (congrArg (· >>= take) happroach)
  rw [ok_bind, take_nil hz (@Cursor.rest_after y.cursor ['\n'] [] hrest)] at hstep
  have hfuel : (start s).cursor.rest.length < s.length + 2 := Nat.lt_add_of_pos_right (by decide)
  rw [tokens, hsees]
  exact run_of_lexes h hstep rfl hfuel

open Lexer in
/-- **A layout is read as what is laid out.** -/
theorem read_of_laid {es : List (Value × Value)} {o : List Char} (h : Laid (.entries es) 0 o)
    (hallowed : ∀ c ∈ o, isAllowed c = true) (hmark : '\uFEFF' ∉ o) :
    read (String.ofList (o ++ ['\n'])) = .ok (.map none (Assoc.ofEntries es)) := by
  have hne : o ≠ [] := by
    rintro rfl
    exact absurd (h.start ['#']).2 (by simp)
  have hblock : (Lexer.start (o ++ ['\n'])).Block := ⟨Cursor.fits_start _, rfl, rfl, rfl⟩
  have hstands : (Lexer.start (o ++ ['\n'])).Stands o 0 :=
    ⟨hblock, [], ⟨fun c hc => (by cases hc), by simp⟩, rfl⟩
  obtain ⟨ts, hspells, hlexes⟩ := lexed_of_laid h _ 0 hstands (Nat.le_refl 0)
    (show (-1 : Int) ≤ 0 by decide) rfl rfl
  have hopens := @opens_of_lt (Lexer.start (o ++ ['\n'])) 0 (show (-1 : Int) < 0 by decide)
    .blockMapping
  rw [hopens] at hlexes
  have htokens := tokens_of_lexes ?_ hlexes (hopens ▸ (hblock.opens 0 _).past o ts)
    (Cursor.rest_after rfl) (Int.le_refl 0)
  · refine read_of_spells ?_ ?_ (.blockMap rfl hspells)
    · rw [String.toList_ofList, List.all_eq_true]
      intro c hc
      rcases List.mem_append.mp hc with hc | hc
      · exact hallowed c hc
      · rw [List.mem_singleton.mp hc]
        decide
    · rw [String.toList_ofList, htokens]
      show (Token.streamEnd :: .blockEnd :: (ts.reverse ++ [.blockMapping])).reverse = _
      simp
  · obtain ⟨c, o', rfl⟩ := List.exists_cons_of_ne_nil hne
    intro hc
    exact hmark (by rw [← Option.some.inj hc]; exact List.mem_cons_self)

end AnnotatedApi.Yaml
