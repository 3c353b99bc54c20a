/-
  JSON texts as YAML texts. A text of JSON is one of YAML too, unless it has a tab between tokens or
  a character that YAML does not allow or takes for a line break, half a character in an escape, a
  number out of the notation of YAML, or a key that YAML does not look for (`Json.isCommon`).

  The reader of JSON is followed step by step: where it reads a value, the items of a list or the
  entries of an object, the lexer of YAML comes to the same place, with tokens that spell what was
  read (`Json.lexed`).

  Main statements: such a text is read as the same value (`Json.read_yaml`), and a comment file that
  holds it has the comments of that value (`loadComments_json`).
-/
import AnnotatedApi.Proofs.Files
import AnnotatedApi.Proofs.JsonGrammar
import AnnotatedApi.Proofs.Yaml.JsonScalars

namespace AnnotatedApi

namespace Json

/-! ## Texts of both notations -/

/-- Whether a string, given by its code points, has no half of a character. -/
def isCommonString (ns : List Nat) : Bool := ns.all fun n => decide n.isValidChar

/-- The text behind the colon of the key at the front, if the colon stands on the line of the key
and at most 1024 characters behind its start. -/
def afterKey? (s : List Char) : Option (List Char) :=
  match s with
  | '"' :: t =>
    match stringRest t with
    | .ok (ns, u) =>
      match skipBlanks u with
      | ':' :: w =>
        if isCommonString ns && !(u.takeWhile isBlank).contains '\n' &&
            s.length - (w.length + 1) ≤ 1024 then
          some (skipBlanks w)
        else none
      | _ => none
    | .error _ => none
  | _ => none

mutual

/-- Whether all that the value at the front holds is common to both notations. -/
def isCommonValue : Nat → List Char → Bool
  | 0, _ => false
  | fuel + 1, s =>
    match s with
    | '"' :: t =>
      match stringRest t with
      | .ok (ns, _) => isCommonString ns
      | .error _ => false
    | '[' :: t =>
      match skipBlanks t with
      | ']' :: _ => true
      | t => areCommonParts false fuel t
    | '\x7b' :: t =>
      match skipBlanks t with
      | '\x7d' :: _ => true
      | t => areCommonParts true fuel t
    | s => isCommonSimple s

/-- The same for the items of a list, or for the entries of an object with their keys. -/
def areCommonParts (keyed : Bool) : Nat → List Char → Bool
  | 0, _ => false
  | fuel + 1, s =>
    match if keyed then afterKey? s else some s with
    | none => false
    | some t =>
      isCommonValue fuel t &&
        match value fuel t with
        | .ok (_, u) =>
          match skipBlanks u with
          | ',' :: w => areCommonParts keyed fuel (skipBlanks w)
          | _ => true
        | .error _ => false

end

/-- Whether a text of JSON holds only what YAML reads in the same way. -/
def isCommon (text : String) : Bool :=
  text.toList.all isCommonChar &&
    isCommonValue (text.toList.length + 1) (skipBlanks text.toList)

/-! ## What the reader has read -/

theorem items_of_ok {fuel : Nat} {s r : List Char} {vs : List Value}
    (h : items (fuel + 1) s = .ok (vs, r)) :
    ∃ v t, value fuel s = .ok (v, t) ∧
      ((skipBlanks t = ']' :: r ∧ vs = [v]) ∨
        ∃ u ws, skipBlanks t = ',' :: u ∧ items fuel (skipBlanks u) = .ok (ws, r) ∧
          vs = v :: ws) := by
  rw [items] at h
  obtain ⟨⟨v, t⟩, hvalue, h⟩ := exists_of_bind_ok h
  dsimp only at h
  refine ⟨v, t, hvalue, ?_⟩
  split at h
  · next hend =>
    cases h
    exact Or.inl ⟨hend, rfl⟩
  · next u hcomma =>
    obtain ⟨⟨ws, rest⟩, hitems, h⟩ := exists_of_bind_ok h
    cases h
    exact Or.inr ⟨u, ws, hcomma, hitems, rfl⟩
  · cases h

theorem entries_of_ok {fuel : Nat} {s r : List Char} {es : List (Value × Value)}
    (h : entries (fuel + 1) s = .ok (es, r)) :
    ∃ t ns u w v z, s = '"' :: t ∧ stringRest t = .ok (ns, u) ∧ skipBlanks u = ':' :: w ∧
      value fuel (skipBlanks w) = .ok (v, z) ∧
      ((skipBlanks z = '\x7d' :: r ∧ es = [(ofUnits ns, v)]) ∨
        ∃ q fs, skipBlanks z = ',' :: q ∧ entries fuel (skipBlanks q) = .ok (fs, r) ∧
          es = (ofUnits ns, v) :: fs) := by
  rw [entries.eq_def] at h
  dsimp only at h
  split at h
  · next t =>
    obtain ⟨⟨ns, u⟩, hstring, h⟩ := exists_of_bind_ok h
    dsimp only at h
    split at h
    · next w hcolon =>
      obtain ⟨⟨v, z⟩, hvalue, h⟩ := exists_of_bind_ok h
      dsimp only at h
      refine ⟨t, ns, u, w, v, z, rfl, hstring, hcolon, hvalue, ?_⟩
      split at h
      · next hend =>
        cases h
        exact Or.inl ⟨hend, rfl⟩
      · next q hcomma =>
        obtain ⟨⟨fs, rest⟩, hentries, h⟩ := exists_of_bind_ok h
        cases h
        exact Or.inr ⟨q, fs, hcomma, hentries, rfl⟩
      · cases h
    · cases h
  · cases h

/-! ## The tokens of a text -/

theorem isPad_of_isBlank {c : Char} (hblank : isBlank c = true) (hcommon : isCommonChar c = true) :
    Yaml.isPad c = true := by
  simp only [isBlank, Bool.or_eq_true, decide_eq_true_eq] at hblank
  rcases hblank with ((rfl | rfl) | rfl) | rfl
  · rfl
  · exact absurd hcommon (by decide)
  · rfl
  · exact absurd hcommon (by decide)

variable {s r : List Char}

/-- A text of both notations starts with blanks and line feeds. -/
theorem blanks_append (hs : ∀ c ∈ s, isCommonChar c = true) :
    s = s.takeWhile isBlank ++ skipBlanks s ∧ ∀ c ∈ s.takeWhile isBlank, Yaml.isPad c = true := by
  have hsplit : s = s.takeWhile isBlank ++ skipBlanks s := List.takeWhile_append_dropWhile.symm
  refine ⟨hsplit, fun c hc => isPad_of_isBlank (List.all_eq_true.mp List.all_takeWhile c hc) ?_⟩
  exact hs c (by rw [hsplit]; exact List.mem_append_left _ hc)

theorem common_skipBlanks (hs : ∀ c ∈ s, isCommonChar c = true) :
    ∀ c ∈ skipBlanks s, isCommonChar c = true := fun c hc =>
  hs c ((List.dropWhile_suffix isBlank).subset hc)

open Yaml Lexer

/-- The lexer is before the text `s`, which is common to both notations, and no key is open. -/
structure Ready (x : Lexer) (s : List Char) : Prop where
  loose : x.Loose
  key : x.key = none
  place : x.At s
  common : ∀ c ∈ s, isCommonChar c = true

theorem at_skipBlanks {x : Lexer} (hrest : x.cursor.rest = s)
    (hs : ∀ c ∈ s, isCommonChar c = true) : x.At (skipBlanks s) := by
  obtain ⟨hsplit, hpad⟩ := blanks_append hs
  exact ⟨_, hpad, hrest.trans hsplit⟩

theorem ready_skipBlanks {x : Lexer} (hx : x.Loose) (hkey : x.key = none)
    (hrest : x.cursor.rest = s) (hs : ∀ c ∈ s, isCommonChar c = true) : Ready x (skipBlanks s) :=
  ⟨hx, hkey, at_skipBlanks hrest hs, common_skipBlanks hs⟩

/-- Inside a collection, behind its bracket. -/
theorem ready_open {x : Lexer} {c : Char} {t : List Char} {tok : Token} (hx : Ready x (c :: t))
    (hc : c = '[' ∧ tok = .flowSequence ∨ c = '\x7b' ∧ tok = .flowMapping) :
    ∃ y, Reads x [tok] y ∧ Ready y (skipBlanks t) ∧ y.keyAllowed = true ∧
      y.outerKeys.length = x.outerKeys.length + 1 := by
  obtain ⟨y, hy, hrest, hkey, hallowed, hdepth⟩ := reads_open hx.loose hx.key hx.place hc
  exact ⟨y, hy, ready_skipBlanks hy.loose hkey hrest fun c hc => hx.common c (by simp [hc]),
    hallowed, hdepth⟩

/-- At the next part of a collection, behind a comma. -/
theorem ready_comma {x : Lexer} {u : List Char} (hx : x.Loose) (hplace : x.At (skipBlanks s))
    (hs : ∀ c ∈ s, isCommonChar c = true) (hcomma : skipBlanks s = ',' :: u) :
    ∃ y, Reads x [.flowEntry] y ∧ Ready y (skipBlanks u) ∧ y.keyAllowed = true ∧
      y.outerKeys.length = x.outerKeys.length := by
  have hrest := common_skipBlanks hs
  rw [hcomma] at hplace hrest
  obtain ⟨y, hy, hyrest, hkey, hallowed, hdepth⟩ := reads_comma hx hplace
  exact ⟨y, hy, ready_skipBlanks hy.loose hkey hyrest fun c hc => hrest c (by simp [hc]), hallowed,
    hdepth⟩

/-- Behind a collection. -/
theorem reads_end {x : Lexer} {c : Char} {tok : Token} {depth : Nat} (hx : x.Loose)
    (hplace : x.At (skipBlanks s)) (hs : ∀ c ∈ s, isCommonChar c = true)
    (hend : skipBlanks s = c :: r)
    (hc : c = ']' ∧ tok = .flowSequenceEnd ∨ c = '\x7d' ∧ tok = .flowMappingEnd)
    (hdepth : x.outerKeys.length = depth + 1) :
    ∃ y, Reads x [tok] y ∧ y.cursor.rest = r ∧ (∀ c ∈ r, isCommonChar c = true) ∧
      y.outerKeys.length = depth := by
  have hrest := common_skipBlanks hs
  rw [hend] at hplace hrest
  obtain ⟨y, hy, hyrest, hydepth⟩ := reads_close hx hplace hc hdepth
  exact ⟨y, hy, hyrest, fun c hc => hrest c (by simp [hc]), hydepth⟩

/-- A value ends at blanks, line feeds and the end of a part of a collection. -/
def PartEnds (r : List Char) : Prop := ∃ c t, skipBlanks r = c :: t ∧ isEnd c = true

/-- From `x` a value is read as `v`, up to the text `r` behind it. -/
def Takes (x : Lexer) (v : Value) (r : List Char) : Prop :=
  ∃ y ts, Reads x ts y ∧ y.At (skipBlanks r) ∧ y.outerKeys.length = x.outerKeys.length ∧
    (∀ c ∈ r, isCommonChar c = true) ∧ ∀ place, Spells (.node place v) ts

/-- A value that the reader takes from the front is read. A scalar has to stand in a collection. -/
def ValueLexed (fuel : Nat) : Prop :=
  ∀ {x : Lexer} {s r : List Char} {v : Value}, Ready x s → value fuel s = .ok (v, r) →
    isCommonValue fuel s = true →
    (s.head? = some '[' ∨ s.head? = some '\x7b') ∨ (x.flow = true ∧ PartEnds r) → Takes x v r

def ItemsLexed (fuel : Nat) : Prop :=
  ∀ {x : Lexer} {s r : List Char} {vs : List Value} {depth : Nat}, Ready x s →
    x.outerKeys.length = depth + 1 → items fuel s = .ok (vs, r) →
    areCommonParts false fuel s = true →
    ∃ y ts, Reads x ts y ∧ y.cursor.rest = r ∧ y.outerKeys.length = depth ∧
      (∀ c ∈ r, isCommonChar c = true) ∧ ∀ first, Spells (.flowItems first vs) (comma first ++ ts)

def EntriesLexed (fuel : Nat) : Prop :=
  ∀ {x : Lexer} {s r : List Char} {es : List (Value × Value)} {depth : Nat}, Ready x s →
    x.keyAllowed = true → x.outerKeys.length = depth + 1 → entries fuel s = .ok (es, r) →
    areCommonParts true fuel s = true →
    ∃ y ts, Reads x ts y ∧ y.cursor.rest = r ∧ y.outerKeys.length = depth ∧
      (∀ c ∈ r, isCommonChar c = true) ∧ ∀ first, Spells (.flowEntries first es) (comma first ++ ts)

theorem flow_of_depth {x : Lexer} {depth : Nat} (h : x.outerKeys.length = depth + 1) :
    x.flow = true := by
  cases houter : x.outerKeys with
  | nil => rw [houter] at h; cases h
  | cons _ _ => simp [flow, houter]

theorem itemsLexed_succ {fuel : Nat} (hvalue : ValueLexed fuel) (hitems : ItemsLexed fuel) :
    ItemsLexed (fuel + 1) := by
  intro x s r vs depth hx hdepth hread hcommon
  obtain ⟨v, t, hv, hnext⟩ := items_of_ok hread
  simp only [areCommonParts, Bool.false_eq_true, if_false, hv, Bool.and_eq_true] at hcommon
  have hends : PartEnds t := by
    rcases hnext with ⟨hend, -⟩ | ⟨u, ws, hcomma, -⟩
    · exact ⟨_, _, hend, rfl⟩
    · exact ⟨_, _, hcomma, rfl⟩
  obtain ⟨y, ts, hy, hplace, hsame, ht, hspells⟩ :=
    hvalue hx hv hcommon.1 (Or.inr ⟨flow_of_depth hdepth, hends⟩)
  have hydepth := hsame.trans hdepth
  rcases hnext with ⟨hend, rfl⟩ | ⟨u, ws, hcomma, hmore, rfl⟩
  · obtain ⟨z, hz, hzrest, hr, hzdepth⟩ :=
      reads_end hy.loose hplace ht hend (Or.inl ⟨rfl, rfl⟩) hydepth
    refine ⟨z, ts ++ [.flowSequenceEnd], hy.trans hz, hzrest, hzdepth, hr, fun first => ?_⟩
    rw [← List.append_assoc]
    exact .flowItem (hspells .flow) .flowItemsEnd
  · obtain ⟨z, hz, hready, -, hzdepth⟩ := ready_comma hy.loose hplace ht hcomma
    rw [hcomma] at hcommon
    obtain ⟨w, us, hw, hwrest, hwdepth, hr, hmoreSpells⟩ :=
      hitems hready (hzdepth.trans hydepth) hmore hcommon.2
    refine ⟨w, ts ++ ([.flowEntry] ++ us), hy.trans (hz.trans hw), hwrest, hwdepth, hr,
      fun first => ?_⟩
    rw [← List.append_assoc (comma first)]
    exact .flowItem (hspells .flow) (hmoreSpells false)

/-- Blanks without a line feed are spaces. -/
theorem takeWhile_eq_spaces (hs : ∀ c ∈ s, isCommonChar c = true)
    (hline : (s.takeWhile isBlank).contains '\n' = false) :
    s.takeWhile isBlank = spaces (s.takeWhile isBlank).length := by
  refine List.eq_replicate_of_mem fun c hc => ?_
  have hpad := (blanks_append hs).2 c hc
  simp only [isPad, Bool.or_eq_true, decide_eq_true_eq] at hpad
  refine hpad.resolve_right ?_
  rintro rfl
  simp [hc] at hline

/-- A key that both readers take for one. -/
theorem reads_afterKey {x : Lexer} {t u w z : List Char} {ns : List Nat} (hx : Ready x ('"' :: t))
    (hallowed : x.keyAllowed = true) (hflow : x.flow = true) (hstring : stringRest t = .ok (ns, u))
    (hcolon : skipBlanks u = ':' :: w) (hkey : afterKey? ('"' :: t) = some z) :
    ∃ y name, Reads x (keyTokens name false) y ∧ Ready y z ∧
      y.outerKeys.length = x.outerKeys.length ∧ ofUnits ns = .str (String.ofList name) ∧
      z = skipBlanks w := by
  simp only [afterKey?, hstring, hcolon] at hkey
  split at hkey
  · next hcommon =>
    cases hkey
    simp only [Bool.and_eq_true, Bool.not_eq_true', decide_eq_true_eq] at hcommon
    obtain ⟨⟨hns, hline⟩, hlength⟩ := hcommon
    have hvalid : ∀ n ∈ ns, n.isValidChar := fun n hn =>
      of_decide_eq_true (List.all_eq_true.mp hns n hn)
    have ht : ∀ c ∈ t, isCommonChar c = true := fun c hc => hx.common c (List.mem_cons_of_mem _ hc)
    obtain ⟨body, rfl, hbody, -, hinside⟩ := quotes_of_stringRest hstring ht hvalid
    obtain ⟨hname, hpoints⟩ := ofUnits_of_valid hvalid
    rw [← hpoints] at hbody
    have hu : ∀ c ∈ u, isCommonChar c = true := fun c hc => ht c (by simp [hc])
    -- the blanks before the colon are spaces
    have hspaces := takeWhile_eq_spaces hu hline
    have hsplit := (blanks_append hu).1
    rw [hspaces, hcolon] at hsplit
    generalize (u.takeWhile isBlank).length = k at hsplit
    subst hsplit
    obtain ⟨y, hy, hyrest, hykey, hydepth⟩ := reads_key (r := w) (k := k) hx.loose hflow hx.key
      hallowed (by simpa using hx.place) hbody hinside (by
        simp only [List.length_cons, List.length_append, length_spaces] at hlength
        omega)
    refine ⟨y, _, hy, ready_skipBlanks hy.loose hykey hyrest fun c hc => hu c (by simp [hc]),
      hydepth, hname, rfl⟩
  · cases hkey

theorem entriesLexed_succ {fuel : Nat} (hvalue : ValueLexed fuel) (hentries : EntriesLexed fuel) :
    EntriesLexed (fuel + 1) := by
  intro x s r es depth hx hallowed hdepth hread hcommon
  obtain ⟨t, ns, u, w, v, z, rfl, hstring, hcolon, hv, hnext⟩ := entries_of_ok hread
  simp only [areCommonParts, if_true] at hcommon
  cases hkey : afterKey? ('"' :: t) with
  | none => rw [hkey] at hcommon; cases hcommon
  | some q =>
    obtain ⟨a, name, ha, hready, hadepth, hname, rfl⟩ :=
      reads_afterKey hx hallowed (flow_of_depth hdepth) hstring hcolon hkey
    simp only [hkey, hv, Bool.and_eq_true] at hcommon
    have hends : PartEnds z := by
      rcases hnext with ⟨hend, -⟩ | ⟨u, ws, hcomma, -⟩
      · exact ⟨_, _, hend, rfl⟩
      · exact ⟨_, _, hcomma, rfl⟩
    obtain ⟨y, ts, hy, hplace, hsame, hz, hspells⟩ := hvalue hready hv hcommon.1
      (Or.inr ⟨flow_of_depth (hadepth.trans hdepth), hends⟩)
    have hydepth := hsame.trans (hadepth.trans hdepth)
    rw [hname] at hnext
    rcases hnext with ⟨hend, rfl⟩ | ⟨q, fs, hcomma, hmore, rfl⟩
    · obtain ⟨b, hb, hbrest, hr, hbdepth⟩ :=
        reads_end hy.loose hplace hz hend (Or.inr ⟨rfl, rfl⟩) hydepth
      refine ⟨b, keyTokens name false ++ (ts ++ [.flowMappingEnd]), ha.trans (hy.trans hb), hbrest,
        hbdepth, hr, fun first => ?_⟩
      rw [← List.append_assoc, ← List.append_assoc]
      exact .flowEntry rfl (hspells .flow) .flowEntriesEnd
    · obtain ⟨b, hb, hready, hballowed, hbdepth⟩ := ready_comma hy.loose hplace hz hcomma
      rw [hcomma] at hcommon
      obtain ⟨e, us, he, herest, hedepth, hr, hmoreSpells⟩ :=
        hentries hready hballowed (hbdepth.trans hydepth) hmore hcommon.2
      refine ⟨e, keyTokens name false ++ (ts ++ ([.flowEntry] ++ us)),
        ha.trans (hy.trans (hb.trans he)), herest, hedepth, hr, fun first => ?_⟩
      rw [← List.append_assoc, ← List.append_assoc (comma first ++ _)]
      exact .flowEntry rfl (hspells .flow) (hmoreSpells false)

theorem takes_string {x : Lexer} {t : List Char} {ns : List Nat} (hx : Ready x ('"' :: t))
    (hstring : stringRest t = .ok (ns, r)) (hns : isCommonString ns = true) (hends : PartEnds r) :
    Takes x (ofUnits ns) r := by
  have hvalid : ∀ n ∈ ns, n.isValidChar := fun n hn =>
    of_decide_eq_true (List.all_eq_true.mp hns n hn)
  have ht : ∀ c ∈ t, isCommonChar c = true := fun c hc => hx.common c (List.mem_cons_of_mem _ hc)
  obtain ⟨body, rfl, hbody, -, -⟩ := quotes_of_stringRest hstring ht hvalid
  obtain ⟨hname, hpoints⟩ := ofUnits_of_valid hvalid
  rw [← hpoints] at hbody
  have hr : ∀ c ∈ r, isCommonChar c = true := fun c hc => ht c (by simp [hc])
  have hquote : r.head? ≠ some '\'' := by
    obtain ⟨c, t, hskip, hc⟩ := hends
    intro hhead
    cases r with
    | nil => cases hhead
    | cons d r =>
      cases hhead
      rw [← (List.cons.inj hskip).1] at hc
      cases hc
  obtain ⟨y, hy, hyrest, hydepth⟩ :=
    reads_string hx.loose hx.key (by simpa using hx.place) hbody hquote
  refine ⟨y, _, hy, at_skipBlanks hyrest hr, hydepth, hr, fun place => ?_⟩
  rw [hname]
  exact .scalar rfl rfl

theorem takes_simple {x : Lexer} {v : Value} (hx : Ready x s) (hflow : x.flow = true)
    (hread : simple s = .ok (v, r)) (hcommon : isCommonSimple s = true) (hends : PartEnds r) :
    Takes x v r := by
  obtain ⟨o, rfl, ho, htag, hv⟩ := startsScalar_of_simple hread hcommon
  obtain ⟨c, t, hskip, hc⟩ := hends
  have hr : ∀ c ∈ r, isCommonChar c = true := fun c hc => hx.common c (by simp [hc])
  obtain ⟨hsplit, hpad⟩ := blanks_append hr
  rw [hskip] at hsplit
  obtain ⟨y, hy, hyrest, hydepth⟩ := reads_word hx.loose hflow hx.key hx.place ho ⟨hsplit, hpad, hc⟩
  exact ⟨y, _, hy, hskip ▸ at_of_rest hyrest, hydepth, hr, fun place => .scalar htag hv⟩

theorem takes_list {x : Lexer} {t : List Char} {v : Value} {fuel : Nat} (hitems : ItemsLexed fuel)
    (hx : Ready x ('[' :: t)) (hread : value (fuel + 1) ('[' :: t) = .ok (v, r))
    (hcommon : isCommonValue (fuel + 1) ('[' :: t) = true) : Takes x v r := by
  obtain ⟨y, hy, hready, -, hydepth⟩ := ready_open hx (Or.inl ⟨rfl, rfl⟩)
  have ht : ∀ c ∈ t, isCommonChar c = true := fun c hc => hx.common c (List.mem_cons_of_mem _ hc)
  simp only [value, isCommonValue] at hread hcommon
  split at hread
  · next hend =>
    cases hread
    obtain ⟨z, hz, hzrest, hr, hzdepth⟩ :=
      reads_end hready.loose hready.place ht hend (Or.inl ⟨rfl, rfl⟩) hydepth
    exact ⟨z, _, hy.trans hz, at_skipBlanks hzrest hr, hzdepth, hr,
      fun place => .flowSeq .flowItemsEnd⟩
  · next hopen =>
    obtain ⟨⟨vs, rest⟩, hvs, hread⟩ := exists_of_bind_ok hread
    cases hread
    split at hcommon
    · next heq => exact (hopen _ heq).elim
    · obtain ⟨z, ts, hz, hzrest, hzdepth, hr, hspells⟩ := hitems hready hydepth hvs hcommon
      exact ⟨z, _, hy.trans hz, at_skipBlanks hzrest hr, hzdepth, hr,
        fun place => .flowSeq (hspells true)⟩

theorem takes_object {x : Lexer} {t : List Char} {v : Value} {fuel : Nat}
    (hentries : EntriesLexed fuel) (hx : Ready x ('\x7b' :: t))
    (hread : value (fuel + 1) ('\x7b' :: t) = .ok (v, r))
    (hcommon : isCommonValue (fuel + 1) ('\x7b' :: t) = true) : Takes x v r := by
  obtain ⟨y, hy, hready, hallowed, hydepth⟩ := ready_open hx (Or.inr ⟨rfl, rfl⟩)
  have ht : ∀ c ∈ t, isCommonChar c = true := fun c hc => hx.common c (List.mem_cons_of_mem _ hc)
  simp only [value, isCommonValue] at hread hcommon
  split at hread
  · next hend =>
    cases hread
    obtain ⟨z, hz, hzrest, hr, hzdepth⟩ :=
      reads_end hready.loose hready.place ht hend (Or.inr ⟨rfl, rfl⟩) hydepth
    exact ⟨z, _, hy.trans hz, at_skipBlanks hzrest hr, hzdepth, hr,
      fun place => @Spells.flowMap place [] _ .flowEntriesEnd⟩
  · next hopen =>
    obtain ⟨⟨es, rest⟩, hes, hread⟩ := exists_of_bind_ok hread
    cases hread
    split at hcommon
    · next heq => exact (hopen _ heq).elim
    · obtain ⟨z, ts, hz, hzrest, hzdepth, hr, hspells⟩ :=
        hentries hready hallowed hydepth hes hcommon
      exact ⟨z, _, hy.trans hz, at_skipBlanks hzrest hr, hzdepth, hr,
        fun place => .flowMap (hspells true)⟩

theorem valueLexed_succ {fuel : Nat} (hitems : ItemsLexed fuel) (hentries : EntriesLexed fuel) :
    ValueLexed (fuel + 1) := by
  intro x s r v hx hread hcommon hplace
  by_cases hlist : s.head? = some '['
  · obtain ⟨t, rfl⟩ := List.head?_eq_some_iff.mp hlist
    exact takes_list hitems hx hread hcommon
  by_cases hobject : s.head? = some '\x7b'
  · obtain ⟨t, rfl⟩ := List.head?_eq_some_iff.mp hobject
    exact takes_object hentries hx hread hcommon
  obtain ⟨hflow, hends⟩ := hplace.resolve_left (by simp [hlist, hobject])
  by_cases hquote : s.head? = some '"'
  · obtain ⟨t, rfl⟩ := List.head?_eq_some_iff.mp hquote
    obtain ⟨⟨ns, rest⟩, hstring, hread⟩ := exists_of_bind_ok hread
    cases hread
    simp only [isCommonValue, hstring] at hcommon
    exact takes_string hx hstring hcommon hends
  · have hsimple : value (fuel + 1) s = simple s ∧
        isCommonValue (fuel + 1) s = isCommonSimple s := by
      constructor
      · rw [value] <;> (rintro t rfl; simp_all)
      · rw [isCommonValue] <;> (rintro t rfl; simp_all)
    exact takes_simple hx hflow (hsimple.1 ▸ hread) (hsimple.2 ▸ hcommon) hends

/-- Where the reader of JSON goes, the lexer goes along. -/
theorem lexed (fuel : Nat) : ValueLexed fuel ∧ ItemsLexed fuel ∧ EntriesLexed fuel := by
  induction fuel with
  | zero =>
    refine ⟨?_, ?_, ?_⟩
    · intro x s r v _ hread _ _
      cases hread
    · intro x s r vs depth _ _ hread _
      cases hread
    · intro x s r es depth _ _ _ hread _
      cases hread
  | succ fuel ih =>
    obtain ⟨hvalue, hitems, hentries⟩ := ih
    exact ⟨valueLexed_succ hitems hentries, itemsLexed_succ hvalue hitems,
      entriesLexed_succ hvalue hentries⟩

/-- Whether a value is a list or an object. -/
def isCollection : Value → Bool
  | .list .. | .map .. => true
  | _ => false

theorem isCollection_unsigned {minus : Bool} {v : Value} (h : unsigned minus s = .ok (v, r)) :
    isCollection v = false := by
  unfold unsigned at h
  split at h
  · cases h
  · dsimp only at h
    split at h
    · split at h
      · cases h
      · cases h
        rfl
    · cases h
      rfl

theorem isCollection_simple {v : Value} (h : simple s = .ok (v, r)) : isCollection v = false := by
  unfold simple at h
  split at h
  · next found hfound =>
    cases h
    have hwords : ∀ w ∈ words, isCollection w.2 = false := by decide
    obtain ⟨w, hw, hread⟩ := List.exists_of_findSome?_eq_some hfound
    obtain ⟨rest, -, heq⟩ := Option.map_eq_some_iff.mp hread
    cases heq
    exact hwords w hw
  · unfold number at h
    split at h <;> exact isCollection_unsigned h

/-- A list or an object starts with its bracket. -/
theorem head_of_isCollection {fuel : Nat} {v : Value} (h : value fuel s = .ok (v, r))
    (hv : isCollection v = true) : s.head? = some '[' ∨ s.head? = some '\x7b' := by
  cases fuel with
  | zero => cases h
  | succ fuel =>
    rw [value.eq_def] at h
    dsimp only at h
    split at h
    · obtain ⟨⟨ns, rest⟩, -, h⟩ := exists_of_bind_ok h
      cases h
      unfold ofUnits at hv
      split at hv <;> cases hv
    · exact Or.inl rfl
    · exact Or.inr rfl
    · rw [isCollection_simple h] at hv
      cases hv

/-- **JSON is YAML.** A text of JSON that denotes a list or an object, and holds only what is common
to both notations, is read as the same value by both readers. -/
theorem read_yaml {text : String} {v : Value} (hread : read text = .ok v)
    (hcommon : isCommon text = true) (hv : isCollection v = true) : Yaml.read text = .ok v := by
  simp only [isCommon, Bool.and_eq_true, List.all_eq_true] at hcommon
  obtain ⟨hchars, hcommon⟩ := hcommon
  obtain ⟨rest, hvalue, hend⟩ := value_of_read hread
  have hhead := head_of_isCollection hvalue hv
  have hloose : (Lexer.start text.toList).Loose :=
    ⟨Cursor.fits_start _, rfl, rfl, spare_none, by simp [Lexer.start], rfl⟩
  obtain ⟨y, ts, hy, hplace, -, -, hspells⟩ := (lexed _).1
    (ready_skipBlanks hloose rfl rfl hchars) hvalue hcommon (Or.inl hhead)
  rw [hend] at hplace
  refine read_of_spells ?_ (tokens_of_reads ?_ hy hplace) (hspells .item)
  · refine List.all_eq_true.mpr fun c hc => ?_
    have hc := hchars c hc
    simp only [isCommonChar, Bool.and_eq_true] at hc
    exact hc.1.1
  · intro hmark
    obtain ⟨t, ht⟩ := List.head?_eq_some_iff.mp hmark
    rw [ht] at hhead
    rcases hhead with hhead | hhead <;> cases hhead

end Json

/-! ## Comment files -/

/-- A value checked as a comment. -/
def CommentBlock.checked (v : Value) : Except CommentsError CommentBlock :=
  match CommentBlock.check v with
  | .ok b => .ok b
  | .error complaints => .error (.invalid complaints)

/-- The items of a list, or an object that is not empty on its own. -/
def Json.comments? : Value → Option (List Value)
  | .list _ vs => some vs
  | .map l es => if es.isEmpty then none else some [.map l es]
  | _ => none

theorem commentsOf_eq {v : Value} {vs : List Value} (h : Json.comments? v = some vs) :
    commentsOf v = vs.mapM CommentBlock.checked := by
  unfold Json.comments? at h
  split at h
  · cases h
    cases vs <;> rfl
  · next l es =>
    cases es with
    | nil => cases h
    | cons e es => cases h; rfl
  · cases h

/-- **JSON comment files mean what JSON says.** A file holds JSON that denotes a list or an object
that is not empty, and only what is common to both notations. Then the comments that are loaded from
it are the items of the list, or the object, checked one by one; or the first complaint. The depth
of the interpreter's stack, which a deep text can exceed, is not modelled. -/
theorem loadComments_json {answer : Path → Entry} {t : Transcript} {p : Path} {file text : String}
    {v : Value} {vs : List Value} (hp : p.isNamed = true) (ht : t.halves = false)
    (hfile : answer p = .file (some file))
    (htext : text = String.ofList (Text.unixLines file.toList)) (hread : Json.read text = .ok v)
    (hvs : Json.comments? v = some vs) (hcommon : Json.isCommon text = true) :
    ((Build.loadComments p).outcome answer t).1 =
      (vs.mapM CommentBlock.checked).mapError .comments := by
  have hcollection : Json.isCollection v = true := by
    unfold Json.comments? at hvs
    split at hvs
    · rfl
    · rfl
    · cases hvs
  rw [Build.outcome_loadComments hp ht hfile, ← htext, Json.read_yaml hread hcommon hcollection,
    ← commentsOf_eq hvs]

/-- Three comments with an escape, an empty list, numbers and blanks of all kinds but tabs. -/
def mixedComments : String :=
  "[\r\n\x7b\"description\" : \"\\u00e9\"\x7d, \x7b\"tags\":[]\x7d,\n\x7b\"tags\": [-0,0.0, null]\x7d]"

def mixedValues : List Value :=
  [.object [("description", .str "é")], .object [("tags", .array [])],
   .object [("tags", .array [.int 0, .float Binary64.zero, .null])]]

theorem loadComments_json_mixed :
    ((Build.loadComments (Path.parse "api.json")).outcome (fun _ => .file (some mixedComments)) {}).1 =
      (mixedValues.mapM CommentBlock.checked).mapError .comments :=
  loadComments_json (v := .array mixedValues) (by decide +kernel) rfl rfl rfl
    (by rw [Json.read, String.toList_ofList]; decide +kernel) rfl
    (by rw [Json.isCommon, String.toList_ofList]; decide +kernel)

/-- A comment behind a tab. -/
def tabbedComments : String := "[\n\t\x7b\"description\": \"Pets.\"\x7d\n]\n"

theorem tab_refused :
    Json.read tabbedComments = .ok (.array [.object [("description", .str "Pets.")]]) ∧
      ((Build.loadComments (Path.parse "api.json")).outcome
        (fun _ => .file (some tabbedComments)) {}).1.isOk = false := by
  constructor
  · decide +kernel
  · rw [Build.outcome_loadComments (by decide +kernel) rfl rfl]
    decide +kernel

end AnnotatedApi
