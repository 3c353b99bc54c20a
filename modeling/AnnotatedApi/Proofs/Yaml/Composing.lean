/-
  From tokens to the value they spell. `Spells` is a grammar of tokens with the values of its
  phrases: scalars, flow and block collections, and the sequences under a key that are not
  indented, all without anchors and tags and with texts for keys.

  The composer reads every phrase of the grammar and adds nodes to the table that say its value
  (`composed_of_spells`). The fuel that it starts with is enough: a node takes three steps for each
  of its tokens and three more, the parts of a collection one more.

  Main statement: a text whose tokens spell a value is read as that value (`read_of_spells`).
-/
import AnnotatedApi.Proofs.Yaml.Filling

namespace AnnotatedApi.Yaml

/-! ## The grammar -/

/-- Where a node stands: in a flow collection, as an item of a block, or in an entry of one. -/
inductive Place where
  | flow
  | item
  | entry
deriving DecidableEq

namespace Place

/-- Whether a block may start here. -/
def block : Place → Bool
  | .flow => false
  | _ => true

/-- Whether a sequence that is not indented may start here. -/
def indentless : Place → Bool
  | .entry => true
  | _ => false

end Place

/-- What tokens spell: a node, or the parts of a collection up to its end. In a flow collection a
comma stands before each part but the first. -/
inductive Phrase where
  | node (place : Place) (v : Value)
  | blockItems (vs : List Value)
  | indentlessItems (vs : List Value)
  | blockEntries (es : List (Value × Value))
  | flowItems (first : Bool) (vs : List Value)
  | flowEntries (first : Bool) (es : List (Value × Value))

def comma (first : Bool) : List Token := if first then [] else [.flowEntry]

/-- The tokens of a key, up to the colon. -/
def keyTokens (name : List Char) (plain : Bool) : List Token :=
  [.key, .scalar (.text name) plain, .value]

inductive Spells : Phrase → List Token → Prop
  | scalar {place : Place} {c : Content} {plain : Bool} {v : Value}
      (htag : (Compose.scalarTag plain c.chars none).isScalar = true)
      (hv : scalarValue none (Compose.scalarTag plain c.chars none) c = .ok v) :
      Spells (.node place v) [.scalar c plain]
  | flowSeq {place : Place} {vs : List Value} {ts : List Token}
      (hvs : Spells (.flowItems true vs) ts) :
      Spells (.node place (.list none vs)) (.flowSequence :: ts)
  | flowMap {place : Place} {es : List (Value × Value)} {ts : List Token}
      (hes : Spells (.flowEntries true es) ts) :
      Spells (.node place (.map none (Assoc.ofEntries es))) (.flowMapping :: ts)
  | blockSeq {place : Place} {vs : List Value} {ts : List Token} (hplace : place.block = true)
      (hvs : Spells (.blockItems vs) ts) :
      Spells (.node place (.list none vs)) (.blockSequence :: ts)
  | blockMap {place : Place} {es : List (Value × Value)} {ts : List Token}
      (hplace : place.block = true) (hes : Spells (.blockEntries es) ts) :
      Spells (.node place (.map none (Assoc.ofEntries es))) (.blockMapping :: ts)
  | indentlessSeq {v : Value} {vs : List Value} {ts : List Token}
      (hvs : Spells (.indentlessItems (v :: vs)) ts) :
      Spells (.node .entry (.list none (v :: vs))) ts
  | blockItemsEnd : Spells (.blockItems []) [.blockEnd]
  | blockItem {v : Value} {vs : List Value} {ts us : List Token} (hv : Spells (.node .item v) ts)
      (hvs : Spells (.blockItems vs) us) : Spells (.blockItems (v :: vs)) (.blockEntry :: ts ++ us)
  | indentlessEnd : Spells (.indentlessItems []) []
  | indentlessItem {v : Value} {vs : List Value} {ts us : List Token}
      (hv : Spells (.node .item v) ts) (hvs : Spells (.indentlessItems vs) us) :
      Spells (.indentlessItems (v :: vs)) (.blockEntry :: ts ++ us)
  | blockEntriesEnd : Spells (.blockEntries []) [.blockEnd]
  | blockEntry {name : List Char} {plain : Bool} {v : Value} {es : List (Value × Value)}
      {ts us : List Token} (hname : Compose.scalarTag plain name none = .str)
      (hv : Spells (.node .entry v) ts) (hes : Spells (.blockEntries es) us) :
      Spells (.blockEntries ((.str (String.ofList name), v) :: es)) (keyTokens name plain ++ ts ++ us)
  | flowItemsEnd {first : Bool} : Spells (.flowItems first []) [.flowSequenceEnd]
  | flowItem {first : Bool} {v : Value} {vs : List Value} {ts us : List Token}
      (hv : Spells (.node .flow v) ts) (hvs : Spells (.flowItems false vs) us) :
      Spells (.flowItems first (v :: vs)) (comma first ++ ts ++ us)
  | flowEntriesEnd {first : Bool} : Spells (.flowEntries first []) [.flowMappingEnd]
  | flowEntry {first : Bool} {name : List Char} {plain : Bool} {v : Value}
      {es : List (Value × Value)} {ts us : List Token}
      (hname : Compose.scalarTag plain name none = .str) (hv : Spells (.node .flow v) ts)
      (hes : Spells (.flowEntries false es) us) :
      Spells (.flowEntries first ((.str (String.ofList name), v) :: es))
        (comma first ++ keyTokens name plain ++ ts ++ us)

/-- Tokens that a node starts with. -/
def Token.opens : Token → Bool
  | .scalar .. | .flowSequence | .flowMapping | .blockSequence | .blockMapping => true
  | _ => false

namespace Spells

/-- The first token of a node; only a sequence that is not indented starts with a dash. -/
theorem head {place : Place} {v : Value} {ts : List Token} (h : Spells (.node place v) ts) :
    ∃ t us, ts = t :: us ∧ (t.opens = true ∨ (place = .entry ∧ t = .blockEntry)) := by
  cases h with
  | scalar _ _ => exact ⟨_, [], rfl, Or.inl rfl⟩
  | flowSeq _ => exact ⟨_, _, rfl, Or.inl rfl⟩
  | flowMap _ => exact ⟨_, _, rfl, Or.inl rfl⟩
  | blockSeq _ _ => exact ⟨_, _, rfl, Or.inl rfl⟩
  | blockMap _ _ => exact ⟨_, _, rfl, Or.inl rfl⟩
  | indentlessSeq hvs =>
    cases hvs with
    | indentlessItem _ _ => exact ⟨_, _, rfl, Or.inr ⟨rfl, rfl⟩⟩

theorem opens {place : Place} {v : Value} {ts : List Token} (h : Spells (.node place v) ts)
    (hplace : place ≠ .entry) : ∃ t us, ts = t :: us ∧ t.opens = true := by
  obtain ⟨t, us, hts, ht⟩ := h.head
  exact ⟨t, us, hts, ht.resolve_right fun h => hplace h.1⟩

theorem flowItems_ne_nil {first : Bool} {vs : List Value} {ts : List Token}
    (h : Spells (.flowItems first vs) ts) : ts ≠ [] := by
  cases h with
  | flowItemsEnd => simp
  | flowItem hv _ =>
    obtain ⟨t, us, rfl, -⟩ := hv.head
    simp

end Spells

/-! ## Single steps of the composer -/

namespace Compose

variable {s : Composer} {t : Token} {ts : List Token} {fuel : Nat}
  {block indentless shared first plain : Bool} {c : Content}

theorem node_of_opens (hs : s.tokens = t :: ts) (ht : t.opens = true) :
    node block indentless shared (fuel + 1) s =
      content block indentless shared none false fuel s := by
  obtain ⟨tokens, handles, anchors, nodes⟩ := s
  cases hs
  cases t <;> first | rfl | cases ht

theorem node_scalar (hs : s.tokens = .scalar c plain :: ts) :
    node block indentless shared (fuel + 2) s =
      add (scalarTag plain c.chars none) shared (.scalar c) { s with tokens := ts } := by
  rw [node_of_opens hs rfl]
  obtain ⟨tokens, handles, anchors, nodes⟩ := s
  cases hs
  cases indentless <;> rfl

theorem node_flowSequence (hs : s.tokens = .flowSequence :: ts) :
    node block indentless shared (fuel + 2) s =
      (do add .seq shared (.seq (← flowItems shared true fuel))) { s with tokens := ts } := by
  rw [node_of_opens hs rfl]
  obtain ⟨tokens, handles, anchors, nodes⟩ := s
  cases hs
  cases indentless <;> rfl

theorem node_flowMapping (hs : s.tokens = .flowMapping :: ts) :
    node block indentless shared (fuel + 2) s =
      (do add .map shared (.map (← flowEntries shared true fuel))) { s with tokens := ts } := by
  rw [node_of_opens hs rfl]
  obtain ⟨tokens, handles, anchors, nodes⟩ := s
  cases hs
  cases indentless <;> rfl

theorem node_blockSequence (hs : s.tokens = .blockSequence :: ts) :
    node true indentless shared (fuel + 2) s =
      (do add .seq shared (.seq (← blockItems shared fuel))) { s with tokens := ts } := by
  rw [node_of_opens hs rfl]
  obtain ⟨tokens, handles, anchors, nodes⟩ := s
  cases hs
  cases indentless <;> rfl

theorem node_blockMapping (hs : s.tokens = .blockMapping :: ts) :
    node true indentless shared (fuel + 2) s =
      (do add .map shared (.map (← blockEntries shared fuel))) { s with tokens := ts } := by
  rw [node_of_opens hs rfl]
  obtain ⟨tokens, handles, anchors, nodes⟩ := s
  cases hs
  cases indentless <;> rfl

theorem node_indentless (hs : s.tokens = .blockEntry :: ts) :
    node block true shared (fuel + 2) s =
      (do add .seq shared (.seq (← indentlessItems shared fuel))) s := by
  obtain ⟨tokens, handles, anchors, nodes⟩ := s
  cases hs
  rfl

theorem blockItems_item (hs : s.tokens = .blockEntry :: t :: ts) (ht : t.opens = true) :
    blockItems shared (fuel + 1) s =
      (do return (← node true false shared fuel) :: (← blockItems shared fuel))
        { s with tokens := t :: ts } := by
  obtain ⟨tokens, handles, anchors, nodes⟩ := s
  cases hs
  cases t <;> first | rfl | cases ht

theorem blockItems_end (hs : s.tokens = .blockEnd :: ts) :
    blockItems shared (fuel + 1) s = (pure [] : Compose _) { s with tokens := ts } := by
  obtain ⟨tokens, handles, anchors, nodes⟩ := s
  cases hs
  rfl

theorem indentlessItems_item (hs : s.tokens = .blockEntry :: t :: ts) (ht : t.opens = true) :
    indentlessItems shared (fuel + 1) s =
      (do return (← node true false shared fuel) :: (← indentlessItems shared fuel))
        { s with tokens := t :: ts } := by
  obtain ⟨tokens, handles, anchors, nodes⟩ := s
  cases hs
  cases t <;> first | rfl | cases ht

/-- What may follow a sequence that is not indented: a token that is no dash and no fault. -/
def Follows (ts : List Token) : Prop :=
  ∃ t us, ts = t :: us ∧ isBlockEntry t = false ∧ ∀ f, t ≠ .fault f

theorem indentlessItems_end (hs : Follows s.tokens) :
    indentlessItems shared (fuel + 1) s = (pure [] : Compose _) s := by
  obtain ⟨tokens, handles, anchors, nodes⟩ := s
  obtain ⟨t, us, hts, hentry, hfault⟩ := hs
  cases hts
  cases t <;> first | rfl | exact absurd rfl (hfault _) | cases hentry

theorem blockEntries_entry {name : List Char} (hs : s.tokens = keyTokens name plain ++ t :: ts)
    (ht : t.opens = true ∨ t = .blockEntry) :
    blockEntries shared (fuel + 3) s =
      (do let k ← add (scalarTag plain name none) shared (.scalar (.text name))
          let v ← node true true shared (fuel + 1)
          return (k, v) :: (← blockEntries shared (fuel + 2))) { s with tokens := t :: ts } := by
  obtain ⟨tokens, handles, anchors, nodes⟩ := s
  cases hs
  cases t <;> first | rfl | (rcases ht with ht | ht <;> cases ht)

theorem blockEntries_end (hs : s.tokens = .blockEnd :: ts) :
    blockEntries shared (fuel + 1) s = (pure [] : Compose _) { s with tokens := ts } := by
  obtain ⟨tokens, handles, anchors, nodes⟩ := s
  cases hs
  rfl

theorem flowItems_item (hs : s.tokens = comma first ++ t :: ts) (ht : t.opens = true) :
    flowItems shared first (fuel + 1) s =
      (do return (← node false false shared fuel) :: (← flowItems shared false fuel))
        { s with tokens := t :: ts } := by
  obtain ⟨tokens, handles, anchors, nodes⟩ := s
  cases hs
  cases first <;> cases t <;> first | rfl | cases ht

theorem flowItems_end (hs : s.tokens = .flowSequenceEnd :: ts) :
    flowItems shared first (fuel + 1) s = (pure [] : Compose _) { s with tokens := ts } := by
  obtain ⟨tokens, handles, anchors, nodes⟩ := s
  cases hs
  rfl

theorem flowEntries_entry {name : List Char}
    (hs : s.tokens = comma first ++ keyTokens name plain ++ t :: ts) (ht : t.opens = true) :
    flowEntries shared first (fuel + 3) s =
      (do let k ← add (scalarTag plain name none) shared (.scalar (.text name))
          let v ← node false false shared (fuel + 1)
          return (k, v) :: (← flowEntries shared false (fuel + 2))) { s with tokens := t :: ts } := by
  obtain ⟨tokens, handles, anchors, nodes⟩ := s
  cases hs
  cases first <;> cases t <;> first | rfl | cases ht

theorem flowEntries_end (hs : s.tokens = .flowMappingEnd :: ts) :
    flowEntries shared first (fuel + 1) s = (pure [] : Compose _) { s with tokens := ts } := by
  obtain ⟨tokens, handles, anchors, nodes⟩ := s
  cases hs
  rfl

/-! ## Runs of the composer -/

/-- Nodes are added at the end. -/
def Extends (nodes nodes' : Array Node) : Prop :=
  ∀ (i : Nat) (n : Node), nodes[i]? = some n → nodes'[i]? = some n

theorem Extends.trans {a b c : Array Node} (hab : Extends a b) (hbc : Extends b c) : Extends a c :=
  fun i n h => hbc i n (hab i n h)

theorem extends_push (nodes : Array Node) (n : Node) : Extends nodes (nodes.push n) := by
  intro i m h
  have hlt := (Array.getElem?_eq_some_iff.mp h).1
  rw [Array.getElem?_push, if_neg (by omega), h]

/-- From `s` the step comes to the tokens `rest`, with nodes added to the table and a result of
which `post` holds. -/
def Gives {α : Type} (act : Compose α) (s : Composer) (rest : List Token)
    (post : Array Node → α → Prop) : Prop :=
  ∃ a nodes, act s = .ok (a, { s with tokens := rest, nodes := nodes }) ∧
    Extends s.nodes nodes ∧ post nodes a

section

variable {α β : Type} {act : Compose α} {mid rest : List Token} {post : Array Node → α → Prop}

theorem Gives.of_eq {act' : Compose α} (heq : act s = act' { s with tokens := mid })
    (h : Gives act' { s with tokens := mid } rest post) : Gives act s rest post := by
  obtain ⟨a, nodes, hact, hle, hsays⟩ := h
  exact ⟨a, nodes, heq.trans hact, hle, hsays⟩

theorem Gives.bind {next : α → Compose β} {post' : Array Node → β → Prop}
    (h : Gives act s mid post)
    (hnext : ∀ a nodes, Extends s.nodes nodes → post nodes a →
      Gives (next a) { s with tokens := mid, nodes := nodes } rest post') :
    Gives (act >>= next) s rest post' := by
  obtain ⟨a, nodes, hact, hle, hsays⟩ := h
  obtain ⟨b, nodes', hb, hle', hsays'⟩ := hnext a nodes hle hsays
  exact ⟨b, nodes', (bind_of_ok hact).trans hb, hle.trans hle', hsays'⟩

theorem gives_pure {a : α} (hs : s.tokens = rest) (h : post s.nodes a) :
    Gives (pure a) s rest post :=
  ⟨a, s.nodes, by rw [← hs]; rfl, fun _ _ h => h, h⟩

theorem gives_add {tag : Tag} {shape : Shape} {post : Array Node → Nat → Prop}
    (hs : s.tokens = rest)
    (h : ∀ nodes, Extends s.nodes nodes → nodes[s.nodes.size]? = some ⟨tag, shape, false⟩ →
      post nodes s.nodes.size) : Gives (add tag false shape) s rest post :=
  ⟨s.nodes.size, s.nodes.push ⟨tag, shape, false⟩, by rw [← hs]; rfl, extends_push _ _,
    h _ (extends_push _ _) (by simp)⟩

end

/-- What the composer makes of the tokens of a phrase. -/
def Composed : Phrase → List Token → Prop
  | .node place v, ts => ∀ fuel s rest, 3 * ts.length + 3 ≤ fuel → s.tokens = ts ++ rest →
      (place = .entry → Follows rest) →
      Gives (node place.block place.indentless false fuel) s rest
        fun nodes i => Holds nodes (.node i v)
  | .blockItems vs, ts => ∀ fuel s rest, 3 * ts.length + 1 ≤ fuel → s.tokens = ts ++ rest →
      Gives (blockItems false fuel) s rest fun nodes is => Holds nodes (.items is vs)
  | .indentlessItems vs, ts => ∀ fuel s rest, 3 * ts.length + 1 ≤ fuel → s.tokens = ts ++ rest →
      Follows rest →
      Gives (indentlessItems false fuel) s rest fun nodes is => Holds nodes (.items is vs)
  | .blockEntries es, ts => ∀ fuel s rest, 3 * ts.length + 1 ≤ fuel → s.tokens = ts ++ rest →
      Gives (blockEntries false fuel) s rest fun nodes ps => Holds nodes (.entries ps es)
  | .flowItems first vs, ts => ∀ fuel s rest, 3 * ts.length + 1 ≤ fuel → s.tokens = ts ++ rest →
      Gives (flowItems false first fuel) s rest fun nodes is => Holds nodes (.items is vs)
  | .flowEntries first es, ts => ∀ fuel s rest, 3 * ts.length + 1 ≤ fuel → s.tokens = ts ++ rest →
      Gives (flowEntries false first fuel) s rest fun nodes ps => Holds nodes (.entries ps es)

/-- The items of a sequence read, the sequence itself is put behind them. -/
theorem gives_sequence {items : Compose (List Nat)} {rest : List Token} {vs : List Value}
    (h : Gives items s rest fun nodes is => Holds nodes (.items is vs)) :
    Gives (do add .seq false (.seq (← items))) s rest
      fun nodes i => Holds nodes (.node i (.list none vs)) := by
  refine h.bind fun is nodes _ his => gives_add rfl fun nodes' hle hi => ?_
  exact .seq hi (fun j hj => (good_of_items his j hj).lt_size) (his.mono hle)

theorem gives_mapping {entries : Compose (List (Nat × Nat))} {rest : List Token}
    {es : List (Value × Value)}
    (h : Gives entries s rest fun nodes ps => Holds nodes (.entries ps es)) :
    Gives (do add .map false (.map (← entries))) s rest
      fun nodes i => Holds nodes (.node i (.map none (Assoc.ofEntries es))) := by
  refine h.bind fun ps nodes _ hps => gives_add rfl fun nodes' hle hi => ?_
  refine .map hi (fun p hp => ?_) (hps.mono hle)
  obtain ⟨⟨name, hname⟩, hgood⟩ := good_of_entries hps p hp
  exact ⟨Good.lt_size ⟨_, .key hname⟩, hgood.lt_size⟩

theorem gives_items {item : Compose Nat} {items : Compose (List Nat)} {mid rest : List Token}
    {v : Value} {vs : List Value}
    (hv : Gives item s mid fun nodes i => Holds nodes (.node i v))
    (hvs : ∀ nodes, Gives items { s with tokens := mid, nodes := nodes } rest
      fun nodes is => Holds nodes (.items is vs)) :
    Gives (do return (← item) :: (← items)) s rest
      fun nodes is => Holds nodes (.items is (v :: vs)) := by
  refine hv.bind fun i nodes _ hi => ?_
  obtain ⟨is, nodes', his, hle, hsays⟩ := hvs nodes
  exact ⟨i :: is, nodes', bind_of_ok his, hle, .item (hi.mono hle) hsays⟩

theorem gives_entries {value : Compose Nat} {entries : Compose (List (Nat × Nat))}
    {mid rest : List Token} {name : List Char} {v : Value} {es : List (Value × Value)}
    (hname : scalarTag plain name none = .str)
    (hv : ∀ nodes, Gives value { s with nodes := nodes } mid
      fun nodes i => Holds nodes (.node i v))
    (hes : ∀ nodes, Gives entries { s with tokens := mid, nodes := nodes } rest
      fun nodes ps => Holds nodes (.entries ps es)) :
    Gives (do let k ← add (scalarTag plain name none) false (.scalar (.text name))
              let v ← value
              return (k, v) :: (← entries)) s rest
      fun nodes ps => Holds nodes (.entries ps ((.str (String.ofList name), v) :: es)) := by
  have hkey : Gives (add (scalarTag plain name none) false (.scalar (.text name))) s s.tokens
      fun nodes k => nodes[k]? = some ⟨.str, .scalar (.text name), false⟩ :=
    gives_add rfl fun nodes _ hk => hname ▸ hk
  refine hkey.bind fun k nodes _ hk => (hv nodes).bind fun i nodes' hle hi => ?_
  obtain ⟨ps, nodes'', hps, hle', hsays⟩ := hes nodes'
  exact ⟨(k, i) :: ps, nodes'', bind_of_ok hps, hle',
    .entry (hle' _ _ (hle _ _ hk)) (hi.mono hle') hsays⟩

/-- The tokens behind an entry of a block mapping start with a key or the end of the block. -/
theorem follows_of_blockEntries {es : List (Value × Value)} (h : Spells (.blockEntries es) ts)
    (rest : List Token) : Follows (ts ++ rest) := by
  cases h with
  | blockEntriesEnd => exact ⟨_, _, rfl, rfl, fun _ h => by cases h⟩
  | blockEntry _ _ _ => exact ⟨_, _, rfl, rfl, fun _ h => by cases h⟩

/-- Every phrase of the grammar is composed into nodes that say its value. -/
theorem composed_of_spells {phrase : Phrase} (h : Spells phrase ts) : Composed phrase ts := by
  induction h with
  | scalar htag hv =>
    intro fuel s rest hfuel hs _
    obtain ⟨fuel, rfl⟩ := Nat.exists_eq_add_of_le' (show 2 ≤ fuel by omega)
    exact .of_eq (node_scalar hs) (gives_add rfl fun nodes _ hi => .scalar hi htag hv)
  | flowSeq _ ih =>
    intro fuel s rest hfuel hs _
    rw [List.length_cons] at hfuel
    obtain ⟨fuel, rfl⟩ := Nat.exists_eq_add_of_le' (show 2 ≤ fuel by omega)
    exact .of_eq (node_flowSequence hs) (gives_sequence (ih _ _ _ (by omega) rfl))
  | flowMap _ ih =>
    intro fuel s rest hfuel hs _
    rw [List.length_cons] at hfuel
    obtain ⟨fuel, rfl⟩ := Nat.exists_eq_add_of_le' (show 2 ≤ fuel by omega)
    exact .of_eq (node_flowMapping hs) (gives_mapping (ih _ _ _ (by omega) rfl))
  | blockSeq hplace _ ih =>
    intro fuel s rest hfuel hs _
    rw [List.length_cons] at hfuel
    obtain ⟨fuel, rfl⟩ := Nat.exists_eq_add_of_le' (show 2 ≤ fuel by omega)
    rw [hplace]
    exact .of_eq (node_blockSequence hs) (gives_sequence (ih _ _ _ (by omega) rfl))
  | blockMap hplace _ ih =>
    intro fuel s rest hfuel hs _
    rw [List.length_cons] at hfuel
    obtain ⟨fuel, rfl⟩ := Nat.exists_eq_add_of_le' (show 2 ≤ fuel by omega)
    rw [hplace]
    exact .of_eq (node_blockMapping hs) (gives_mapping (ih _ _ _ (by omega) rfl))
  | indentlessSeq hvs ih =>
    intro fuel s rest hfuel hs hfollows
    obtain ⟨fuel, rfl⟩ := Nat.exists_eq_add_of_le' (show 2 ≤ fuel by omega)
    have hitems := gives_sequence (ih fuel s rest (by omega) hs (hfollows rfl))
    cases hvs with
    | indentlessItem _ _ =>
      obtain ⟨i, nodes, hact, hsays⟩ := hitems
      exact ⟨i, nodes, (node_indentless hs).trans hact, hsays⟩
  | blockItemsEnd =>
    intro fuel s rest hfuel hs
    obtain ⟨fuel, rfl⟩ := Nat.exists_eq_add_of_le' (show 1 ≤ fuel by omega)
    exact .of_eq (blockItems_end hs) (gives_pure rfl .noItems)
  | blockItem hv _ ihv ihvs =>
    intro fuel s rest hfuel hs
    simp only [List.length_cons, List.length_append] at hfuel
    obtain ⟨fuel, rfl⟩ := Nat.exists_eq_add_of_le' (show 1 ≤ fuel by omega)
    obtain ⟨t, ts, rfl, ht⟩ := hv.opens (by decide)
    rw [List.append_assoc] at hs
    exact .of_eq (blockItems_item hs ht) (gives_items
      (ihv _ _ _ (by omega) rfl (fun h => by cases h)) fun _ => ihvs _ _ _ (by omega) rfl)
  | indentlessEnd =>
    intro fuel s rest hfuel hs hfollows
    obtain ⟨fuel, rfl⟩ := Nat.exists_eq_add_of_le' (show 1 ≤ fuel by omega)
    rw [List.nil_append] at hs
    exact ⟨[], s.nodes, (indentlessItems_end (hs ▸ hfollows)).trans (hs ▸ rfl), fun _ _ h => h,
      .noItems⟩
  | indentlessItem hv _ ihv ihvs =>
    intro fuel s rest hfuel hs hfollows
    simp only [List.length_cons, List.length_append] at hfuel
    obtain ⟨fuel, rfl⟩ := Nat.exists_eq_add_of_le' (show 1 ≤ fuel by omega)
    obtain ⟨t, ts, rfl, ht⟩ := hv.opens (by decide)
    rw [List.append_assoc] at hs
    exact .of_eq (indentlessItems_item hs ht) (gives_items
      (ihv _ _ _ (by omega) rfl (fun h => by cases h))
      fun _ => ihvs _ _ _ (by omega) rfl hfollows)
  | blockEntriesEnd =>
    intro fuel s rest hfuel hs
    obtain ⟨fuel, rfl⟩ := Nat.exists_eq_add_of_le' (show 1 ≤ fuel by omega)
    exact .of_eq (blockEntries_end hs) (gives_pure rfl .noEntries)
  | blockEntry hname hv hes ihv ihes =>
    intro fuel s rest hfuel hs
    simp only [keyTokens, List.length_cons, List.length_append, List.length_nil] at hfuel
    obtain ⟨fuel, rfl⟩ := Nat.exists_eq_add_of_le' (show 3 ≤ fuel by omega)
    obtain ⟨t, ts, rfl, ht⟩ := hv.head
    rw [List.append_assoc, List.append_assoc] at hs
    exact .of_eq (blockEntries_entry hs (ht.imp_right And.right)) (gives_entries hname
      (fun _ => ihv _ _ _ (by omega) rfl fun _ => follows_of_blockEntries hes rest)
      fun _ => ihes _ _ _ (by omega) rfl)
  | flowItemsEnd =>
    intro fuel s rest hfuel hs
    obtain ⟨fuel, rfl⟩ := Nat.exists_eq_add_of_le' (show 1 ≤ fuel by omega)
    exact .of_eq (flowItems_end hs) (gives_pure rfl .noItems)
  | flowItem hv hvs ihv ihvs =>
    intro fuel s rest hfuel hs
    have hpos := List.length_pos_iff.mpr hvs.flowItems_ne_nil
    obtain ⟨t, ts, rfl, ht⟩ := hv.opens (by decide)
    simp only [List.length_cons, List.length_append] at hfuel
    obtain ⟨fuel, rfl⟩ := Nat.exists_eq_add_of_le' (show 1 ≤ fuel by omega)
    rw [List.append_assoc, List.append_assoc] at hs
    exact .of_eq (flowItems_item hs ht) (gives_items
      (ihv _ _ _ (by simp only [List.length_cons]; omega) rfl (fun h => by cases h))
      fun _ => ihvs _ _ _ (by omega) rfl)
  | flowEntriesEnd =>
    intro fuel s rest hfuel hs
    obtain ⟨fuel, rfl⟩ := Nat.exists_eq_add_of_le' (show 1 ≤ fuel by omega)
    exact .of_eq (flowEntries_end hs) (gives_pure rfl .noEntries)
  | flowEntry hname hv _ ihv ihes =>
    intro fuel s rest hfuel hs
    simp only [keyTokens, List.length_cons, List.length_append, List.length_nil] at hfuel
    obtain ⟨fuel, rfl⟩ := Nat.exists_eq_add_of_le' (show 3 ≤ fuel by omega)
    obtain ⟨t, ts, rfl, ht⟩ := hv.opens (by decide)
    rw [List.append_assoc, List.append_assoc] at hs
    exact .of_eq (flowEntries_entry hs ht) (gives_entries hname
      (fun _ => ihv _ _ _ (by omega) rfl (fun h => by cases h))
      fun _ => ihes _ _ _ (by omega) rfl)

end Compose

/-! ## The document -/

/-- A place that the table says something about stands for itself. -/
theorem Good.place_eq {c : Composer} {i : Nat} (h : Good c.nodes i) : c.place i = i := by
  unfold Composer.place
  cases h.goodNode with
  | scalar hi _ _ => rw [nodeAt_of_getElem? hi]
  | seq hi _ => rw [nodeAt_of_getElem? hi]
  | map hi _ _ => rw [nodeAt_of_getElem? hi]

theorem getElem?_moved {c : Composer} {i : Nat} {n : Node} (hi : c.nodes[i]? = some n)
    (hn : n.moved c.place = n) : (c.nodes.map (Node.moved c.place))[i]? = some n := by
  rw [Array.getElem?_map, hi, Option.map_some, hn]

/-- What the table of the composer says, that of the document says. -/
theorem Holds.moved {c : Composer} {p : Saying} (h : Holds c.nodes p) :
    Holds (c.nodes.map (Node.moved c.place)) p := by
  induction h with
  | scalar hi htag hv => exact .scalar (getElem?_moved hi rfl) htag hv
  | seq hi hlt his ih =>
    rename_i is vs
    have hplaces : is.map c.place = is :=
      (List.map_congr_left fun j hj => (good_of_items his j hj).place_eq).trans (List.map_id is)
    exact .seq (getElem?_moved hi (by simp only [Node.moved, hplaces])) hlt ih
  | map hi hlt hps ih =>
    rename_i ps es
    have hplaces : ps.map (fun e => (c.place e.1, c.place e.2)) = ps := by
      refine (List.map_congr_left fun e he => ?_).trans (List.map_id ps)
      obtain ⟨⟨name, hname⟩, hgood⟩ := good_of_entries hps e he
      rw [Good.place_eq ⟨_, .key hname⟩, hgood.place_eq]
      rfl
    exact .map (getElem?_moved hi (by simp only [Node.moved, hplaces])) hlt ih
  | noItems => exact .noItems
  | item _ _ ihj ihs => exact .item ihj ihs
  | noEntries => exact .noEntries
  | entry hk _ _ ihj ihs => exact .entry (getElem?_moved hk rfl) ihj ihs

/-- A text whose tokens spell a value is read as that value. -/
theorem read_of_spells {s : String} {v : Value} {ts : List Token}
    (hallowed : s.toList.all isAllowed = true) (htokens : tokens s.toList = ts ++ [.streamEnd])
    (h : Spells (.node .item v) ts) : read s = .ok v := by
  obtain ⟨t, us, hts, ht⟩ := h.opens (by decide)
  obtain ⟨i, nodes, hnode, -, hholds⟩ := Compose.composed_of_spells h
    (4 * (ts ++ [Token.streamEnd]).length + 8)
    ⟨ts ++ [.streamEnd], Compose.defaultHandles, [], #[]⟩ [.streamEnd]
    (by simp only [List.length_append, List.length_cons, List.length_nil]; omega) rfl
    (fun h => by cases h)
  have hroot : ∀ (fuel : Nat) (x : Composer), x.tokens = t :: us ++ [.streamEnd] →
      Compose.root fuel x =
        (do let i ← Compose.node true false false fuel
            Compose.ending fuel
            return some i) x := by
    rintro fuel ⟨tokens, handles, anchors, nodes⟩ rfl
    cases t <;> first | rfl | cases ht
  let c : Composer := ⟨[.streamEnd], Compose.defaultHandles, [], nodes⟩
  have hdocument : document s.toList = .ok (some ⟨c.nodes.map (Node.moved c.place), i⟩) := by
    rw [document, if_pos hallowed, htokens]
    show (Compose.root _ _ >>= fun r => _) = _
    rw [hroot _ _ (by rw [hts])]
    refine Eq.trans (congrArg (· >>= _) (bind_of_ok hnode)) ?_
    rfl
  rw [read, hdocument]
  exact value_of_holds (Holds.moved (c := c) hholds)

end AnnotatedApi.Yaml
