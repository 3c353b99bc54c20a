/-
  From tokens to the nodes of a document: scalars, sequences and mappings, each with the type
  its tag names. The nodes stand in a table, and a node refers to its parts by their places in
  it. An alias refers to the node that its anchor was put on, which makes a node a part of several.
  Parts come before the node they belong to, so that the table can be unfolded in one pass, but for
  an alias that stands inside the node of its anchor: it makes a node a part of itself.
-/
import AnnotatedApi.Yaml.Lexer
import AnnotatedApi.Yaml.Schema

namespace AnnotatedApi.Yaml

/-- What a node consists of, its parts by their places in the table. -/
inductive Shape where
  | scalar (content : Content)
  | seq (items : List Nat)
  | map (entries : List (Nat × Nat))
  | again (name : List Char)  -- an alias inside the node of its anchor
deriving Inhabited

structure Node where
  tag : Tag
  shape : Shape
  shared : Bool  -- whether it has an anchor or is part of a node that has one
deriving Inhabited

/-- The node at a place of the table. -/
def nodeAt (nodes : Array Node) (i : Nat) : Node := nodes.getD i default

/-- The nodes of a document and the place of its root. -/
structure Document where
  nodes : Array Node
  root : Nat

/-- What is known while the tokens of a document are read. An anchor is known from the start of its
node on; it has no place as long as the node is not complete. -/
structure Composer where
  tokens : List Token
  handles : List (List Char × List Char)
  anchors : List (List Char × Option Nat) := []
  nodes : Array Node := #[]

/-- Steps that read tokens. -/
abbrev Compose := StateT Composer (Except Fault)

namespace Compose

def fail {α : Type} (f : Fault) : Compose α := fun _ => .error f

/-- The next token. A fault in the text counts only when its token is reached. -/
def peek : Compose Token := fun s =>
  match s.tokens with
  | [] => .error .malformed
  | .fault f :: _ => .error f
  | t :: _ => .ok (t, s)

def drop : Compose Unit := modify fun s => { s with tokens := s.tokens.drop 1 }

/-- A node put at the end of the table. -/
def add (tag : Tag) (shared : Bool) (shape : Shape) : Compose Nat :=
  modifyGet fun s => (s.nodes.size, { s with nodes := s.nodes.push ⟨tag, shape, shared⟩ })

/-- A scalar that is not written. -/
def absent : Compose Nat := add .null false (.scalar (.text []))

/-- An anchor that no node has had so far. -/
def declare (name : List Char) : Compose Unit := do
  if ((← get).anchors.lookup name).isSome then fail .malformed
  else modify fun s => { s with anchors := (name, none) :: s.anchors }

/-- The node of an anchor is complete and stands at `i`. -/
def complete (name : List Char) (i : Nat) : Compose Unit :=
  modify fun s => { s with anchors := (name, some i) :: s.anchors }

/-- The full tag, with the handle replaced by what it stands for. -/
def fullTag (handle : Option (List Char)) (suffix : List Char) : Compose (List Char) := do
  match handle with
  | none => return suffix
  | some h =>
    match (← get).handles.lookup h with
    | some text => return text ++ suffix
    | none => fail .malformed

/-- The anchor and the tag in front of a node, in either order. -/
def properties : Compose (Option (List Char) × Option (List Char)) := do
  match ← peek with
  | .anchor a =>
    drop
    match ← peek with
    | .tag h s => drop; return (some a, some (← fullTag h s))
    | _ => return (some a, none)
  | .tag h s =>
    drop
    match ← peek with
    | .anchor a => drop; return (some a, some (← fullTag h s))
    | _ => return (none, some (← fullTag h s))
  | _ => return (none, none)

/-- The type of a collection, by its tag or its kind. -/
def collectionTag (kind : Tag) : Option (List Char) → Tag
  | none => kind
  | some t => if t = ['!'] then kind else Tag.ofText t

/-- The type of a scalar: by its tag; else by its notation, unless quotes make it a text. -/
def scalarTag (plain : Bool) (s : List Char) : Option (List Char) → Tag
  | none => if plain then implicitTag s else .str
  | some t => if t = ['!'] then implicitTag s else Tag.ofText t

/-- A node of which only the anchor or the tag is written: an empty scalar. -/
def unwritten (shared : Bool) (tag : Option (List Char)) (marked : Bool) : Compose Nat :=
  if marked then add (scalarTag true [] tag) shared (.scalar (.text [])) else fail .malformed

def isBlockEntry : Token → Bool
  | .blockEntry => true
  | _ => false

mutual

/-- The place of a node. Blocks may start where `block` says so, and a sequence that is not
indented where `indentless` does. -/
def node (block indentless shared : Bool) : Nat → Compose Nat
  | 0 => fail .malformed
  | fuel + 1 => do
    match ← peek with
    | .alias name =>
      drop
      match (← get).anchors.lookup name with
      | some (some i) => return i
      | some none => add .other true (.again name)
      | none => fail .malformed
    | _ =>
      let (anchor, tag) ← properties
      match anchor with
      | none => content block indentless shared tag tag.isSome fuel
      | some a =>
        let _ ← peek
        declare a
        let i ← content block indentless true tag true fuel
        complete a i
        return i

/-- What follows the anchor and the tag of a node. -/
def content (block indentless shared : Bool) (tag : Option (List Char)) (marked : Bool) :
    Nat → Compose Nat
  | 0 => fail .malformed
  | fuel + 1 => do
    let sequence (items : List Nat) : Compose Nat :=
      add (collectionTag .seq tag) shared (.seq items)
    let mapping (entries : List (Nat × Nat)) : Compose Nat :=
      add (collectionTag .map tag) shared (.map entries)
    let t ← peek
    if indentless && isBlockEntry t then sequence (← indentlessItems shared fuel)
    else
      match t with
      | .scalar c plain =>
        drop
        add (scalarTag plain c.chars tag) shared (.scalar c)
      | .flowSequence =>
        drop
        sequence (← flowItems shared true fuel)
      | .flowMapping =>
        drop
        mapping (← flowEntries shared true fuel)
      | .blockSequence =>
        if block then
          drop
          sequence (← blockItems shared fuel)
        else unwritten shared tag marked
      | .blockMapping =>
        if block then
          drop
          mapping (← blockEntries shared fuel)
        else unwritten shared tag marked
      | _ => unwritten shared tag marked

/-- The items of an indented sequence, up to the end of its block. -/
def blockItems (shared : Bool) : Nat → Compose (List Nat)
  | 0 => fail .malformed
  | fuel + 1 => do
    match ← peek with
    | .blockEntry =>
      drop
      let item ← match ← peek with
        | .blockEntry | .blockEnd => absent
        | _ => node true false shared fuel
      return item :: (← blockItems shared fuel)
    | .blockEnd => drop; return []
    | _ => fail .malformed

/-- The items of a sequence that stands at the column of its key. -/
def indentlessItems (shared : Bool) : Nat → Compose (List Nat)
  | 0 => fail .malformed
  | fuel + 1 => do
    match ← peek with
    | .blockEntry =>
      drop
      let item ← match ← peek with
        | .blockEntry | .key | .value | .blockEnd => absent
        | _ => node true false shared fuel
      return item :: (← indentlessItems shared fuel)
    | _ => return []

/-- The entries of a block mapping, up to the end of its block. -/
def blockEntries (shared : Bool) : Nat → Compose (List (Nat × Nat))
  | 0 => fail .malformed
  | fuel + 1 => do
    match ← peek with
    | .key =>
      drop
      let k ← match ← peek with
        | .key | .value | .blockEnd => absent
        | _ => node true true shared fuel
      let v ← blockValue shared fuel
      return (k, v) :: (← blockEntries shared fuel)
    | .blockEnd => drop; return []
    | _ => fail .malformed

def blockValue (shared : Bool) : Nat → Compose Nat
  | 0 => fail .malformed
  | fuel + 1 => do
    match ← peek with
    | .value =>
      drop
      match ← peek with
      | .key | .value | .blockEnd => absent
      | _ => node true true shared fuel
    | _ => absent

/-- The items of a flow sequence; a comma stands before each but the first. -/
def flowItems (shared first : Bool) : Nat → Compose (List Nat)
  | 0 => fail .malformed
  | fuel + 1 => do
    match ← peek with
    | .flowSequenceEnd => drop; return []
    | t =>
      if first then pure ()
      else
        match t with
        | .flowEntry => drop
        | _ => fail .malformed
      match ← peek with
      | .flowSequenceEnd => drop; return []
      | .key =>
        drop
        let k ← match ← peek with
          | .value | .flowEntry | .flowSequenceEnd => absent
          | _ => node false false shared fuel
        let v ← flowValue shared fuel
        let item ← add .map shared (.map [(k, v)])
        return item :: (← flowItems shared false fuel)
      | _ =>
        let item ← node false false shared fuel
        return item :: (← flowItems shared false fuel)

/-- The value of an entry in a flow collection. -/
def flowValue (shared : Bool) : Nat → Compose Nat
  | 0 => fail .malformed
  | fuel + 1 => do
    match ← peek with
    | .value =>
      drop
      match ← peek with
      | .flowEntry | .flowSequenceEnd | .flowMappingEnd => absent
      | _ => node false false shared fuel
    | _ => absent

/-- The entries of a flow mapping; a comma stands before each but the first. -/
def flowEntries (shared first : Bool) : Nat → Compose (List (Nat × Nat))
  | 0 => fail .malformed
  | fuel + 1 => do
    match ← peek with
    | .flowMappingEnd => drop; return []
    | t =>
      if first then pure ()
      else
        match t with
        | .flowEntry => drop
        | _ => fail .malformed
      match ← peek with
      | .flowMappingEnd => drop; return []
      | .key =>
        drop
        let k ← match ← peek with
          | .value | .flowEntry | .flowMappingEnd => absent
          | _ => node false false shared fuel
        let v ← flowValue shared fuel
        return (k, v) :: (← flowEntries shared false fuel)
      | _ =>
        let k ← node false false shared fuel
        let v ← absent
        return (k, v) :: (← flowEntries shared false fuel)

end

/-- The tag handles that need no directive. -/
def defaultHandles : List (List Char × List Char) :=
  [(['!'], ['!']), (['!', '!'], commonTag)]

/-- The directives in front of a document, up to its first line. -/
def directives (version : Bool) (handles : List (List Char × List Char)) :
    Nat → Compose (List (List Char × List Char))
  | 0 => fail .malformed
  | fuel + 1 => do
    match ← peek with
    | .directive d =>
      drop
      match d with
      | .unknown => directives version handles fuel
      | .version major =>
        if version || major ≠ 1 then fail .malformed else directives true handles fuel
      | .tag handle uri =>
        if (handles.lookup handle).isSome then fail .malformed
        else directives version ((handle, uri) :: handles) fuel
    | .documentStart => drop; return handles
    | _ => fail .malformed

/-- The end of the stream, after any number of marks that end a document. A second document is
refused once it has started. -/
def ending : Nat → Compose Unit
  | 0 => fail .malformed
  | fuel + 1 => do
    match ← peek with
    | .documentEnd => drop; ending fuel
    | .streamEnd => return ()
    | _ =>
      let _ ← directives false [] fuel
      fail .malformed

/-- The place of the root of the one document of a stream, if there is one. -/
def root (fuel : Nat) : Compose (Option Nat) := do
  match ← peek with
  | .streamEnd => return none
  | .directive _ | .documentStart =>
    let handles ← directives false [] fuel
    modify fun s => { s with handles := handles ++ defaultHandles }
    let i ← match ← peek with
      | .directive _ | .documentStart | .documentEnd | .streamEnd => absent
      | _ => node true false false fuel
    ending fuel
    return some i
  | _ =>
    let i ← node true false false fuel
    ending fuel
    return some i

end Compose

/-- The place of the node that the place `i` stands for: an alias inside the node of its anchor
stands for that node. -/
def Composer.place (c : Composer) (i : Nat) : Nat :=
  match (nodeAt c.nodes i).shape with
  | .again name => ((c.anchors.lookup name).getD none).getD i
  | _ => i

/-- A node whose parts are at other places. -/
def Node.moved (place : Nat → Nat) (n : Node) : Node :=
  match n.shape with
  | .seq items => { n with shape := .seq (items.map place) }
  | .map entries => { n with shape := .map (entries.map fun e => (place e.1, place e.2)) }
  | _ => n

/-- The document of a text, if it holds one. -/
def document (s : List Char) : Except Fault (Option Document) :=
  if s.all isAllowed then do
    let ts := tokens s
    let (i, c) ← (Compose.root (4 * ts.length + 8)).run ⟨ts, Compose.defaultHandles, [], #[]⟩
    return i.map fun i => ⟨c.nodes.map (Node.moved c.place), i⟩
  else .error .malformed

end AnnotatedApi.Yaml
