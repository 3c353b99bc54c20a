/-
  Writing YAML, in blocks: one entry or item per line, lists under a key at the column of the
  key. An object that occurs several times is written once, with an anchor, and then referred to.
-/
import AnnotatedApi.Number.Shortest
import AnnotatedApi.Text.Base64
import AnnotatedApi.Value.Share
import AnnotatedApi.Value.Spelled
import AnnotatedApi.Yaml.Pen

namespace AnnotatedApi.Yaml

/-- The objects met so far, the numbers of those met again, and whether all integers met can be
written. -/
structure Anchors where
  met : List Label := []
  numbers : List (Label × Nat) := []
  writable : Bool := true

namespace Anchors

def number? (a : Anchors) (l : Option Label) : Option Nat := l.bind fun l => a.numbers.lookup l

/-- An object met once more: its number, if it has none yet. -/
def again (a : Anchors) (l : Label) : Anchors :=
  if (a.numbers.lookup l).isSome then a
  else { a with numbers := (l, a.numbers.length + 1) :: a.numbers }

mutual

/-- The objects of a value met in the order of writing, each gone through once. -/
def visit (a : Anchors) : Value → Anchors
  | .int n => { a with writable := a.writable && Value.writable n }
  | .date l _ => leaf a l
  | .moment l _ => leaf a l
  | .pair v w => visit (visit a v) w
  | .list l vs =>
    match l with
    | none => visitList a vs
    | some l => if a.met.contains l then a.again l else visitList { a with met := l :: a.met } vs
  | .set l vs =>
    match l with
    | none => visitList a vs
    | some l => if a.met.contains l then a.again l else visitList { a with met := l :: a.met } vs
  | .map l es =>
    match l with
    | none => visitEntries a es
    | some l => if a.met.contains l then a.again l else visitEntries { a with met := l :: a.met } es
  | _ => a

def visitList (a : Anchors) : List Value → Anchors
  | [] => a
  | v :: vs => visitList (visit a v) vs

def visitEntries (a : Anchors) : List (Value × Value) → Anchors
  | [] => a
  | (k, v) :: es => visitEntries (visit (visit a k) v) es

def leaf (a : Anchors) : Option Label → Anchors
  | none => a
  | some l => if a.met.contains l then a.again l else { a with met := l :: a.met }

end

end Anchors

/-- The layout of numbers: an exponent follows a point. -/
def floatText (x : Binary64) : List Char :=
  match x.magnitude with
  | .notANumber => ".nan".toList
  | .infinite => if x.negative then "-.inf".toList else ".inf".toList
  | .finite .. =>
    let s := x.text
    if s.contains '.' then s
    else
      match Text.cutAt 'e' s with
      | (m, some e) => m ++ ".0e".toList ++ e
      | (m, none) => m

/-- A text in lines of 76 characters, each ended by a line feed. -/
def linesOf76 : Nat → List Char → List Char
  | 0, _ => []
  | fuel + 1, s => if s.isEmpty then [] else s.take 76 ++ '\n' :: linesOf76 fuel (s.drop 76)

/-- Bytes in base 64. -/
def bytesText (bs : List UInt8) : List Char :=
  let s := Text.Base64.encode bs
  linesOf76 (s.length + 1) s

/-- The scalar that a value is written as, if it is one. -/
def scalarOf? : Value → Option ScalarText
  | .null => some ⟨.null, .text "null".toList, false⟩
  | .bool b => some ⟨.bool, .text (if b then "true".toList else "false".toList), false⟩
  | .int n => some ⟨.int, .text (Text.decimalInt n), false⟩
  | .float x => some ⟨.float, .text (floatText x), false⟩
  | .str s => some ⟨.str, .text s.toList, false⟩
  | .illFormed ps => some ⟨.str, .points ps, false⟩
  | .bytes bs => some ⟨.binary, .text (bytesText bs), true⟩
  | .date _ d => some ⟨.timestamp, .text d.text, false⟩
  | .moment _ t => some ⟨.timestamp, .text (t.text ' '), false⟩
  | _ => none

/-- What a node stands in. -/
inductive Around where
  | entry
  | item

/-- The pen, and the objects that are written already. -/
structure Writer where
  pen : Pen := {}
  written : List Label := []

namespace Writer

def onPen (f : Pen → Pen) (w : Writer) : Writer := { w with pen := f w.pen }

def anchorText (n : Nat) : List Char := 'i' :: 'd' :: Text.padded 3 n

/-- The scalar of a key, with its anchor. -/
def keyScalar (a : Anchors) (k : Value) (simple : Bool) (indent : Nat) (w : Writer) : Writer :=
  match scalarOf? k with
  | none => w
  | some t =>
    match a.number? k.label?, k.label? with
    | some n, some l =>
      if w.written.contains l then w.onPen (·.indicator ('*' :: anchorText n) true false false)
      else
        { w with written := l :: w.written }.onPen fun p =>
          (p.indicator ('&' :: anchorText n) true false false).scalar simple indent t
    | _, _ => w.onPen (·.scalar simple indent t)

/-- Whether a key stands on a line with its value. -/
def isSimpleKey (a : Anchors) (k : Value) (w : Writer) : Bool :=
  match scalarOf? k with
  | none => false
  | some t =>
    match a.number? k.label?, k.label? with
    | some n, some l =>
      if w.written.contains l then (anchorText n).length < 128
      else t.isSimpleKey (anchorText n).length
    | _, _ => t.isSimpleKey 0

/-- The start of an entry: its key and the colon. -/
def entryStart (a : Anchors) (k : Value) (indent : Nat) (w : Writer) : Writer :=
  let simple := w.isSimpleKey a k
  let w := w.onPen (·.indentTo indent)
  if simple then
    (w.keyScalar a k true (indent + 2)).onPen (·.indicator [':'] false false false)
  else
    let w := w.onPen (·.indicator ['?'] true false true)
    (w.keyScalar a k false (indent + 2)).onPen fun p =>
      (p.indentTo indent).indicator [':'] true false true

/-- The column of the items of a list: that of the key it stands under on the same line. -/
def itemIndent (around : Around) (indent : Nat) (w : Writer) : Nat :=
  match around with
  | .entry => if w.pen.margin then indent else indent - 2
  | .item => indent

/-- An empty collection. -/
def empty (left right : Char) (w : Writer) : Writer :=
  w.onPen fun p => (p.indicator [left] true true false).indicator [right] false false false

/-- The anchor of an object that occurs several times; nothing more if it is written already. -/
def anchored (a : Anchors) (l : Option Label) (w : Writer) (content : Writer → Writer) : Writer :=
  match l, a.number? l with
  | some l, some n =>
    if w.written.contains l then w.onPen (·.indicator ('*' :: anchorText n) true false false)
    else
      content ({ w with written := l :: w.written }.onPen
        (·.indicator ('&' :: anchorText n) true false false))
  | _, _ => content w

/-- The mark in front of an item. -/
def itemStart (indent : Nat) (w : Writer) : Writer :=
  w.onPen fun p => (p.indentTo indent).indicator ['-'] true false true

mutual

/-- A value; `indent` is the column of a block inside it. -/
def node (a : Anchors) (around : Around) (indent : Nat) : Value → Writer → Writer
  | .list l vs, w =>
    w.anchored a l fun w =>
      if vs.isEmpty then w.empty '[' ']' else items a (w.itemIndent around indent) vs w
  | .pair v v', w =>
    let column := w.itemIndent around indent
    node a .item (column + 2) v'
      (itemStart column (node a .item (column + 2) v (itemStart column w)))
  | .map l es, w =>
    w.anchored a l fun w => if es.isEmpty then w.empty '\x7b' '\x7d' else entries a indent es w
  | .set l vs, w =>
    w.anchored a l fun w =>
      let w := w.onPen (·.indicator (ScalarText.tagText .set) true false false)
      if vs.isEmpty then w.empty '\x7b' '\x7d' else members a indent vs w
  | .date l d, w =>
    w.anchored a l (·.onPen (·.scalar false indent ⟨.timestamp, .text d.text, false⟩))
  | .moment l t, w =>
    w.anchored a l (·.onPen (·.scalar false indent ⟨.timestamp, .text (t.text ' '), false⟩))
  | v, w =>
    match scalarOf? v with
    | some t => w.onPen (·.scalar false indent t)
    | none => w

def items (a : Anchors) (indent : Nat) : List Value → Writer → Writer
  | [], w => w
  | v :: vs, w => items a indent vs (node a .item (indent + 2) v (itemStart indent w))

def entries (a : Anchors) (indent : Nat) : List (Value × Value) → Writer → Writer
  | [], w => w
  | (k, v) :: es, w => entries a indent es (node a .entry (indent + 2) v (w.entryStart a k indent))

/-- The members of a set, as keys without a value. -/
def members (a : Anchors) (indent : Nat) : List Value → Writer → Writer
  | [], w => w
  | v :: vs, w =>
    members a indent vs
      ((w.entryStart a v indent).onPen
        (·.scalar false (indent + 2) ⟨.null, .text "null".toList, false⟩))

end

end Writer

/-- Why a value cannot be written. -/
inductive WriteFault where
  | tooLong
deriving DecidableEq

/-- A value as a YAML text. -/
def write (v : Value) : Except WriteFault String :=
  let a := Anchors.visit {} v
  if a.writable then
    .ok (String.ofList ((Writer.node a .item 0 v {}).pen.indentTo 0).out.reverse)
  else .error .tooLong

end AnnotatedApi.Yaml
