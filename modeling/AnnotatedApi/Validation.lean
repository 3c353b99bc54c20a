/-
  Checking a value against the shape of a record. A check gives the record or every complaint
  about the value, each with the place it is about: fields in the order of their declaration,
  list items by index.
-/
import AnnotatedApi.Text.Surrogate
import AnnotatedApi.Value.Spelled

namespace AnnotatedApi

/-- One step from a record to a part of it. -/
inductive Place where
  | field (name : String)
  | index (n : Int)
deriving DecidableEq

inductive Complaint.Reason where
  | missing
  | notText
  | notUnicode
  | notRecord
  | notList
  | notMapping
  | tooFew
  | notTruth
  | unknownTruth
  | notAChoice
  | notPath
deriving DecidableEq

structure Complaint where
  place : List Place
  reason : Complaint.Reason
deriving DecidableEq

/-- A record, or the complaints about the value it was to be read from. -/
abbrev Checked (α : Type) := Except (List Complaint) α

namespace Checked

def complain {α : Type} (r : Complaint.Reason) : Checked α := .error [⟨[], r⟩]

/-- The complaints are about the part at `p`. -/
def under {α : Type} (p : Place) : Checked α → Checked α
  | .ok a => .ok a
  | .error cs => .error (cs.map fun c => ⟨p :: c.place, c.reason⟩)

/-- Both parts, or the complaints about both. -/
def both {α β : Type} : Checked α → Checked β → Checked (α × β)
  | .ok a, .ok b => .ok (a, b)
  | .ok _, .error cs => .error cs
  | .error cs, .ok _ => .error cs
  | .error cs, .error ds => .error (cs ++ ds)

/-- All parts, or the complaints about all of them. -/
def every {α : Type} : List (Checked α) → Checked (List α)
  | [] => .ok []
  | c :: cs => (both c (every cs)).map fun p => p.1 :: p.2

/-- The items, each checked and each in its place. -/
def items {α : Type} (n : Nat) : List (Checked α) → Checked (List α)
  | [] => .ok []
  | c :: cs => (both (c.under (.index n)) (items (n + 1) cs)).map fun p => p.1 :: p.2

/-- Text: characters, halves of characters among them, or bytes that are their encoding. -/
def text : Value → Checked String
  | .str s => .ok s
  | .bytes bs =>
    match String.fromUTF8? (ByteArray.mk bs.toArray) with
    | some s => .ok s
    | none => complain .notUnicode
  | .illFormed points => .ok (Text.ofPoints points)
  | _ => complain .notText

/-- Text, where null counts as the empty text. -/
def textOrEmpty : Value → Checked String
  | .null => .ok ""
  | v => text v

/-- Text or null. -/
def text? : Value → Checked (Option String)
  | .null => .ok none
  | v => (text v).map some

/-- The items of a list, of a pair or of a set. -/
def listItems : Value → Checked (List Value)
  | .list _ vs | .set _ vs => .ok vs
  | .pair a b => .ok [a, b]
  | _ => complain .notList

/-- The first integer that does not fit a signed word of 64 bits. -/
def wordLimit : Int := 9223372036854775808

/-- The part of a complaint's place that a key of a mapping is. An integer that is too long to
be written has no literal. -/
def keyPlace (k : Value) : Place :=
  let literal :=
    Place.field (if k.spellable then String.ofList k.literal else "<unprintable int object>")
  match k with
  | .str s => .field s
  | .bool b => .index (if b then 1 else 0)
  | .int n => if -wordLimit ≤ n && n < wordLimit then .index n else literal
  | _ => literal

/-- The key of a mapping whose keys are texts. -/
def textKey (k : Value) : Checked String :=
  ((text k).under (.field "[key]")).under (keyPlace k)

end Checked

end AnnotatedApi
