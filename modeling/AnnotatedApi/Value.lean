/-
  The values that documents are made of. Mappings keep the order of their entries. A container
  or a date may carry a label: the occurrences of one label are one and the same object, which
  the writer of documents names once and refers to afterwards. Equality of values is decidable
  (`Value.eq_of_beq`, `Value.beq_self`).
-/
import AnnotatedApi.Calendar
import AnnotatedApi.Number.Binary64

namespace AnnotatedApi

/-- The name of an object that may occur in several places. -/
abbrev Label := List Nat

inductive Value where
  | null
  | bool (b : Bool)
  | int (n : Int)
  | float (x : Binary64)
  | str (s : String)
  /-- Text, as code points, with a surrogate in it. No character string can hold one, but an
  escape in a quoted scalar can spell it. -/
  | illFormed (points : List Nat)
  | bytes (bs : List UInt8)
  | date (label : Option Label) (d : Date)
  | moment (label : Option Label) (t : Moment)
  | pair (first second : Value)
  | list (label : Option Label) (items : List Value)
  | set (label : Option Label) (items : List Value)
  | map (label : Option Label) (entries : List (Value × Value))
deriving Inhabited

namespace Value

mutual

def beq : Value → Value → Bool
  | .null, .null => true
  | .bool a, .bool b => a == b
  | .int a, .int b => a == b
  | .float a, .float b => a == b
  | .str a, .str b => a == b
  | .illFormed a, .illFormed b => a == b
  | .bytes a, .bytes b => a == b
  | .date l a, .date m b => l == m && a == b
  | .moment l a, .moment m b => l == m && a == b
  | .pair a b, .pair c d => beq a c && beq b d
  | .list l a, .list m b => l == m && beqList a b
  | .set l a, .set m b => l == m && beqList a b
  | .map l a, .map m b => l == m && beqEntries a b
  | _, _ => false

def beqList : List Value → List Value → Bool
  | [], [] => true
  | v :: vs, w :: ws => beq v w && beqList vs ws
  | _, _ => false

def beqEntries : List (Value × Value) → List (Value × Value) → Bool
  | [], [] => true
  | (k, v) :: es, (k', v') :: es' => beq k k' && beq v v' && beqEntries es es'
  | _, _ => false

end

mutual

theorem beq_self : (v : Value) → beq v v = true
  | .null | .bool _ | .int _ | .float _ | .str _ | .illFormed _ | .bytes _ | .date ..
  | .moment .. => by
    simp [beq]
  | .pair a b => by simp [beq, beq_self a, beq_self b]
  | .list _ vs => by simp [beq, beqList_self vs]
  | .set _ vs => by simp [beq, beqList_self vs]
  | .map _ es => by simp [beq, beqEntries_self es]

theorem beqList_self : (vs : List Value) → beqList vs vs = true
  | [] => by simp [beqList]
  | v :: vs => by simp [beqList, beq_self v, beqList_self vs]

theorem beqEntries_self : (es : List (Value × Value)) → beqEntries es es = true
  | [] => by simp [beqEntries]
  | (k, v) :: es => by simp [beqEntries, beq_self k, beq_self v, beqEntries_self es]

end

mutual

theorem eq_of_beq : (v w : Value) → beq v w = true → v = w
  | .null, w, h => by cases w <;> simp_all [beq]
  | .bool _, w, h => by cases w <;> simp_all [beq]
  | .int _, w, h => by cases w <;> simp_all [beq]
  | .float _, w, h => by cases w <;> simp_all [beq]
  | .str _, w, h => by cases w <;> simp_all [beq]
  | .illFormed _, w, h => by cases w <;> simp_all [beq]
  | .bytes _, w, h => by cases w <;> simp_all [beq]
  | .date .., w, h => by cases w <;> simp_all [beq]
  | .moment .., w, h => by cases w <;> simp_all [beq]
  | .pair a b, .pair c d, h => by
    simp only [beq, Bool.and_eq_true] at h
    rw [eq_of_beq a c h.1, eq_of_beq b d h.2]
  | .list _ vs, .list _ ws, h => by
    simp only [beq, Bool.and_eq_true, beq_iff_eq] at h
    rw [h.1, eq_of_beqList vs ws h.2]
  | .set _ vs, .set _ ws, h => by
    simp only [beq, Bool.and_eq_true, beq_iff_eq] at h
    rw [h.1, eq_of_beqList vs ws h.2]
  | .map _ es, .map _ fs, h => by
    simp only [beq, Bool.and_eq_true, beq_iff_eq] at h
    rw [h.1, eq_of_beqEntries es fs h.2]

theorem eq_of_beqList : (vs ws : List Value) → beqList vs ws = true → vs = ws
  | [], [], _ => rfl
  | v :: vs, w :: ws, h => by
    simp only [beqList, Bool.and_eq_true] at h
    rw [eq_of_beq v w h.1, eq_of_beqList vs ws h.2]

theorem eq_of_beqEntries : (es fs : List (Value × Value)) → beqEntries es fs = true → es = fs
  | [], [], _ => rfl
  | (k, v) :: es, (k', v') :: fs, h => by
    simp only [beqEntries, Bool.and_eq_true] at h
    rw [eq_of_beq k k' h.1.1, eq_of_beq v v' h.1.2, eq_of_beqEntries es fs h.2]

end

instance : DecidableEq Value := fun v w =>
  decidable_of_iff (beq v w = true) ⟨eq_of_beq v w, fun h => h ▸ beq_self v⟩

/-- Whether a value counts as present in a condition: what is empty, zero or false does not. -/
def truthy : Value → Bool
  | .null => false
  | .bool b => b
  | .int n => n != 0
  | .float x => !x.isZero
  | .str s => s != ""
  | .illFormed points => !points.isEmpty
  | .bytes bs => !bs.isEmpty
  | .date .. | .moment .. | .pair .. => true
  | .list _ items | .set _ items => !items.isEmpty
  | .map _ entries => !entries.isEmpty

/-- The number of parts of a value that has some. -/
def size? : Value → Option Nat
  | .str s => some s.length
  | .illFormed points => some points.length
  | .bytes bs => some bs.length
  | .pair .. => some 2
  | .list _ items | .set _ items => some items.length
  | .map _ entries => some entries.length
  | _ => none

/-- Whether a value can be a key of a mapping. -/
def hashable : Value → Bool
  | .list .. | .set .. | .map .. => false
  | .pair a b => a.hashable && b.hashable
  | _ => true

/-- The integer that a number or truth value equals. -/
def asInt? : Value → Option Int
  | .bool b => some (if b then 1 else 0)
  | .int n => some n
  | .float x => x.toInt?
  | _ => none

/-- Whether two keys of a mapping are equal: numbers and truth values by the number they are,
moments with an offset by their instant, all else by what it is. What is not a number is equal
to no key, not even to itself. -/
def sameKey (v w : Value) : Bool :=
  match v.asInt?, w.asInt? with
  | some m, some n => m == n
  | none, none =>
    match v, w with
    | .float x, .float y => x == y && !x.isNaN
    | .date _ a, .date _ b => a == b
    | .moment _ a, .moment _ b =>
      if a.offset.isSome && b.offset.isSome then a.instant == b.instant else a == b
    | _, _ => v == w
  | _, _ => false

/-- A mapping with text keys. -/
def object (fields : List (String × Value)) : Value :=
  .map none (fields.map fun f => (.str f.1, f.2))

/-- A list that occurs once. -/
def array (items : List Value) : Value := .list none items

end Value

end AnnotatedApi
