/-
  Objects that occur in several places. `relabel` puts a label in front of all labels of a
  value, so that labels from different sources stay apart; `rebind` writes the new state of an
  object to each of its places.
-/
import AnnotatedApi.Value

namespace AnnotatedApi.Value

/-- The label of a value that has one. -/
def label? : Value → Option Label
  | .date l _ | .moment l _ | .list l _ | .set l _ | .map l _ => l
  | _ => none

mutual

/-- Every label of a value with `pre` in front. -/
def relabel (pre : Label) : Value → Value
  | .date l d => .date (l.map (pre ++ ·)) d
  | .moment l t => .moment (l.map (pre ++ ·)) t
  | .pair a b => .pair (a.relabel pre) (b.relabel pre)
  | .list l vs => .list (l.map (pre ++ ·)) (relabelList pre vs)
  | .set l vs => .set (l.map (pre ++ ·)) (relabelList pre vs)
  | .map l es => .map (l.map (pre ++ ·)) (relabelEntries pre es)
  | v => v

def relabelList (pre : Label) : List Value → List Value
  | [] => []
  | v :: vs => v.relabel pre :: relabelList pre vs

def relabelEntries (pre : Label) : List (Value × Value) → List (Value × Value)
  | [] => []
  | (k, v) :: es => (k.relabel pre, v.relabel pre) :: relabelEntries pre es

end

/-- A value that is an object of its own under the label `l`. -/
def named (l : Label) : Value → Value
  | .list _ vs => .list (some l) vs
  | .set _ vs => .set (some l) vs
  | .map _ es => .map (some l) es
  | v => v

mutual

/-- The value with the object named `l` in the state `new`. -/
def rebind (l : Label) (new : Value) : Value → Value
  | .pair a b => .pair (rebind l new a) (rebind l new b)
  | .list m vs => if m = some l then new else .list m (rebindList l new vs)
  | .map m es => if m = some l then new else .map m (rebindEntries l new es)
  | v => if v.label? = some l then new else v

def rebindList (l : Label) (new : Value) : List Value → List Value
  | [] => []
  | v :: vs => rebind l new v :: rebindList l new vs

def rebindEntries (l : Label) (new : Value) : List (Value × Value) → List (Value × Value)
  | [] => []
  | (k, v) :: es => (k, rebind l new v) :: rebindEntries l new es

end

/-- The entries of a document after an object in it has become `v`. -/
def settle (v : Value) (entries : List (Value × Value)) : List (Value × Value) :=
  match v.label? with
  | none => entries
  | some l => rebindEntries l v entries

@[simp] theorem settle_unlabelled {v : Value} (h : v.label? = none)
    (entries : List (Value × Value)) : settle v entries = entries := by
  simp [settle, h]

end AnnotatedApi.Value
