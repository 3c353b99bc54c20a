/-
  Comments written back as values. A checked comment is a description with annotations, and each
  annotation may have a type expression inside which there are others, to any depth. Written back
  (`CommentBlock.toValue`) and checked again it is the same comment (`CommentBlock.check_toValue`),
  by one induction over type expressions, the options and the lists of them
  (`TypeExpr.check_toValue`).

  A text with halves of characters can be written back in two ways, with the halves as code points
  (`Value.restored`) or as the characters they are kept as. A check does not tell the two apart
  (`CommentBlock.check_restored`).

  `check_writtenBack` is the statement.
-/
import AnnotatedApi.Annotation.Comment
import AnnotatedApi.Proofs.Sizes

namespace AnnotatedApi

/-! ## Checks of texts and lists -/

namespace Text

/-- A half that is kept as a character is kept as this one. -/
theorem ofPoint_point (c : Char) : ofPoint (point c) = c := by
  unfold ofPoint point
  have hvalid : c.toNat < 0xD800 ∨ 0xDFFF < c.toNat := by
    rcases c.valid with h | h
    · exact Or.inl h
    · exact Or.inr h.1
  by_cases hhalf : isHalf c = true
  · have hoffset : c.toNat - halfOffset + halfOffset = c.toNat := by
      simp only [isHalf, isHigh, isLow, Bool.or_eq_true, Bool.and_eq_true, decide_eq_true_eq]
        at hhalf
      omega
    rw [if_pos hhalf, if_pos (by simpa [isHalf] using hhalf), hoffset, Char.ofNat_toNat]
  · have hplain : ¬ (isHigh c.toNat || isLow c.toNat) = true := by
      simp only [isHigh, isLow, Bool.or_eq_true, Bool.and_eq_true, decide_eq_true_eq]
      omega
    rw [if_neg hhalf, if_neg hplain, Char.ofNat_toNat]

theorem ofPoints_point (s : String) : ofPoints (s.toList.map point) = s := by
  have hpoints : (s.toList.map point).map ofPoint = s.toList := by
    simp only [List.map_map, Function.comp_def, ofPoint_point, List.map_id']
  rw [ofPoints, hpoints, String.ofList_toList]

end Text

namespace Value

theorem restored_eq_null_iff (v : Value) : v.restored = .null ↔ v = .null := by
  cases v with
  | str s =>
    unfold restored
    split <;> simp
  | _ => simp [restored]

/-- The keys of comments, annotations and type expressions. -/
def shapeKeys : List String :=
  ["description", "tags", "title", "name", "type", "kind", "expression", "applications", "elements"]

theorem any_isHalf_of_shapeKey {key : String} (h : key ∈ shapeKeys) :
    key.any Text.isHalf = false := by
  have hall : ∀ key ∈ shapeKeys, key.toList.any Text.isHalf = false := by decide +kernel
  rw [show key.any Text.isHalf = key.toList.any Text.isHalf from String.contains_bool_eq]
  exact hall key h

/-- What is made of the value under a key, if it does not tell how halves are written. -/
theorem map_get?_restoredEntries {γ : Type} {f : Value → γ} {es : List (Value × Value)}
    (h : ∀ e ∈ es, f e.2.restored = f e.2) {key : String} (hkey : key ∈ shapeKeys) :
    (Assoc.get? (.str key) (restoredEntries es)).map f = (Assoc.get? (.str key) es).map f := by
  rw [get?_restoredEntries (any_isHalf_of_shapeKey hkey), Option.map_map]
  refine Option.map_congr fun v hv => ?_
  exact h _ (Assoc.mem_of_get? hv)

theorem restoredList_eq_map (vs : List Value) : restoredList vs = vs.map restored := by
  induction vs with
  | nil => rfl
  | cons v vs ih => rw [restoredList, ih, List.map_cons]

end Value

namespace Checked

/-- Items that are all in order. -/
theorem items_map_ok {α : Type} (n : Nat) (as : List α) : items n (as.map .ok) = .ok as := by
  induction as generalizing n with
  | nil => rfl
  | cons a as ih =>
    rw [List.map_cons, items, ih]
    rfl

theorem text_restored (v : Value) : text v.restored = text v := by
  cases v with
  | str s =>
    unfold Value.restored
    split
    · exact congrArg Except.ok (Text.ofPoints_point s)
    · rfl
  | _ => rfl

theorem textOrEmpty_restored (v : Value) : textOrEmpty v.restored = textOrEmpty v := by
  cases v with
  | str s =>
    unfold Value.restored
    split
    · exact congrArg Except.ok (Text.ofPoints_point s)
    · rfl
  | _ => rfl

theorem text?_restored (v : Value) : text? v.restored = text? v := by
  cases v with
  | str s =>
    unfold Value.restored
    split
    · exact congrArg (fun t => Except.ok (some t)) (Text.ofPoints_point s)
    · rfl
  | _ => rfl

theorem listItems_restored (v : Value) :
    listItems v.restored = (listItems v).map (List.map Value.restored) := by
  cases v with
  | str s =>
    unfold Value.restored
    split <;> rfl
  | list l vs => exact congrArg Except.ok (Value.restoredList_eq_map vs)
  | set l vs => exact congrArg Except.ok (Value.restoredList_eq_map vs)
  | _ => rfl

end Checked

/-! ## Type expressions -/

namespace TypeExpr

/-- The parts of an expression are what stands under their keys. -/
theorem found_eq (es : List (Value × Value)) :
    found es =
      { type := (Assoc.get? (.str "type") es).map Checked.text
        kind := (Assoc.get? (.str "kind") es).map Checked.text
        name := (Assoc.get? (.str "name") es).map Checked.text?
        expression := (Assoc.get? (.str "expression") es).map check?
        applications := (Assoc.get? (.str "applications") es).map checkList
        elements := (Assoc.get? (.str "elements") es).map checkList } := by
  induction es with
  | nil => rfl
  | cons e es ih =>
    obtain ⟨k, v⟩ := e
    unfold found
    split <;> rename_i heq <;> cases heq <;> simp_all [Assoc.get?_cons]

theorem check?_of_ne_null {v : Value} (h : v ≠ .null) : check? v = (check v).map some := by
  cases v with
  | null => exact absurd rfl h
  | _ => rfl

theorem toValue_ne_null (e : TypeExpr) : e.toValue ≠ .null := by
  cases e
  simp [toValue, Value.object]

theorem text?_optionValue (name : Option String) : Checked.text? (optionValue name) = .ok name := by
  cases name <;> rfl

mutual

/-- An expression that is written back is checked to be the same one. -/
theorem check_toValue : (e : TypeExpr) → check e.toValue = .ok e
  | ⟨kind, name, expression, applications, elements⟩ => by
    have hexpression := check?_optionToValue expression
    have happlications := checkEach_listToValue applications
    have helements := checkEach_listToValue elements
    simp only [toValue, Value.object, List.map_cons, List.map_nil, check, found, checkList,
      Value.array, text?_optionValue, hexpression, happlications, helements, Checked.items_map_ok]
    rfl

theorem check?_optionToValue : (e : Option TypeExpr) → check? (optionToValue e) = .ok e
  | none => rfl
  | some e => by
    rw [optionToValue, check?_of_ne_null (toValue_ne_null e), check_toValue e]
    rfl

theorem checkEach_listToValue : (es : List TypeExpr) → checkEach (listToValue es) = es.map .ok
  | [] => rfl
  | e :: es => by
    rw [listToValue, checkEach, check_toValue e, checkEach_listToValue es, List.map_cons]

end

theorem check?_restored_of {v : Value} (h : check v.restored = check v) :
    check? v.restored = check? v := by
  by_cases hnull : v = .null
  · rw [hnull]
    rfl
  · rw [check?_of_ne_null hnull, check?_of_ne_null (mt (Value.restored_eq_null_iff v).mp hnull), h]

mutual

/-- An expression is found in a value however the halves in its texts are written. -/
theorem check_restored : (v : Value) → check v.restored = check v
  | .map l es => by
    have hes := entries_restored es
    have hfound : found (Value.restoredEntries es) = found es := by
      rw [found_eq, found_eq,
        Value.map_get?_restoredEntries (fun e _ => Checked.text_restored e.2) (by decide),
        Value.map_get?_restoredEntries (fun e _ => Checked.text_restored e.2) (by decide),
        Value.map_get?_restoredEntries (fun e _ => Checked.text?_restored e.2) (by decide),
        Value.map_get?_restoredEntries (fun e he => check?_restored_of (hes e he).1) (by decide),
        Value.map_get?_restoredEntries (fun e he => (hes e he).2) (by decide),
        Value.map_get?_restoredEntries (fun e he => (hes e he).2) (by decide)]
    rw [Value.restored, check, check, hfound]
  | .str s => by
    unfold Value.restored
    split <;> rfl
  | .pair _ _ | .list _ _ | .set _ _ => rfl
  | .null | .bool _ | .int _ | .float _ | .illFormed _ | .bytes _ | .date _ _ | .moment _ _ => rfl

theorem checkList_restored : (v : Value) → checkList v.restored = checkList v
  | .list l vs => by
    rw [Value.restored, checkList, checkList, checkEach_restored vs]
  | .set l vs => by
    rw [Value.restored, checkList, checkList, checkEach_restored vs]
  | .pair a b => by
    rw [Value.restored, checkList, checkList, check_restored a, check_restored b]
  | .str s => by
    unfold Value.restored
    split <;> rfl
  | .map _ _ => rfl
  | .null | .bool _ | .int _ | .float _ | .illFormed _ | .bytes _ | .date _ _ | .moment _ _ => rfl

theorem checkEach_restored : (vs : List Value) → checkEach (Value.restoredList vs) = checkEach vs
  | [] => rfl
  | v :: vs => by
    rw [Value.restoredList, checkEach, checkEach, check_restored v, checkEach_restored vs]

theorem entries_restored : (es : List (Value × Value)) →
    ∀ e ∈ es, check e.2.restored = check e.2 ∧ checkList e.2.restored = checkList e.2
  | [] => fun _ he => (List.not_mem_nil he).elim
  | (k, v) :: es => by
    rw [List.forall_mem_cons]
    exact ⟨⟨check_restored v, checkList_restored v⟩, entries_restored es⟩

end

theorem check?_restored (v : Value) : check? v.restored = check? v :=
  check?_restored_of (check_restored v)

end TypeExpr

/-! ## Annotations -/

namespace Tag

theorem check_toValue (t : Tag) : check t.toValue = .ok t := by
  have htype := TypeExpr.check?_optionToValue t.type
  simp [toValue, Value.object, check, field?, Assoc.get?_cons, htype, Checked.text,
    Checked.textOrEmpty, Checked.under, Checked.both, Except.map]

theorem field?_restored {α : Type} {check : Value → Checked α}
    (h : ∀ v, check v.restored = check v) {key : String} (hkey : key ∈ Value.shapeKeys)
    (es : List (Value × Value)) (default : Checked α) :
    field? key (Value.restoredEntries es) check default = field? key es check default := by
  rw [field?, field?, Value.get?_restoredEntries (Value.any_isHalf_of_shapeKey hkey)]
  cases Assoc.get? (.str key) es with
  | none => rfl
  | some v =>
    rw [Option.map_some]
    dsimp only
    rw [h]

theorem check_restored (v : Value) : check v.restored = check v := by
  cases v with
  | map l es =>
    rw [Value.restored, check, check, field?_restored Checked.text_restored (by decide),
      field?_restored Checked.textOrEmpty_restored (by decide),
      field?_restored TypeExpr.check?_restored (by decide),
      field?_restored Checked.textOrEmpty_restored (by decide)]
  | str s =>
    unfold Value.restored
    split <;> rfl
  | _ => rfl

end Tag

/-! ## Comments -/

namespace CommentBlock

/-- A comment that is written back is checked to be the same one. -/
theorem check_toValue (b : CommentBlock) : check b.toValue = .ok b := by
  have htags : Checked.items 0 ((b.tags.map Tag.toValue).map Tag.check) = .ok b.tags := by
    rw [List.map_map, show Tag.check ∘ Tag.toValue = Except.ok from funext Tag.check_toValue,
      Checked.items_map_ok]
  simp [toValue, Value.object, Value.array, check, Tag.field?, Assoc.get?_cons, Checked.listItems,
    Checked.text, Checked.textOrEmpty, Checked.under, Checked.both, Except.map, ok_bind, htags,
    -List.map_map]

theorem check_restored (v : Value) : check v.restored = check v := by
  have htags : ∀ v, (do Checked.items 0 ((← Checked.listItems v.restored).map Tag.check)) =
      (do Checked.items 0 ((← Checked.listItems v).map Tag.check)) := by
    intro v
    rw [Checked.listItems_restored]
    cases Checked.listItems v with
    | error cs => rfl
    | ok vs =>
      have hitems : (vs.map Value.restored).map Tag.check = vs.map Tag.check := by
        simp only [List.map_map, Function.comp_def, Tag.check_restored]
      exact congrArg (Checked.items 0) hitems
  cases v with
  | map l es =>
    rw [Value.restored, check, check, Tag.field?_restored Checked.textOrEmpty_restored (by decide),
      Tag.field?_restored htags (by decide)]
  | str s =>
    unfold Value.restored
    split <;> rfl
  | _ => rfl

end CommentBlock

/-- The comments of a file that is written back are the same ones. -/
theorem commentsOf_map_toValue (bs : List CommentBlock) :
    commentsOf (.array (bs.map CommentBlock.toValue)) = .ok bs := by
  have hvalues : commentValues (.array (bs.map CommentBlock.toValue)) =
      .ok (bs.map CommentBlock.toValue) := by
    cases bs <;> rfl
  rw [commentsOf, hvalues, ok_bind]
  clear hvalues
  induction bs with
  | nil => rfl
  | cons b bs ih =>
    rw [List.map_cons, List.mapM_cons, CommentBlock.check_toValue, ih]
    rfl

/-- **A comment is what it is written back as.** Every comment, written back as a value with its
halves of characters in either form, is checked to be the same comment again; so it declares a model
or a route just as before. To check what a check gave changes nothing, for a single value and for
the value of a whole file, and what is refused stays refused with the same complaints. -/
theorem check_writtenBack :
    (∀ b : CommentBlock, CommentBlock.check b.toValue = .ok b ∧
      CommentBlock.check b.toValue.restored = .ok b ∧
      (CommentBlock.check b.toValue).map CommentBlock.isModel = .ok b.isModel ∧
      (CommentBlock.check b.toValue).map CommentBlock.isRoute = .ok b.isRoute) ∧
    (∀ v, (CommentBlock.check v >>= fun b => CommentBlock.check b.toValue) =
      CommentBlock.check v) ∧
    (∀ v, (commentsOf v >>= fun bs => commentsOf (.array (bs.map CommentBlock.toValue))) =
      commentsOf v) := by
  refine ⟨fun b => ?_, fun v => ?_, fun v => ?_⟩
  · rw [CommentBlock.check_restored, CommentBlock.check_toValue]
    exact ⟨rfl, rfl, rfl, rfl⟩
  · cases CommentBlock.check v with
    | error cs => rfl
    | ok b => exact CommentBlock.check_toValue b
  · cases commentsOf v with
    | error e => rfl
    | ok bs => exact commentsOf_map_toValue bs

end AnnotatedApi
