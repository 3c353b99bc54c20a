/-
  Security annotations, whatever their text is. A text that is JSON for a list of objects is that
  list, and any other is the name of one scheme; so requirements are objects in either case. There
  is one exception, and it goes by the text as well: where an integer of more than 4300 digits is
  due as a value, the text is neither, even if it is no JSON at all, because the reader of JSON
  gives up in a way that is not taken for malformed JSON.

  `requirements_by_text` is the statement, and `onesText_refused` the exception.
-/
import AnnotatedApi.Annotation.Security
import AnnotatedApi.Proofs.JsonGrammar

namespace AnnotatedApi.Security

open Json (IsText IsOverlong)

/-- The text is JSON for the list of these values, and they are objects. -/
def IsRequirements (text : String) (vs : List Value) : Prop :=
  IsText text (.array vs) ∧ ∀ v ∈ vs, isObject v = true

theorem requirements?_eq_some_iff {v : Value} {vs : List Value} :
    requirements? v = some vs ↔ (∃ l, v = .list l vs) ∧ ∀ w ∈ vs, isObject w = true := by
  constructor
  · intro h
    unfold requirements? at h
    split at h
    · next l ws =>
      split at h
      · next hall =>
        cases h
        exact ⟨⟨l, rfl⟩, List.all_eq_true.mp hall⟩
      · cases h
    · cases h
  · rintro ⟨⟨l, rfl⟩, hall⟩
    exact if_pos (List.all_eq_true.mpr hall)

theorem isObject_scheme (name : String) : ∀ v ∈ [scheme name], isObject v = true := by
  simp [scheme, Value.object, isObject]

variable {text : String}

theorem result_parse_of_malformed (h : Json.read text = .error .malformed) :
    (parse text).result = .ok [scheme text] := by
  rw [parse, h]
  rfl

theorem result_parse_of_ok {v : Value} (h : Json.read text = .ok v) :
    (parse text).result = .ok ((requirements? v).getD [scheme text]) := by
  rw [parse, h]
  dsimp only
  cases requirements? v <;> rfl

theorem result_parse_of_tooLong (h : Json.read text = .error .tooLong) :
    (parse text).result = .error .tooLong := by
  rw [parse, h]
  rfl

/-- Requirements that the reader of JSON comes to are the list that the text denotes. -/
theorem requirements?_of_read {v : Value} {vs : List Value} (h : Json.read text = .ok v) :
    requirements? v = some vs ↔ IsRequirements text vs := by
  rw [requirements?_eq_some_iff, IsRequirements]
  constructor
  · rintro ⟨⟨l, rfl⟩, hall⟩
    have htext := (Json.read_eq_ok_iff.mp h).1
    obtain rfl := htext.of_list.1
    exact ⟨htext, hall⟩
  · rintro ⟨htext, hall⟩
    have hsame := Json.read_eq_ok_iff.mpr ⟨htext, (Json.read_eq_ok_iff.mp h).2⟩
    rw [h] at hsame
    exact ⟨⟨none, Except.ok.inj hsame⟩, hall⟩

/-- Where no integer is too long, the annotation is read, as one thing or the other. -/
theorem result_parse_of_not_isOverlong (h : ¬ IsOverlong text) :
    ∃ vs, (parse text).result = .ok vs ∧ (∀ v ∈ vs, isObject v = true) ∧
      (∀ ws, IsRequirements text ws → vs = ws) ∧
      ((∀ ws, ¬ IsRequirements text ws) → vs = [scheme text]) := by
  cases hread : Json.read text with
  | error e =>
    cases e with
    | tooLong => exact (h (Json.read_eq_tooLong_iff.mp hread)).elim
    | malformed =>
      refine ⟨_, result_parse_of_malformed hread, isObject_scheme text, fun ws hws => ?_,
        fun _ => rfl⟩
      rw [Json.read_eq_ok_iff.mpr ⟨hws.1, h⟩] at hread
      cases hread
  | ok v =>
    cases hsome : requirements? v with
    | none =>
      refine ⟨[scheme text], ?_, isObject_scheme text, fun ws hws => ?_, fun _ => rfl⟩
      · rw [result_parse_of_ok hread, hsome]
        rfl
      · rw [(requirements?_of_read hread).mpr hws] at hsome
        cases hsome
    | some vs =>
      have hvs := (requirements?_of_read hread).mp hsome
      refine ⟨vs, ?_, hvs.2, fun ws hws => ?_, fun hnone => (hnone vs hvs).elim⟩
      · rw [result_parse_of_ok hread, hsome]
        rfl
      · rw [(requirements?_of_read hread).mpr hws] at hsome
        exact (Option.some.inj hsome).symm

theorem result_parse_eq_error_iff {e : Failure} :
    (parse text).result = .error e ↔ IsOverlong text := by
  cases e
  by_cases h : IsOverlong text
  · exact iff_of_true (result_parse_of_tooLong (Json.read_eq_tooLong_iff.mpr h)) h
  · obtain ⟨vs, hvs, -⟩ := result_parse_of_not_isOverlong h
    rw [hvs]
    exact ⟨nofun, fun hlong => (h hlong).elim⟩

/-- **A security annotation is read by its text alone.** It cannot be read exactly if an integer of
more digits than the limit stands in its text where a value of JSON is due. Any other text gives
requirements that are objects: if it is JSON for a list of objects, that list, and if not, the one
requirement of a scheme that the text names. The depth of the interpreter's stack, which a deep text
can exceed, is not modelled: it depends on the setting and the version of the interpreter, not on
the text alone. -/
theorem requirements_by_text (text : String) :
    ((∃ e, (parse text).result = .error e) ↔ IsOverlong text) ∧
    (¬ IsOverlong text →
      ∃ vs, (parse text).result = .ok vs ∧ (∀ v ∈ vs, isObject v = true) ∧
        (∀ ws, IsRequirements text ws → vs = ws) ∧
        ((∀ ws, ¬ IsRequirements text ws) → vs = [scheme text])) := by
  refine ⟨⟨fun ⟨e, he⟩ => ?_, fun h => ⟨.tooLong, ?_⟩⟩, result_parse_of_not_isOverlong⟩
  · exact result_parse_eq_error_iff.mp he
  · exact result_parse_eq_error_iff.mpr h

/-- An integer all of whose digits are ones. -/
def onesText (n : Nat) : String := String.ofList (List.replicate n '1')

theorem eq_of_mem_onesText {n : Nat} {c : Char} (hc : c ∈ (onesText n).toList) : c = '1' := by
  rw [onesText, String.toList_ofList] at hc
  exact List.eq_of_mem_replicate hc

theorem isOverlong_onesText {n : Nat} (hn : Numeral.digitLimit < n) :
    IsOverlong (onesText n) := by
  have hlength : (onesText n).toList.length = n := by
    rw [onesText, String.toList_ofList, List.length_replicate]
  have hwhole : Whole (onesText n).toList := by
    refine ⟨fun c hc => ?_, fun hnil => ?_, fun hhead => ?_⟩
    · rw [eq_of_mem_onesText hc]
      rfl
    · rw [← hlength, hnil] at hn
      exact Nat.not_lt_zero _ hn
    · cases eq_of_mem_onesText (List.mem_of_head? hhead)
  rw [← hlength] at hn
  exact ⟨[], _, rfl, nofun, .number ⟨false, _, [], (List.append_nil _).symm, hwhole, hn, nofun⟩⟩

/-- An integer of one digit too many is no list of objects, so it should be the name of a scheme,
and yet it is refused. -/
theorem onesText_refused :
    (∀ ws, ¬ IsRequirements (onesText (Numeral.digitLimit + 1)) ws) ∧
      (parse (onesText (Numeral.digitLimit + 1))).result = .error .tooLong := by
  refine ⟨fun ws hws => ?_,
    result_parse_eq_error_iff.mpr (isOverlong_onesText (Nat.lt_add_one _))⟩
  cases eq_of_mem_onesText hws.1.of_list.2

end AnnotatedApi.Security
