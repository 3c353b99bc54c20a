/-
  Documents in YAML files. A document is written to a YAML file so that it can be read back as a
  base definition, if its texts are legible where they stand (`loadDefinition_dump`). One that is
  not: a next-line character is lost between single quotes (`nextLine_lost`).
-/
import AnnotatedApi.Proofs.Files
import AnnotatedApi.Proofs.Yaml.Writing

namespace AnnotatedApi

theorem Text.unixLines_of_notMem {s : List Char} (h : '\r' ∉ s) : Text.unixLines s = s := by
  fun_induction Text.unixLines s with
  | case1 => rfl
  | case2 s ih => simp at h
  | case3 c s _ ih =>
    rw [List.mem_cons, not_or] at h
    rw [if_neg (Ne.symm h.1), ih h.2]

/-- **The YAML text of a document reads back as the document.** A plain mapping without shared
containers, whatever its depth, is written to every YAML file. If its texts are legible, a run that
finds the text in the file reads it as the mapping. The depth of the interpreter's stack, which a
deep value can exceed when it is written or read, is not modelled. -/
theorem loadDefinition_dump (es : List (Value × Value))
    (hplain : (Value.map none es).isPlain = true) (htree : (Value.map none es).isTree = true)
    (hlegible : (Value.map none es).legible false 0 = true) (file : Path)
    (hyaml : Format.ofPath file = .yaml) (hnamed : file.isNamed = true) :
    ∃ text, dump (.map none es) file = .ok text ∧
      ∀ (answer : Path → Entry) (t : Transcript), answer file = .file (some text) →
        t.halves = false → ((Build.loadDefinition file).outcome answer t).1 = .ok (.map none es) := by
  obtain ⟨o, hwrite, hkept, hread⟩ := Yaml.write_of_legible hplain htree hlegible
  have hdump : dump (.map none es) file = .ok (String.ofList (o ++ ['\n'])) := by
    simp only [dump, hyaml, render, hwrite]
  refine ⟨_, hdump, fun answer t hanswer ht => ?_⟩
  have hreturn : '\r' ∉ o ++ ['\n'] := fun h => by
    rcases List.mem_append.mp h with h | h
    · exact absurd (List.all_eq_true.mp hkept _ h) (by decide)
    · simp at h
  rw [Build.outcome_loadDefinition hnamed ht hanswer, String.toList_ofList,
    Text.unixLines_of_notMem hreturn, readDefinition, hread]
  rfl

/-- A document with texts that look like other types, line breaks, escapes and a key on a line of
its own. -/
def motleyDocument : List (Value × Value) :=
  [(.str "swagger", .str "2.0"), (.str "on", .array [.bool true, .null, .int (-12), .array []]),
   (.str "a: b", .object [("", .str "two\nlines"), ("x", .array [.object [("y", .str "\t\x85 '")]])])]

theorem loadDefinition_dump_motley :
    ∃ text, dump (.map none motleyDocument) (Path.parse "x.yaml") = .ok text ∧
      ((Build.loadDefinition (Path.parse "x.yaml")).outcome (fun _ => .file (some text)) {}).1 =
        .ok (.map none motleyDocument) := by
  obtain ⟨text, hdump, hload⟩ := loadDefinition_dump motleyDocument (by decide +kernel)
    (by decide +kernel) (by decide +kernel) (Path.parse "x.yaml") (by decide +kernel)
    (by decide +kernel)
  exact ⟨text, hdump, hload _ {} rfl rfl⟩

def nextLineDocument : Value := .object [("a", .str "x\x85y")]

theorem nextLine_lost :
    ((dump nextLineDocument (Path.parse "x.yaml")).toOption.bind fun text =>
      (readDefinition (Path.parse "x.yaml") text).toOption) = some (.object [("a", .str "x y")]) := by
  decide +kernel

end AnnotatedApi
