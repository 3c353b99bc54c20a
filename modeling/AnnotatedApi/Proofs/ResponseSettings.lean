/-
  Settings blocks in the annotations of responses. An annotation is cut at its first dash, and the
  opening mark of a block has a dash of its own. So a block behind a dash is read as it should be
  (`Response.ofTag_dashed`): its items and its model name are in the schema, and nothing of it is
  in the status code. A block on the line behind the status code is cut in two
  (`Response.ofTag_onLine`): half of the mark is in the status code, the rest of the block is the
  description, and nothing of it is in the schema.

  `response_of_block` is the statement, for every status code without dashes and backticks and every
  complete block (`Settings.Complete`); `block_on_line` is a block that is cut in two.
-/
import AnnotatedApi.Proofs.Blanks
import AnnotatedApi.Proofs.Excision
import AnnotatedApi.Proofs.Responses

namespace AnnotatedApi

/-! ## Blocks as they are written -/

namespace Settings

/-- What the opening mark has behind its dash. -/
def openerTail : List Char := "swagger-settings".toList

/-- The text of a block that ends where it should, and that gives a mapping. -/
structure Complete (body : String) (es : List (Value × Value)) (keyed : Fields) : Prop where
  closes : Text.FirstAt closer body.toList [] (body.toList ++ closer)
  length : body.length ≠ 1
  loads : Loads body es keyed

variable {body : String} {es : List (Value × Value)} {keyed : Fields} {x : Extracted}

theorem opener_eq : opener = "```yaml".toList ++ '-' :: openerTail := by decide +kernel

/-- A complete block is read as its settings, and no text is left. -/
theorem Complete.extract (h : Complete body es keyed) :
    ∃ x, extract (block body) = .ok x ∧ Settles es keyed x ∧ x.description = "" := by
  obtain ⟨r, hr, hsettles⟩ := ofEntries_of_keyed h.loads.keys h.loads.type
  rw [extract_block h.closes h.length, load_eq_ok_iff.mpr h.loads.entries, ok_bind, hr]
  exact ⟨_, rfl, hsettles _, rfl⟩

/-- A declared type is all that is taken out of the mapping of a block. -/
theorem Settles.get?_eq (h : Settles es keyed x) {k : String} (hk : k ≠ "propertyType") :
    Assoc.get? k x.settings = Assoc.get? k (Assoc.ofEntries keyed) := by
  rw [h.settings]
  split
  · rw [Assoc.get?_erase, if_neg (Ne.symm hk)]
  · rfl

/-- Behind the dash of the opening mark there is no room for another one: the first closing mark is
the one at the end. -/
theorem Complete.not_opener_infix (h : Complete body es keyed) :
    ¬ opener <:+: openerTail ++ (body.toList ++ closer) := by
  rintro ⟨before, after, hs⟩
  have hopener : opener = closer ++ "yaml-swagger-settings".toList := by decide +kernel
  have hfirst : Text.FirstAt closer (openerTail ++ body.toList) []
      (openerTail ++ (body.toList ++ closer)) := h.closes.prepend (by decide +kernel)
  have hle := hfirst.first before ("yaml-swagger-settings".toList ++ after) (by
    rw [← hs, hopener]
    simp only [List.append_assoc])
  have hlen := congrArg List.length hs
  -- The opening mark is longer than what is behind its dash and a closing mark.
  have hmarks : openerTail.length = 16 ∧ opener.length = 24 ∧ closer.length = 3 := by
    decide +kernel
  simp only [List.length_append, hmarks] at hle hlen
  omega

end Settings

/-! ## Annotations with a block -/

namespace Response

variable {t : Tag} {code body : String} {es : List (Value × Value)} {keyed : Fields}

/-- The response annotation `t` with a block behind a dash. -/
def dashed (t : Tag) (code body : String) : Tag :=
  { t with description := code ++ " - " ++ Settings.block body }

/-- The response annotation `t` with a block on the line behind the status code. -/
def onLine (t : Tag) (code body : String) : Tag :=
  { t with description := code ++ "\n" ++ Settings.block body }

/-- The status code with the half of an opening mark behind it that has no dash. -/
def brokenCode (code : String) : String :=
  String.ofList (Text.trim (code.toList ++ "\n```yaml".toList))

/-- The visible text of a block without that half of its opening mark. -/
def brokenBlock (body : String) : String :=
  String.ofList (Settings.collapsed (Settings.openerTail ++ (body.toList ++ Settings.closer)))

/-- An annotation is cut at its first dash. -/
theorem split_of_dash {s : String} {before after : List Char} (h : '-' ∉ before)
    (hs : s.toList = before ++ '-' :: after) :
    split s = (String.ofList (Text.trim before), String.ofList (Text.trim after)) := by
  rw [split, hs, Text.cutAt_append h]
  rfl

theorem split_dashed (t : Tag) (hdash : '-' ∉ code.toList) (body : String) :
    split (dashed t code body).description =
      (String.ofList (Text.trim code.toList), Settings.block body) := by
  have hcut : (dashed t code body).description.toList =
      (code.toList ++ [' ']) ++ '-' :: ' ' :: (Settings.block body).toList := by
    simp [dashed]
  rw [split_of_dash (by simp [hdash]) hcut, Text.trim_concat_blank (by decide),
    Text.trim_cons_blank (by decide), Text.trim_eq_self (Settings.trimmed_block body),
    String.ofList_toList]

theorem split_onLine (t : Tag) (hdash : '-' ∉ code.toList) (body : String) :
    split (onLine t code body).description =
      (brokenCode code,
        String.ofList (Settings.openerTail ++ (body.toList ++ Settings.closer))) := by
  have hcut : (onLine t code body).description.toList =
      (code.toList ++ "\n```yaml".toList) ++
        '-' :: (Settings.openerTail ++ (body.toList ++ Settings.closer)) := by
    simp [onLine, Settings.toList_block, Settings.opener_eq]
  rw [split_of_dash (by simp [hdash]) hcut,
    Text.trim_eq_self (Text.trimmed_between (by decide +kernel) (by decide +kernel) body.toList)]
  rfl

/-- Behind a dash a block is read as it should be. -/
theorem ofTag_dashed (format : String → String) (headers : HeaderMap) (t : Tag)
    (hdash : '-' ∉ code.toList) (h : Settings.Complete body es keyed) :
    ofTag format headers (dashed t code body) =
      (AssemblyError.ofRef (Schema.ofTag t.type (Assoc.ofEntries keyed))).map fun s =>
        (String.ofList (Text.trim code.toList),
          ⟨format "", Assoc.get? (String.ofList (Text.trim code.toList)) headers, s⟩) := by
  obtain ⟨x, hx, hsettles, hdescription⟩ := h.extract
  have hschema : Schema.ofTag t.type x.settings = Schema.ofTag t.type (Assoc.ofEntries keyed) := by
    rw [Schema.ofTag, hsettles.get?_eq (by decide), hsettles.get?_eq (by decide), ← Schema.ofTag]
  unfold ofTag
  rw [split_dashed t hdash body]
  dsimp only
  rw [hx, AssemblyError.ofSettings, ok_bind, hdescription]
  show (AssemblyError.ofRef (Schema.ofTag t.type x.settings) >>= _) = _
  rw [hschema]
  cases AssemblyError.ofRef (Schema.ofTag t.type (Assoc.ofEntries keyed)) <;> rfl

/-- On the line behind the status code a block is cut in two, and no setting is read. -/
theorem ofTag_onLine (format : String → String) (headers : HeaderMap) (t : Tag)
    (hdash : '-' ∉ code.toList) (h : Settings.Complete body es keyed) :
    ∃ s, Schema.ofTag t.type [] = .ok s ∧
      ofTag format headers (onLine t code body) =
        .ok (brokenCode code,
          ⟨format (brokenBlock body), Assoc.get? (brokenCode code) headers, s⟩) := by
  have hnone : ¬ Settings.opener <:+:
      (String.ofList (Settings.openerTail ++ (body.toList ++ Settings.closer))).toList := by
    rw [String.toList_ofList]
    exact h.not_opener_infix
  unfold ofTag
  rw [split_onLine t hdash body]
  dsimp only
  rw [Settings.extract_of_no_block hnone, String.toList_ofList]
  exact ⟨_, rfl, rfl⟩

/-- Half of the opening mark is in the status code. -/
theorem brokenCode_ne (hmark : '`' ∉ code.toList) :
    brokenCode code ≠ String.ofList (Text.trim code.toList) := by
  intro heq
  have hlist := String.ofList_injective heq
  have hmem : '`' ∈ Text.trim (code.toList ++ "\n```yaml".toList) :=
    (Text.mem_trim_iff (by decide)).mpr (by simp)
  rw [hlist, Text.mem_trim_iff (by decide)] at hmem
  exact hmark hmem

/-- The responses of one annotation. -/
theorem result_ofTags_singleton (format : String → String) (policy : HeaderPolicy)
    (ht : isResponseTag t = true) :
    (ofTags format policy [t]).result = (ofTag format [] t).map fun r => [r] := by
  have hheaders : (HeaderMap.ofTags policy [t] : Report AssemblyError HeaderMap) = pure [] := by
    have hheader : Header.isHeaderTag t = false := by
      simp only [isResponseTag, Bool.or_eq_true, decide_eq_true_eq] at ht
      rcases ht with ht | ht <;> simp [Header.isHeaderTag, ht]
    rw [HeaderMap.ofTags, HeaderMap.collect, hheader]
    rfl
  rw [ofTags, hheaders, Report.result_bind, List.filter_cons_of_pos ht, List.filter_nil]
  show ((Report.ofExcept ([t].mapM (ofTag format []))) >>= _).result = _
  rw [Report.result_bind, Report.result_ofExcept, List.mapM_cons, List.mapM_nil]
  cases ofTag format [] t <;> rfl

end Response

/-- **A settings block counts behind a dash only.** For every status code without dashes and
backticks and every complete block, an annotation with the block behind a dash gives one response
under the trimmed status code, with the items and the model name of the block in its schema and
nothing of the block in its description; it fails if and only if the model name cannot be written.
With the block on the next line no setting is read: the response has the schema of the type alone,
the rest of the block is its description, and half of the opening mark is in its status code, which
is another one. -/
theorem response_of_block (format : String → String) (policy : HeaderPolicy) {t : Tag}
    (ht : Response.isResponseTag t = true) {code body : String} {es : List (Value × Value)}
    {keyed : Fields} (hdash : '-' ∉ code.toList) (hmark : '`' ∉ code.toList)
    (h : Settings.Complete body es keyed) :
    (Response.ofTags format policy [Response.dashed t code body]).result =
      (AssemblyError.ofRef (TypeExpr.modelRef t.type
        (Assoc.get? "modelName" (Assoc.ofEntries keyed)))).map (fun ref =>
          [(String.ofList (Text.trim code.toList),
            { description := format ""
              schema := Schema.withRef ref
                { type := Schema.typeName? t
                  items := Schema.items? t { settings := Assoc.ofEntries keyed } } })]) ∧
    (∃ s, Schema.ofTag t.type [] = .ok s ∧
      (Response.ofTags format policy [Response.onLine t code body]).result =
        .ok [(Response.brokenCode code,
          { description := format (Response.brokenBlock body), schema := s })]) ∧
    Response.brokenCode code ≠ String.ofList (Text.trim code.toList) := by
  refine ⟨?_, ?_, Response.brokenCode_ne hmark⟩
  · rw [Response.result_ofTags_singleton format policy (t := Response.dashed t code body) ht,
      Response.ofTag_dashed format [] t hdash h,
      Schema.ofTag_eq_map t { settings := Assoc.ofEntries keyed }]
    cases TypeExpr.modelRef t.type (Assoc.get? "modelName" (Assoc.ofEntries keyed)) with
    | ok ref => rfl
    | error e => cases e; rfl
  · obtain ⟨s, hs, hread⟩ := Response.ofTag_onLine format [] t hdash h
    rw [Response.result_ofTags_singleton format policy (t := Response.onLine t code body) ht, hread]
    exact ⟨s, hs, rfl⟩

/-- The body of a block that names a model and gives items. -/
def petBody : String := "\nmodelName: Pet\nitems: {type: string}\n"

theorem complete_petBody :
    Settings.Complete petBody
      [(.str "modelName", .str "Pet"), (.str "items", .map none [(.str "type", .str "string")])]
      [("modelName", .str "Pet"), ("items", .map none [(.str "type", .str "string")])] where
  closes := Text.cut?_eq_some_iff.mp (by decide +kernel)
  length := by decide
  loads := ⟨Or.inr ⟨none, by decide +kernel⟩, .cons ⟨rfl, rfl⟩ (.cons ⟨rfl, rfl⟩ .nil), nofun⟩

theorem response_of_petBlock :
    (Response.ofTags id .stop [Response.dashed { title := "returns" } " 200" petBody]).result =
      .ok [("200",
        { description := ""
          schema :=
            { items := some (.map none [(.str "type", .str "string")])
              ref := some (.str "#/definitions/Pet") } })] := by
  have hdash : '-' ∉ " 200".toList := by decide
  have hmark : '`' ∉ " 200".toList := by decide
  have h := (response_of_block id .stop (t := { title := "returns" }) rfl hdash hmark
    complete_petBody).1
  exact h.trans rfl

/-- With the block on the next line the response stands under another status code, without the model
and the items. -/
theorem block_on_line :
    (Response.ofTags id .stop
        [Response.dashed { title := "returns" } "200" petBody]).result.toOption.map
      (fun responses => responses.map fun r => (r.1, r.2.schema.ref)) =
        some [("200", some (.str "#/definitions/Pet"))] ∧
    (Response.ofTags id .stop
        [Response.onLine { title := "returns" } "200" petBody]).result.toOption.map
      (fun responses => responses.map fun r => (r.1, r.2.schema.ref)) =
        some [("200\n```yaml", none)] := by
  decide +kernel

end AnnotatedApi
