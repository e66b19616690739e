import FeatureAtlas.Proofs.Json.Records
import FeatureAtlas.Proofs.Source.Preorder

/-!
Source documents as texts. A document is read back as it was written as long as its elements are not
nested too deeply, and is refused otherwise. Each level of elements costs two levels of brackets.
-/

namespace FeatureAtlas

open Decoder RecordFormat

/-! Outlines are made of texts, numbers, arrays and records. -/

theorem Location.plain_toJson (location : Location) : location.toJson.Plain := .record (by simp)

theorem Annotation.plain_toJson (declared : Annotation) : declared.toJson.Plain := by
  cases declared with
  | feature declaration => exact .record (by simp [FeatureDeclaration.members])
  | mapping declaration => exact .record (by simp [MappingDeclaration.members])
  | other => exact .record (by simp)

theorem plain_optionalMember {α : Type} {write : α → Json} (each : ∀ value, (write value).Plain)
    (name : String) (value : Option α) :
    ∀ member ∈ optionalMember name write value, member.2.Plain := by
  cases value <;> simp [optionalMember, each]

namespace Outline

theorem toJson_eq (outline : Outline) :
    outline.toJson = .record (("kind", .text outline.kind.name) :: ("name", .text outline.name) ::
      (optionalMember "qualified_name" Json.text outline.qualifiedName ++
        (optionalMember "location" Location.toJson outline.location ++
          [("metadata", .array (outline.annotations.map Annotation.toJson)),
            ("children", .array (allToJson outline.children))]))) := by
  cases outline
  rw [toJson]
  simp

mutual

theorem plain_toJson : (outline : Outline) → outline.toJson.Plain
  | { kind, name, qualifiedName, location, annotations, children } => by
      have qualified := plain_optionalMember Json.Plain.text "qualified_name" qualifiedName
      have located := plain_optionalMember Location.plain_toJson "location" location
      have annotated := Json.plain_map Annotation.plain_toJson annotations
      rw [toJson_eq]
      refine .record ?_
      simp only [List.forall_mem_cons, List.forall_mem_append]
      exact ⟨.text _, .text _, qualified, located, annotated, .array (plain_allToJson children),
        by simp⟩

theorem plain_allToJson : (outlines : List Outline) → ∀ item ∈ allToJson outlines, item.Plain
  | [] => by simp [allToJson]
  | outline :: rest => by
      rw [allToJson, List.forall_mem_cons]
      exact ⟨plain_toJson outline, plain_allToJson rest⟩

end

end Outline

/-! Decoding. -/

theorem Location.readsBack : Location.format.decoder.ReadsBack 1 Location.toJson := by
  intro source more location
  refine decoder_record (by decide) ?_
  exact .given (readsBack_text.required _ _ more _ _) <|
    .given (readsBack_narrow.required _ _ more _ _) <|
    .given (readsBack_narrow.required _ _ more _ _) <|
    .given (readsBack_narrow.optional _ _ more _ _) <|
    .given (readsBack_narrow.optional _ _ more _ _) .done

theorem Annotation.readsBack : Annotation.decoder.ReadsBack 1 Annotation.toJson := by
  intro source more declared
  cases declared with
  | feature declaration =>
      have read : FeatureDeclaration.format.ofMembers .held more
          (Json.named declaration.members) = .ok declaration := by
        refine ofMembers_stores (by decide) ?_
        exact .given (readsBack_text.optional _ _ more _ _) <|
          .given (readsBack_text.optional _ _ more _ _) <|
          .given (FeatureType.readsBack.optional _ _ more _ _) .done
      exact congrArg (Except.map Annotation.feature) read
  | mapping declaration =>
      have read : MappingDeclaration.format.ofMembers .held more
          (Json.named declaration.members) = .ok declaration := by
        refine ofMembers_stores (by decide) ?_
        exact .given (readsBack_text.optional _ _ more _ _) <|
          .given (Granularity.readsBack.optional _ _ more _ _) .done
      exact congrArg (Except.map Annotation.mapping) read
  | other => rfl

namespace Outline

theorem names_format (children : Decoder (List Outline)) :
    (format children).fields.map Field.name =
      ["kind", "name", "qualified_name", "location", "metadata", "children"] :=
  rfl

theorem mapM_toJson {decode : Json → Except DecodeError Outline} {bound : Nat}
    (each : ∀ outline : Outline, decode outline.toJson =
      if outline.levels ≤ bound then .ok outline else .error .malformed) (outlines : List Outline) :
    (allToJson outlines).mapM decode =
      if levelsAll outlines ≤ bound then .ok outlines else .error .malformed := by
  induction outlines with
  | nil =>
      rw [levelsAll, if_pos (Nat.zero_le _), allToJson]
      rfl
  | cons outline rest ih =>
      rw [allToJson, List.mapM_cons, each, levelsAll, ih]
      by_cases here : outline.levels ≤ bound
      · by_cases later : levelsAll rest ≤ bound
        · rw [if_pos here, if_pos later, if_pos (Nat.max_le.mpr ⟨here, later⟩)]
          rfl
        · rw [if_pos here, if_neg later, if_neg fun both => later (Nat.max_le.mp both).2]
          rfl
      · rw [if_neg here, if_neg fun both => here (Nat.max_le.mp both).1]
        rfl

theorem stores_names (source : ValueSource) (levels : Nat) (children : Decoder (List Outline))
    (outline : Outline) {members : List (String × Json)} {result : Except DecodeError Outline}
    (rest : Stores source levels ((format children).fields.drop 3) members
      { kind := outline.kind, name := outline.name, qualifiedName := outline.qualifiedName }
      result) :
    Stores source levels (format children).fields
      (("kind", .text outline.kind.name) :: ("name", .text outline.name) ::
        (optionalMember "qualified_name" Json.text outline.qualifiedName ++ members))
      (format children).blank result :=
  .given (ElementKind.readsBack.required _ _ levels _ _) <|
    .given (readsBack_text.required _ _ levels _ _) <|
    .optional readsBack_text nofun rfl rest

theorem decoder_toJson_shallow (source : ValueSource) (outline : Outline) :
    decoder source 1 outline.toJson = .error .malformed := by
  rw [toJson_eq, decoder]
  refine decoder_record (by rw [names_format]; decide) (stores_names source 0 _ outline ?_)
  cases outline.location with
  | none => exact .left rfl (.failed rfl)
  | some location => exact .failed rfl

/-- Outlines with so many levels are read back where twice as many levels of nesting are left and
one more, and deeper ones are not. -/
theorem decoder_toJson (source : ValueSource) (bound : Nat) (outline : Outline) :
    decoder source (2 * bound + 1) outline.toJson =
      if outline.levels ≤ bound then .ok outline else .error .malformed := by
  induction bound generalizing outline with
  | zero =>
      rw [levels_eq, if_neg (by omega)]
      exact decoder_toJson_shallow source outline
  | succ bound ih =>
      have inner := mapM_toJson ih outline.children
      -- One level for the record and one for the array of its children.
      change decoder source (2 * bound + 1 + 2) outline.toJson = _
      rw [toJson_eq, decoder]
      refine decoder_record (by rw [names_format]; decide)
        (stores_names source (2 * bound + 2) _ outline ?_)
      refine .optional Location.readsBack nofun rfl ?_
      have annotated := Annotation.readsBack.list
      refine .given (annotated.optional _ _ (2 * bound) _ _) ?_
      by_cases fits : outline.levels ≤ bound + 1
      · have below : levelsAll outline.children ≤ bound := by
          rw [levels_eq] at fits
          omega
        rw [if_pos below] at inner
        rw [if_pos fits]
        refine .given ?_ .done
        simp only [Field.optionalField, inner, Except.map]
        cases outline
        rfl
      · have above : ¬levelsAll outline.children ≤ bound := by
          rw [levels_eq] at fits
          omega
        rw [if_neg above] at inner
        rw [if_neg fits]
        refine .failed ?_
        simp only [Field.optionalField, inner, Except.map]

end Outline

namespace SourceDocument

theorem plain_toJson (document : SourceDocument) : document.toJson.Plain := by
  refine .record ?_
  simpa using Json.Plain.array (Outline.plain_allToJson document.roots)

theorem decoder_toJson (source : ValueSource) (document : SourceDocument) :
    format.decoder source nestingLimit document.toJson =
      if Outline.levelsAll document.roots ≤ 62 then .ok document else .error .malformed := by
  have roots : Decoder.list Outline.decoder source 126 (.array (Outline.allToJson document.roots)) =
      if Outline.levelsAll document.roots ≤ 62 then .ok document.roots else .error .malformed :=
    Outline.mapM_toJson (Outline.decoder_toJson source 62) document.roots
  refine decoder_record (by decide) ?_
  by_cases fits : Outline.levelsAll document.roots ≤ 62
  · rw [if_pos fits] at roots ⊢
    refine .given ?_ .done
    simp only [Field.requiredField, roots, Except.map]
  · rw [if_neg fits] at roots ⊢
    refine .failed ?_
    simp only [Field.requiredField, roots, Except.map]

theorem parse_write_eq (document : SourceDocument) :
    parse document.write =
      if Outline.levelsAll document.roots ≤ 62 then .ok document else .error .malformed := by
  have read := decodeText_of_reads document.plain_toJson.reads_compact Json.margin_nil
    format.decoder
  rw [List.append_nil] at read
  exact read.trans (decoder_toJson .text document)

/-- A document is read back as it was written if no route to one of its elements has more than so
many steps, and is refused as malformed if there is a longer one. -/
theorem parse_write_up_to_limit (document : SourceDocument) :
    ((∀ route outline, Outline.find? document.roots route = some outline → route.length ≤ 62) →
      parse document.write = .ok document) ∧
    ∀ route outline, Outline.find? document.roots route = some outline → 63 ≤ route.length →
      parse document.write = .error .malformed := by
  rw [parse_write_eq]
  refine ⟨?_, ?_⟩
  · exact fun shallow => if_pos ((Outline.levelsAll_le_iff document.roots 62).mpr shallow)
  · intro route outline reached deep
    apply if_neg
    intro fits
    have short := (Outline.levelsAll_le_iff document.roots 62).mp fits route outline reached
    omega

def shells : Nat → Outline
  | 0 => .new .type "Core"
  | depth + 1 => (Outline.new .type "Shell").nesting (shells depth)

def shellDocument (depth : Nat) : SourceDocument := { roots := [shells depth] }

theorem levels_shells (depth : Nat) : (shells depth).levels = depth + 1 := by
  induction depth with
  | zero => rfl
  | succ depth ih =>
      rw [Outline.levels_eq]
      change max (shells depth).levels 0 + 1 = _
      rw [ih, Nat.max_zero]

theorem levelsAll_shellDocument (depth : Nat) :
    Outline.levelsAll (shellDocument depth).roots = depth + 1 := by
  simp [shellDocument, Outline.levelsAll, levels_shells]

theorem find?_shellDocument (depth : Nat) :
    Outline.find? (shellDocument depth).roots (List.replicate (depth + 1) 0) =
      some (shells 0) := by
  induction depth with
  | zero => rfl
  | succ depth ih => exact ih

theorem shells_read_back :
    parse (shellDocument 61).write = .ok (shellDocument 61) ∧
      parse (shellDocument 62).write = .error .malformed := by
  have fits : Outline.levelsAll (shellDocument 61).roots ≤ 62 :=
    Nat.le_of_eq (levelsAll_shellDocument 61)
  have deep := find?_shellDocument 62
  have long : 63 ≤ (List.replicate (62 + 1) 0).length := Nat.le_of_eq List.length_replicate.symm
  exact ⟨(parse_write_up_to_limit (shellDocument 61)).1 ((Outline.levelsAll_le_iff _ _).mp fits),
    (parse_write_up_to_limit (shellDocument 62)).2 _ _ deep long⟩

end SourceDocument

end FeatureAtlas
