import FeatureAtlas.Export.Format
import FeatureAtlas.Proofs.Json.Records

/-!
Documents as texts. Whatever a document says, the text that is exported says it too: it is read back
as the document it was written from.
-/

namespace FeatureAtlas

open Decoder RecordFormat

/-! Documents are made of texts, arrays and records. -/

theorem NodeKey.plain_toJson (key : NodeKey) : key.toJson.Plain := .record (by simp)

theorem NodeRecord.plain_toJson (record : NodeRecord) : record.toJson.Plain :=
  .record (by simp [Json.plain_map, NodeKey.plain_toJson])

theorem FeatureRecord.plain_toJson (record : FeatureRecord) : record.toJson.Plain :=
  .record (by simp)

theorem DiagnosticRecord.plain_toJson (record : DiagnosticRecord) : record.toJson.Plain :=
  .record (by simp [Json.plain_map])

theorem ModelDocument.plain_toJson (document : ModelDocument) : document.toJson.Plain :=
  .record (by simp [Json.plain_map, NodeRecord.plain_toJson, FeatureRecord.plain_toJson,
    DiagnosticRecord.plain_toJson])

/-! Decoding. -/

theorem NodeKey.readsBack : NodeKey.format.decoder.ReadsBack 1 NodeKey.toJson := by
  intro source more key
  refine decoder_record (by decide) ?_
  exact .given (readsBack_text.required _ _ more _ _) <|
    .given (Granularity.readsBack.required _ _ more _ _) .done

theorem NodeRecord.readsBack : NodeRecord.format.decoder.ReadsBack 3 NodeRecord.toJson := by
  intro source more record
  refine decoder_record (by decide) ?_
  exact .given (readsBack_text.required _ _ (more + 2) _ _) <|
    .given (Granularity.readsBack.required _ _ (more + 2) _ _) <|
    .given (readsBack_text.list.required _ _ (more + 1) _ _) <|
    .given (NodeKey.readsBack.list.required _ _ more _ _) .done

theorem FeatureRecord.readsBack :
    FeatureRecord.format.decoder.ReadsBack 1 FeatureRecord.toJson := by
  intro source more record
  refine decoder_record (by decide) ?_
  exact .given (readsBack_text.required _ _ more _ _) <|
    .given (readsBack_text.required _ _ more _ _) <|
    .given (readsBack_text.required _ _ more _ _) <|
    .given (FeatureType.readsBack.required _ _ more _ _) .done

theorem DiagnosticRecord.readsBack :
    DiagnosticRecord.format.decoder.ReadsBack 2 DiagnosticRecord.toJson := by
  intro source more record
  refine decoder_record (by decide) ?_
  exact .given (DiagnosticKind.readsBack.required _ _ (more + 1) _ _) <|
    .given (Severity.readsBack.required _ _ (more + 1) _ _) <|
    .given (readsBack_text.required _ _ (more + 1) _ _) <|
    .given (readsBack_text.list.required _ _ more _ _) .done

namespace ModelDocument

theorem readsBack : ModelDocument.format.decoder.ReadsBack 5 ModelDocument.toJson := by
  intro source more document
  refine decoder_record (by decide) ?_
  exact .given (NodeRecord.readsBack.list.required _ _ more _ _) <|
    .given (FeatureRecord.readsBack.list.required _ _ (more + 2) _ _) <|
    .given (DiagnosticRecord.readsBack.list.required _ _ (more + 1) _ _) .done

theorem parse_write (document : ModelDocument) {blank : List Char} (margin : Json.Margin blank) :
    parse (String.ofList (document.toJson.prettyChars 0 ++ blank)) = .ok document := by
  rw [parse, decodeText_of_reads (document.plain_toJson.reads_pretty 0) margin]
  exact readsBack .text 122 document

end ModelDocument

theorem FeatureModel.exportText_json (model : FeatureModel) :
    model.exportText .json =
      String.ofList (model.document.toJson.prettyChars 0 ++ ['\n']) := by
  simp [exportText, exportParts, ModelDocument.write, Json.pretty, String.join]

/-- The text of a document, with or without the line feed behind it, is read as the document. So
the exported text of a model says all that its document says, and nothing else. -/
theorem exported_documents_read_back :
    (∀ document : ModelDocument, ModelDocument.parse document.write = .ok document ∧
      ModelDocument.parse (document.write ++ "\n") = .ok document) ∧
    (∀ model : FeatureModel,
      ModelDocument.parse (model.exportText .json) = .ok model.document) ∧
    ∀ model other : FeatureModel,
      model.exportText .json = other.exportText .json ↔ model.document = other.document := by
  have lineFeed : Json.Margin ['\n'] := Json.margin_newline 0
  have exported (model : FeatureModel) :
      ModelDocument.parse (model.exportText .json) = .ok model.document := by
    rw [model.exportText_json]
    exact model.document.parse_write lineFeed
  refine ⟨?_, exported, ?_⟩
  · intro document
    have bare := document.parse_write Json.margin_nil
    have ended := document.parse_write lineFeed
    rw [List.append_nil] at bare
    rw [String.ofList_append] at ended
    exact ⟨bare, ended⟩
  · intro model other
    constructor
    · intro same
      have read := exported model
      rw [same, exported other, Except.ok.injEq] at read
      exact read.symm
    · intro same
      rw [model.exportText_json, other.exportText_json, same]

end FeatureAtlas
