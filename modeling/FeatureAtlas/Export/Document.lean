import FeatureAtlas.Json.Printer
import FeatureAtlas.Model.Graph

/-!
Model documents: the form of a model that is exported and stored. Elements appear by their
qualified names and children by their keys.
-/

namespace FeatureAtlas

structure NodeRecord where
  name : String := ""
  granularity : Granularity := .concept
  memberElements : List String := []
  children : List NodeKey := []
deriving DecidableEq, Repr, Inhabited

def NodeRecord.key (record : NodeRecord) : NodeKey :=
  { name := record.name, granularity := record.granularity }

structure FeatureRecord where
  element : String := ""
  name : String := ""
  description : String := ""
  featureType : FeatureType := .functional
deriving DecidableEq, Repr, Inhabited

structure DiagnosticRecord where
  kind : DiagnosticKind := .duplicateFeature
  severity : Severity := .warning
  message : String := ""
  elements : List String := []
deriving DecidableEq, Repr, Inhabited

structure ModelDocument where
  nodes : List NodeRecord := []
  features : List FeatureRecord := []
  diagnostics : List DiagnosticRecord := []
deriving DecidableEq, Repr, Inhabited

def ModelDocument.node? (document : ModelDocument) (key : NodeKey) : Option NodeRecord :=
  document.nodes.find? fun record => record.key == key

def ElementRef.names (elements : List ElementRef) : List String :=
  elements.map ElementRef.qualifiedName

namespace FeatureModel

def nodeRecord (model : FeatureModel) (node : FeatureNode) : NodeRecord :=
  { name := node.key.name, granularity := node.key.granularity
    memberElements := ElementRef.names node.members
    children := node.children.map model.keyAt }

def document (model : FeatureModel) : ModelDocument where
  nodes := model.nodes.map model.nodeRecord
  features := model.features.map fun feature =>
    { element := feature.element.qualifiedName, name := feature.declaration.name
      description := feature.declaration.description
      featureType := feature.declaration.featureType }
  diagnostics := model.diagnostics.map fun diagnostic =>
    { kind := diagnostic.kind, severity := diagnostic.severity, message := diagnostic.message
      elements := ElementRef.names diagnostic.elements }

end FeatureModel

/-! The written form. -/

def NodeRecord.toJson (record : NodeRecord) : Json :=
  .record [("name", .text record.name), ("granularity", .text record.granularity.name),
    ("memberElements", .array (record.memberElements.map Json.text)),
    ("children", .array (record.children.map NodeKey.toJson))]

def NodeRecord.format : RecordFormat NodeRecord where
  blank := {}
  fields := [
    .requiredField "name" Decoder.text fun name record => { record with name },
    .requiredField "granularity" Granularity.decoder
      fun granularity record => { record with granularity },
    .requiredField "memberElements" (Decoder.list Decoder.text)
      fun memberElements record => { record with memberElements },
    .requiredField "children" (Decoder.list NodeKey.format.decoder)
      fun children record => { record with children }]

def FeatureRecord.toJson (record : FeatureRecord) : Json :=
  .record [("element", .text record.element), ("name", .text record.name),
    ("description", .text record.description), ("type", .text record.featureType.name)]

def FeatureRecord.format : RecordFormat FeatureRecord where
  blank := {}
  fields := [
    .requiredField "element" Decoder.text fun element record => { record with element },
    .requiredField "name" Decoder.text fun name record => { record with name },
    .requiredField "description" Decoder.text
      fun description record => { record with description },
    .requiredField "type" FeatureType.decoder
      fun featureType record => { record with featureType }]

def DiagnosticRecord.toJson (record : DiagnosticRecord) : Json :=
  .record [("kind", .text record.kind.name), ("severity", .text record.severity.name),
    ("message", .text record.message), ("elements", .array (record.elements.map Json.text))]

def DiagnosticRecord.format : RecordFormat DiagnosticRecord where
  blank := {}
  fields := [
    .requiredField "kind" DiagnosticKind.decoder fun kind record => { record with kind },
    .requiredField "severity" Severity.decoder fun severity record => { record with severity },
    .requiredField "message" Decoder.text fun message record => { record with message },
    .requiredField "elements" (Decoder.list Decoder.text)
      fun elements record => { record with elements }]

namespace ModelDocument

def toJson (document : ModelDocument) : Json :=
  .record [("nodes", .array (document.nodes.map NodeRecord.toJson)),
    ("features", .array (document.features.map FeatureRecord.toJson)),
    ("diagnostics", .array (document.diagnostics.map DiagnosticRecord.toJson))]

def format : RecordFormat ModelDocument where
  blank := {}
  fields := [
    .requiredField "nodes" (Decoder.list NodeRecord.format.decoder)
      fun nodes record => { record with nodes },
    .requiredField "features" (Decoder.list FeatureRecord.format.decoder)
      fun features record => { record with features },
    .requiredField "diagnostics" (Decoder.list DiagnosticRecord.format.decoder)
      fun diagnostics record => { record with diagnostics }]

def write (document : ModelDocument) : String := document.toJson.pretty

def parse (text : String) : Except DecodeError ModelDocument := decodeText format.decoder text

end ModelDocument

end FeatureAtlas
