import FeatureAtlas.Export.Document
import FeatureAtlas.Export.Drawing
import FeatureAtlas.Export.Diagram

/-!
Export formats, and the text of a model in each.
-/

namespace FeatureAtlas

inductive ExportFormat where
  | json
  | tree
  | plantuml
deriving DecidableEq, Repr, Inhabited

namespace ExportFormat

def all : List ExportFormat := [json, tree, plantuml]

def name : ExportFormat → String
  | json => "json"
  | tree => "tree"
  | plantuml => "plantuml"

def named : List (String × ExportFormat) := all.map fun value => (value.name, value)

def decoder : Decoder ExportFormat := .variant named

end ExportFormat

namespace FeatureModel

def exportParts (model : FeatureModel) : ExportFormat → List String
  | .json => [model.document.write, "\n"]
  | .tree => [drawing model.nestedView]
  | .plantuml => [model.diagram]

def exportText (model : FeatureModel) (format : ExportFormat) : String :=
  String.join (model.exportParts format)

end FeatureModel

end FeatureAtlas
