import FeatureAtlas.Model.Graph

/-!
The PlantUML component diagram of a model, as a list of lines. A node is called `N` and its
position, and diagnostics come first as comments.
-/

namespace FeatureAtlas

namespace Diagram

def shape : Granularity → String
  | .concept => "rectangle"
  | .module => "package"
  | .component => "component"
  | .data => "entity"

/-- Rectangles and packages need a body to be drawn as containers. -/
def hasBody : Granularity → Bool
  | .concept | .module => true
  | .component | .data => false

/-- A label cannot hold a double quote, which gives way to an apostrophe. -/
def unquoted (name : String) : String :=
  String.ofList (name.toList.map fun character => if character = '"' then '\'' else character)

def label (name : String) : String := "\"" ++ unquoted name ++ "\""

def nodeName (index : NodeIndex) : String := "N" ++ toString index

def comment (diagnostic : Diagnostic) : String := "' " ++ diagnostic.display

def opening (index : NodeIndex) (key : NodeKey) : String :=
  shape key.granularity ++ " " ++ label key.name ++ " as " ++ nodeName index ++ " <<" ++
    key.granularity.name ++ ">>" ++ if hasBody key.granularity then " \x7b" else ""

def declaration (index : NodeIndex) (key : NodeKey) : List String :=
  opening index key :: if hasBody key.granularity then ["\x7d"] else []

def arrow (parent child : NodeIndex) : String := nodeName parent ++ " *-- " ++ nodeName child

def arrows (index : NodeIndex) (node : FeatureNode) : List String :=
  node.children.map (arrow index)

def noteOpening (index : NodeIndex) : String := "note bottom of " ++ nodeName index

def noteLines (note : NodeIndex × List String) : List String :=
  noteOpening note.1 :: (note.2.map (fun name => "  " ++ name) ++ ["end note"])

def membersNote (index : NodeIndex) (node : FeatureNode) : List String :=
  if node.members.isEmpty then []
  else noteLines (index, node.members.map ElementRef.qualifiedName)

end Diagram

def FeatureModel.numberedNodes (model : FeatureModel) : List (NodeIndex × FeatureNode) :=
  (List.range model.nodes.length).zip model.nodes

def FeatureModel.diagramLines (model : FeatureModel) : List String :=
  ["@startuml"] ++ model.diagnostics.map Diagram.comment ++
    model.numberedNodes.flatMap (fun (index, node) => Diagram.declaration index node.key) ++
    model.numberedNodes.flatMap (fun (index, node) => Diagram.arrows index node) ++
    model.numberedNodes.flatMap (fun (index, node) => Diagram.membersNote index node) ++
    ["@enduml"]

def FeatureModel.diagram (model : FeatureModel) : String := joinLines model.diagramLines

end FeatureAtlas
