import FeatureAtlas.Model.Diagnostic

/-!
The feature model: nodes with containment edges between them, the features declared on elements and
the diagnostics of building it all.
-/

namespace FeatureAtlas

structure DeclaredFeature where
  element : ElementRef
  declaration : FeatureDeclaration
deriving DecidableEq, Repr, Inhabited

/-- Nodes in the order of their creation, and beside them an index, which keeps the position of each
under its key. -/
structure FeatureModel where
  nodes : List FeatureNode := []
  index : Dictionary NodeKey NodeIndex := {}
  features : List DeclaredFeature := []
  diagnostics : List Diagnostic := []
deriving DecidableEq, Repr, Inhabited

namespace FeatureModel

def indexOf? (model : FeatureModel) (key : NodeKey) : Option NodeIndex := model.index.get? key

def node? (model : FeatureModel) (key : NodeKey) : Option FeatureNode :=
  (model.indexOf? key).bind fun index => model.nodes[index]?

def nodesAt (model : FeatureModel) (indices : List NodeIndex) : List FeatureNode :=
  indices.filterMap fun index => model.nodes[index]?

def childrenOf (model : FeatureModel) (key : NodeKey) : List FeatureNode :=
  ((model.node? key).map fun node => model.nodesAt node.children).getD []

def parentsOf (model : FeatureModel) (key : NodeKey) : List FeatureNode :=
  ((model.node? key).map fun node => model.nodesAt node.parents).getD []

def childIndices (model : FeatureModel) (index : NodeIndex) : List NodeIndex :=
  (model.nodes[index]?.map FeatureNode.children).getD []

def keyAt (model : FeatureModel) (index : NodeIndex) : NodeKey :=
  (model.nodes[index]?.map FeatureNode.key).getD default

def roots (model : FeatureModel) : List FeatureNode :=
  model.nodes.filter fun node => node.parents.isEmpty

def edgeCount (model : FeatureModel) : Nat :=
  (model.nodes.map fun node => node.children.length).foldl (· + ·) 0

def featureFor? (model : FeatureModel) (element : ElementId) : Option DeclaredFeature :=
  model.features.find? fun feature => feature.element.id == element

def maxSeverity? (model : FeatureModel) : Option Severity :=
  (model.diagnostics.map Diagnostic.severity).foldl
    (fun worst severity => some ((worst.map severity.worse).getD severity)) none

def hasErrors (model : FeatureModel) : Bool := model.maxSeverity? == some .error

def isEmpty (model : FeatureModel) : Bool := model.nodes.isEmpty

def addNode (model : FeatureModel) (key : NodeKey) : FeatureModel :=
  { model with
    nodes := model.nodes ++ [FeatureNode.new key]
    index := model.index.put key model.nodes.length }

def addMember (model : FeatureModel) (index : NodeIndex) (element : ElementRef) : FeatureModel :=
  { model with nodes := model.nodes.modify index fun node =>
      { node with members := addElement node.members element } }

def hasEdge (model : FeatureModel) (parent child : NodeIndex) : Bool :=
  (model.childIndices parent).contains child

def addEdge (model : FeatureModel) (parent child : NodeIndex) : FeatureModel :=
  { model with nodes :=
      (model.nodes.modify parent fun node =>
        { node with children := node.children ++ [child] }).modify child fun node =>
          { node with parents := node.parents ++ [parent] } }

def addFeature (model : FeatureModel) (feature : DeclaredFeature) : FeatureModel :=
  { model with features := model.features ++ [feature] }

def addDiagnostic (model : FeatureModel) (diagnostic : Diagnostic) : FeatureModel :=
  { model with diagnostics := model.diagnostics ++ [diagnostic] }

end FeatureModel

end FeatureAtlas
