import FeatureAtlas.Export.Format
import FeatureAtlas.Proofs.Model.Renumbering

/-!
The numbers of elements do not show in what is exported of a model.
-/

namespace FeatureAtlas

namespace FeatureModel

theorem expand_congr {model other : FeatureModel} (leaves : other.leafAt = model.leafAt)
    (children : other.childIndices = model.childIndices) (levels : Nat) :
    other.expand levels = model.expand levels := by
  induction levels with
  | zero =>
      funext path expanded index
      rw [expand, expand, leaves]
  | succ levels ih =>
      funext path expanded index
      rw [expand, expand, leaves, children, ih]

variable {model echo : FeatureModel} {number : ElementId → ElementId}

namespace Echoes

theorem leafAt {quiet : Bool} (echoes : model.Echoes number quiet echo) :
    echo.leafAt = model.leafAt := by
  funext index cycle repeated
  rw [FeatureModel.leafAt, FeatureModel.leafAt, echoes.keyAt, echoes.nodes, List.getElem?_map,
    Option.map_map]
  congr 3
  funext node
  simp [FeatureNode.renumber]

theorem isNested {quiet : Bool} (echoes : model.Echoes number quiet echo) :
    echo.isNested = model.isNested := by
  funext index
  rw [FeatureModel.isNested, FeatureModel.isNested, echoes.nodes, List.getElem?_map,
    Option.map_map]
  rfl

theorem nestedView {quiet : Bool} (echoes : model.Echoes number quiet echo) :
    echo.nestedView = model.nestedView := by
  have expandTop : echo.expandTop = model.expandTop := by
    funext skip view index
    rw [FeatureModel.expandTop, FeatureModel.expandTop, echoes.length,
      expand_congr echoes.leafAt (childIndices_congr echoes.children)]
  rw [FeatureModel.nestedView, FeatureModel.nestedView, echoes.length, echoes.isNested, expandTop]

theorem numberedNodes {quiet : Bool} (echoes : model.Echoes number quiet echo) :
    echo.numberedNodes = model.numberedNodes.map (Prod.map id (FeatureNode.renumber number)) := by
  rw [FeatureModel.numberedNodes, FeatureModel.numberedNodes, echoes.length, echoes.nodes,
    List.zip_map_right]

theorem loudDiagnostics (echoes : model.Echoes number false echo) :
    echo.diagnostics = model.diagnostics.map (Diagnostic.renumber number) := by
  rw [echoes.diagnostics, List.filter_eq_self.mpr]
  exact fun _ _ => rfl

theorem names_renumber (elements : List ElementRef) :
    ElementRef.names (elements.map (ElementRef.renumber number)) = ElementRef.names elements := by
  rw [ElementRef.names, List.map_map]
  rfl

theorem document (echoes : model.Echoes number false echo) : echo.document = model.document := by
  rw [FeatureModel.document, FeatureModel.document, echoes.nodes, echoes.features,
    echoes.loudDiagnostics, List.map_map, List.map_map, List.map_map]
  congr 1
  · apply List.map_congr_left
    intro node _
    rw [Function.comp_apply, nodeRecord, nodeRecord, echoes.keyAt, FeatureNode.renumber,
      names_renumber]
  · apply List.map_congr_left
    intro diagnostic _
    rw [Function.comp_apply, Diagnostic.renumber, names_renumber]

theorem diagram (echoes : model.Echoes number false echo) : echo.diagram = model.diagram := by
  have comments : echo.diagnostics.map Diagram.comment =
      model.diagnostics.map Diagram.comment := by
    rw [echoes.loudDiagnostics, List.map_map]
    rfl
  have notes (index : NodeIndex) (node : FeatureNode) :
      Diagram.membersNote index (node.renumber number) = Diagram.membersNote index node := by
    simp [Diagram.membersNote, FeatureNode.renumber, ElementRef.renumber, Function.comp_def]
  rw [FeatureModel.diagram, FeatureModel.diagram, diagramLines, diagramLines, comments,
    echoes.numberedNodes, List.flatMap_map, List.flatMap_map, List.flatMap_map]
  simp only [Prod.map, notes]
  rfl

theorem exportText (echoes : model.Echoes number false echo) (format : ExportFormat) :
    echo.exportText format = model.exportText format := by
  cases format with
  | json => rw [FeatureModel.exportText, FeatureModel.exportText, exportParts, exportParts,
      echoes.document]
  | tree => rw [FeatureModel.exportText, FeatureModel.exportText, exportParts, exportParts,
      echoes.nestedView]
  | plantuml => rw [FeatureModel.exportText, FeatureModel.exportText, exportParts, exportParts,
      echoes.diagram]

end Echoes

end FeatureModel

end FeatureAtlas
