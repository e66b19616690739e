import Mathlib.Algebra.BigOperators.Group.List.Basic
import FeatureAtlas.Export.Diagram
import FeatureAtlas.Proofs.Model.Membership
import FeatureAtlas.Proofs.Text.Lines

/-!
The lines of a diagram. Their number follows from the model, except that every line feed in a text
that the diagram shows breaks the line it stands in; and the comments are the lines behind the first
one, as long as no text breaks them.
-/

namespace FeatureAtlas

namespace Diagram

/-! How many lines each part of a diagram comes to. -/

theorem lineFeeds_label (name : String) : lineFeeds (label name) = lineFeeds name := by
  have quote : lineFeeds "\"" = 0 := by decide
  have kept (characters : List Char) : (characters.map fun character =>
      if character = '"' then '\'' else character).count '\n' = characters.count '\n' := by
    induction characters with
    | nil => rfl
    | cons character rest ih =>
        rw [List.map_cons, List.count_cons, List.count_cons, ih]
        by_cases isQuote : character = '"'
        · simp [isQuote]
        · simp [isQuote]
  rw [label, unquoted, lineFeeds_append, lineFeeds_append, quote, lineFeeds,
    String.toList_ofList, kept, lineFeeds]
  omega

theorem lineFeeds_nodeName (index : NodeIndex) : lineFeeds (nodeName index) = 0 := by
  have number : lineFeeds (toString index) = 0 := by
    rw [lineFeeds, List.count_eq_zero, show toString index = index.repr from rfl,
      Nat.toList_repr]
    intro feed
    exact absurd (Nat.isDigit_of_mem_toDigits (by decide) (by decide) feed) (by decide)
  rw [nodeName, lineFeeds_append, number]
  decide

theorem length_declaration (index : NodeIndex) (key : NodeKey) :
    (declaration index key).length = 1 + if hasBody key.granularity then 1 else 0 := by
  rw [declaration, List.length_cons, Nat.add_comm]
  split <;> rfl

theorem innerFeeds_declaration (index : NodeIndex) (key : NodeKey) :
    innerFeeds (declaration index key) = lineFeeds key.name := by
  obtain ⟨name, level⟩ := key
  cases level <;>
    simp only [declaration, opening, hasBody, shape, Granularity.name, if_true, Bool.false_eq_true,
      if_false, innerFeeds_cons, lineFeeds_append, lineFeeds_label, lineFeeds_nodeName] <;>
    simp [lineFeeds, innerFeeds]

theorem length_arrows (index : NodeIndex) (node : FeatureNode) :
    (arrows index node).length = node.children.length :=
  List.length_map _

theorem innerFeeds_arrows (index : NodeIndex) (node : FeatureNode) :
    innerFeeds (arrows index node) = 0 := by
  rw [innerFeeds_eq_zero_iff]
  intro line member
  obtain ⟨child, _, rfl⟩ := List.mem_map.mp member
  rw [arrow, lineFeeds_append, lineFeeds_append, lineFeeds_nodeName, lineFeeds_nodeName]
  decide

theorem length_membersNote (index : NodeIndex) (node : FeatureNode) :
    (membersNote index node).length =
      if node.members.isEmpty then 0 else 2 + node.members.length := by
  rw [membersNote]
  split
  · rfl
  · simp [noteLines]
    omega

theorem innerFeeds_membersNote (index : NodeIndex) (node : FeatureNode) :
    innerFeeds (membersNote index node) =
      innerFeeds (node.members.map ElementRef.qualifiedName) := by
  have opening : lineFeeds (noteOpening index) = 0 := by
    rw [noteOpening, lineFeeds_append, lineFeeds_nodeName]
    decide
  have ending : innerFeeds ["end note"] = 0 := by decide
  have indented (name : String) : lineFeeds ("  " ++ name) = lineFeeds name := by
    rw [lineFeeds_append, show lineFeeds "  " = 0 by decide, Nat.zero_add]
  rw [membersNote]
  split
  · rename_i empty
    rw [List.isEmpty_iff.mp empty]
    rfl
  · rw [noteLines, innerFeeds_cons, opening, innerFeeds_append, ending, innerFeeds_map]
    simp [indented, innerFeeds]

theorem innerFeeds_comments (diagnostics : List Diagnostic) :
    innerFeeds (diagnostics.map comment) = innerFeeds (diagnostics.map Diagnostic.display) := by
  have plain (diagnostic : Diagnostic) :
      lineFeeds (comment diagnostic) = lineFeeds diagnostic.display := by
    rw [comment, lineFeeds_append, show lineFeeds "' " = 0 by decide, Nat.zero_add]
  rw [innerFeeds_map, innerFeeds_map]
  simp only [plain]

/-! Which lines are comments. -/

def isComment (line : String) : Bool := line.toList.head? == some '\''

theorem isComment_comment (diagnostic : Diagnostic) : isComment (comment diagnostic) = true := by
  simp [isComment, comment]

theorem isComment_nodeName (index : NodeIndex) (text : String) :
    isComment (nodeName index ++ text) = false := by
  simp [isComment, nodeName]

theorem isComment_declaration {index : NodeIndex} {key : NodeKey} {line : String}
    (member : line ∈ declaration index key) : isComment line = false := by
  obtain ⟨name, level⟩ := key
  cases level <;> simp only [declaration, opening, hasBody, shape] at member <;> simp at member
  · rcases member with rfl | rfl <;> simp [isComment]
  · rcases member with rfl | rfl <;> simp [isComment]
  · rw [member]
    simp [isComment]
  · rw [member]
    simp [isComment]

theorem isComment_arrows {index : NodeIndex} {node : FeatureNode} {line : String}
    (member : line ∈ arrows index node) : isComment line = false := by
  obtain ⟨child, _, rfl⟩ := List.mem_map.mp member
  rw [arrow, String.append_assoc]
  exact isComment_nodeName index _

theorem isComment_membersNote {index : NodeIndex} {node : FeatureNode} {line : String}
    (member : line ∈ membersNote index node) : isComment line = false := by
  rw [membersNote] at member
  split at member
  · cases member
  · rcases List.mem_cons.mp member with rfl | behind
    · simp [isComment, noteOpening]
    · rcases List.mem_append.mp behind with inside | ending
      · obtain ⟨name, _, rfl⟩ := List.mem_map.mp inside
        simp [isComment]
      · rw [List.mem_singleton.mp ending]
        decide

end Diagram

namespace FeatureModel

theorem sum_numberedNodes (model : FeatureModel) {value : NodeIndex → FeatureNode → Nat}
    {count : FeatureNode → Nat} (each : ∀ index node, value index node = count node) :
    (model.numberedNodes.map fun numbered => value numbered.1 numbered.2).sum =
      (model.nodes.map count).sum := by
  have nodes : model.numberedNodes.map Prod.snd = model.nodes := List.map_snd_zip (by simp)
  rw [← nodes, List.map_map]
  congr 1
  exact List.map_congr_left fun numbered _ => each numbered.1 numbered.2

def diagramSize (model : FeatureModel) : Nat :=
  2 + model.diagnostics.length + model.nodes.length +
    model.nodes.countP (fun node =>
      node.key.granularity == .concept || node.key.granularity == .module) +
    model.edgeCount +
    ((model.nodes.filter fun node => !node.members.isEmpty).map fun node =>
      2 + node.members.length).sum

/-- The texts of others that a diagram shows. -/
def shownTexts (model : FeatureModel) : List String :=
  model.diagnostics.map Diagnostic.display ++ model.nodes.map (fun node => node.key.name) ++
    model.nodes.flatMap fun node => node.members.map ElementRef.qualifiedName

theorem length_diagramLines (model : FeatureModel) :
    model.diagramLines.length = model.diagramSize := by
  have declarations : (model.nodes.map fun node =>
      1 + if Diagram.hasBody node.key.granularity then 1 else 0).sum =
        model.nodes.length + model.nodes.countP (fun node =>
          node.key.granularity == .concept || node.key.granularity == .module) := by
    induction model.nodes with
    | nil => rfl
    | cons node rest ih =>
        have body : Diagram.hasBody node.key.granularity =
            (node.key.granularity == .concept || node.key.granularity == .module) := by
          cases node.key.granularity <;> rfl
        rw [List.map_cons, List.sum_cons, ih, List.length_cons, List.countP_cons, body]
        omega
  have notes : (model.nodes.map fun node =>
      if node.members.isEmpty then 0 else 2 + node.members.length).sum =
        ((model.nodes.filter fun node => !node.members.isEmpty).map fun node =>
          2 + node.members.length).sum := by
    induction model.nodes with
    | nil => rfl
    | cons node rest ih =>
        rw [List.map_cons, List.sum_cons, ih, List.filter_cons]
        cases node.members.isEmpty with
        | true => simp
        | false => simp
  simp only [diagramLines, List.length_append, List.length_flatMap, List.length_map,
    List.length_singleton]
  rw [model.sum_numberedNodes fun index node => Diagram.length_declaration index node.key,
    model.sum_numberedNodes Diagram.length_arrows,
    model.sum_numberedNodes Diagram.length_membersNote, declarations, notes, diagramSize,
    edgeCount_eq, childTotal]
  omega

theorem innerFeeds_diagramLines (model : FeatureModel) :
    innerFeeds model.diagramLines = innerFeeds model.shownTexts := by
  have start : innerFeeds ["@startuml"] = 0 := by decide
  have stop : innerFeeds ["@enduml"] = 0 := by decide
  simp only [diagramLines, shownTexts, innerFeeds_append, innerFeeds_flatMap, start, stop,
    Diagram.innerFeeds_comments]
  rw [model.sum_numberedNodes fun index node => Diagram.innerFeeds_declaration index node.key,
    model.sum_numberedNodes Diagram.innerFeeds_arrows,
    model.sum_numberedNodes Diagram.innerFeeds_membersNote, innerFeeds_map model.nodes]
  simp

def diagramBody (model : FeatureModel) : List String :=
  model.numberedNodes.flatMap (fun (index, node) => Diagram.declaration index node.key) ++
    model.numberedNodes.flatMap (fun (index, node) => Diagram.arrows index node) ++
    model.numberedNodes.flatMap (fun (index, node) => Diagram.membersNote index node) ++
    ["@enduml"]

theorem diagramLines_eq (model : FeatureModel) :
    model.diagramLines =
      "@startuml" :: (model.diagnostics.map Diagram.comment ++ model.diagramBody) := by
  simp [diagramLines, diagramBody]

theorem isComment_diagramBody {model : FeatureModel} {line : String}
    (member : line ∈ model.diagramBody) : Diagram.isComment line = false := by
  simp only [diagramBody, List.mem_append, List.mem_flatMap] at member
  rcases member with ((declared | linked) | noted) | ending
  · obtain ⟨_, _, inside⟩ := declared
    exact Diagram.isComment_declaration inside
  · obtain ⟨_, _, inside⟩ := linked
    exact Diagram.isComment_arrows inside
  · obtain ⟨_, _, inside⟩ := noted
    exact Diagram.isComment_membersNote inside
  · rw [List.mem_singleton.mp ending]
    decide

theorem length_textLines_diagram (model : FeatureModel) :
    (textLines model.diagram).length = model.diagramSize + innerFeeds model.shownTexts := by
  rw [diagram, length_textLines_joinLines, length_diagramLines, innerFeeds_diagramLines]

/-- A diagram has the lines of its design, each broken at the line feeds of the texts in it. Where
these have none, the comments on the diagnostics come right after the first line, and there is no
other comment. -/
theorem diagram_broken_at_line_feeds (model : FeatureModel) :
    (textLines model.diagram).length = model.diagramSize + innerFeeds model.shownTexts ∧
      textLines model.diagram = model.diagramLines.flatMap pieces ∧
      (innerFeeds model.shownTexts = 0 → textLines model.diagram =
        "@startuml" :: (model.diagnostics.map Diagram.comment ++ model.diagramBody)) ∧
      (∀ line ∈ model.diagnostics.map Diagram.comment, Diagram.isComment line = true) ∧
      ∀ line ∈ "@startuml" :: model.diagramBody, Diagram.isComment line = false := by
  refine ⟨model.length_textLines_diagram, textLines_joinLines _, ?_, ?_, ?_⟩
  · intro plain
    rw [← diagramLines_eq]
    exact textLines_of_plain (model.innerFeeds_diagramLines.trans plain)
  · intro line member
    obtain ⟨diagnostic, _, rfl⟩ := List.mem_map.mp member
    exact Diagram.isComment_comment diagnostic
  · intro line member
    rcases List.mem_cons.mp member with rfl | inside
    · decide
    · exact isComment_diagramBody inside

def quotedTill : FeatureModel where
  nodes := [{
    key := { name := "Till \"A\"", granularity := .module }
    members := [{ qualifiedName := "' Till" }]
    children := []
    parents := [] }]
  index := { entries := [({ name := "Till \"A\"", granularity := .module }, 0)] }
  diagnostics := [.emptyMappingName { qualifiedName := "Till" }]

theorem quotedTill_lines :
    innerFeeds quotedTill.shownTexts = 0 ∧
      textLines quotedTill.diagram =
        ["@startuml",
          "' ERROR [EMPTY_NAME] Till maps to a concept with an empty name; no node created",
          "package \"Till 'A'\" as N0 <<MODULE>> \x7b", "\x7d",
          "note bottom of N0", "  ' Till", "end note", "@enduml"] := by
  have plain : innerFeeds quotedTill.shownTexts = 0 := by decide
  obtain ⟨_, _, whole, _⟩ := diagram_broken_at_line_feeds quotedTill
  refine ⟨plain, ?_⟩
  rw [whole plain]
  decide

end FeatureModel

namespace Scan

def brokenTill : SourceTree :=
  .ofOutlines [{
    name := "Till\nDesk"
    annotations := [.mapping {}, .mapping { targetConcept := "Sales" }] }]

def brokenTillScan : Scan :=
  { tree := brokenTill, visited := [0], pairs := brokenTill.elements.flatMap Element.pairs }

/-- The comment on the mapping without a name goes on in a line that is no comment. -/
theorem brokenTill_comment_broken :
    brokenTill.scanRoots brokenTill.roots = .ok brokenTillScan ∧
      (textLines brokenTillScan.build.diagram).length ≠ brokenTillScan.build.diagramSize ∧
      "Desk maps to a concept with an empty name; no node created" ∈
        textLines brokenTillScan.build.diagram := by
  have accepted : brokenTill.scanRoots brokenTill.roots = .ok brokenTillScan :=
    SourceTree.scanRoots_of_runWithin brokenTillScan 4 rfl
  have scanned : brokenTill.elements.getD 0 default ∈
      brokenTill.elementsOf brokenTillScan.visited :=
    List.mem_filterMap.mpr ⟨0, by decide, rfl⟩
  have once := count_emptyMappingName accepted scanned
  have reported : .emptyMappingName (brokenTill.elements.getD 0 default).toRef ∈
      brokenTillScan.build.diagnostics := by
    rw [← List.one_le_count_iff, once]
    decide
  refine ⟨accepted, ?_, ?_⟩
  · rw [FeatureModel.length_textLines_diagram]
    intro same
    have plain : innerFeeds brokenTillScan.build.shownTexts = 0 := by omega
    have shown := List.mem_append_left (brokenTillScan.build.nodes.flatMap fun node =>
      node.members.map ElementRef.qualifiedName) (List.mem_append_left
        (brokenTillScan.build.nodes.map fun node => node.key.name)
        (List.mem_map_of_mem (f := Diagnostic.display) reported))
    exact absurd (innerFeeds_eq_zero_iff.mp plain _ shown) (by decide)
  · rw [FeatureModel.diagram, textLines_joinLines, FeatureModel.diagramLines_eq]
    refine List.mem_flatMap.mpr ⟨_, List.mem_cons_of_mem _ (List.mem_append_left _
      (List.mem_map_of_mem (f := Diagram.comment) reported)), ?_⟩
    decide

end Scan

end FeatureAtlas
