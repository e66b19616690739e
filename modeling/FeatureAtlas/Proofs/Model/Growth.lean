import Mathlib.Data.List.Infix
import FeatureAtlas.Proofs.Model.RootOrder
import FeatureAtlas.Proofs.Source.Layout

/-!
Source that goes on. What is appended to the outlines adds to the model and moves nothing in it:
nodes, features and diagnostics keep their places, and every list of a node goes on where it ended.
-/

namespace FeatureAtlas

/-- The same node, perhaps with more members. The edges at it compare as told. -/
structure FeatureNode.Grows (edges : List NodeIndex → List NodeIndex → Prop)
    (node grown : FeatureNode) : Prop where
  key : grown.key = node.key
  members : node.members <+: grown.members
  children : edges node.children grown.children
  parents : edges node.parents grown.parents

/-- Every node stands where it stood, perhaps grown, and further nodes and features come last. -/
structure FeatureModel.Grows (edges : List NodeIndex → List NodeIndex → Prop)
    (model grown : FeatureModel) : Prop where
  nodes : ∀ (index : NodeIndex) (node : FeatureNode), model.nodes[index]? = some node →
    ∃ other, grown.nodes[index]? = some other ∧ node.Grows edges other
  features : model.features <+: grown.features

section

variable {edges : List NodeIndex → List NodeIndex → Prop}

theorem FeatureNode.Grows.widen {node grown : FeatureNode} (grows : node.Grows Eq grown) :
    node.Grows (· <+: ·) grown :=
  ⟨grows.key, grows.members, grows.children ▸ List.prefix_rfl, grows.parents ▸ List.prefix_rfl⟩

theorem FeatureModel.Grows.widen {model grown : FeatureModel} (grows : model.Grows Eq grown) :
    model.Grows (· <+: ·) grown := by
  refine ⟨?_, grows.features⟩
  intro index node found
  obtain ⟨other, otherFound, same⟩ := grows.nodes index node found
  exact ⟨other, otherFound, same.widen⟩

namespace FeatureModel

variable {model grown : FeatureModel}

theorem Grows.keyAt (grows : model.Grows edges grown) {index : NodeIndex}
    (bound : index < model.nodes.length) : grown.keyAt index = model.keyAt index := by
  have found := List.getElem?_eq_getElem bound
  obtain ⟨other, otherFound, same⟩ := grows.nodes index _ found
  rw [FeatureModel.keyAt, FeatureModel.keyAt, found, otherFound, Option.map_some, Option.map_some,
    same.key]

theorem Grows.childIndices (grows : model.Grows Eq grown) {index : NodeIndex}
    (bound : index < model.nodes.length) : grown.childIndices index = model.childIndices index := by
  have found := List.getElem?_eq_getElem bound
  obtain ⟨other, otherFound, same⟩ := grows.nodes index _ found
  rw [childIndices_eq found, childIndices_eq otherFound, same.children]

theorem Grows.keys (grows : model.Grows edges grown) : model.keys <+: grown.keys := by
  rw [List.prefix_iff_getElem?]
  intro index bound
  rw [FeatureModel.keys, List.length_map] at bound
  obtain ⟨other, otherFound, same⟩ := grows.nodes index _ (List.getElem?_eq_getElem bound)
  simp [FeatureModel.keys, otherFound, same.key]

theorem Grows.edge (grows : model.Grows (· <+: ·) grown) {parent child : NodeIndex}
    (edge : model.Edge parent child) : grown.Edge parent child := by
  obtain ⟨node, found, member⟩ := exists_of_mem_childIndices edge
  obtain ⟨other, otherFound, grown⟩ := grows.nodes parent node found
  rw [Edge, childIndices_eq otherFound]
  exact grown.children.subset member

theorem Grows.modify (grows : model.Grows edges grown) (index : NodeIndex)
    {change : FeatureNode → FeatureNode}
    (carried : ∀ node other : FeatureNode,
      node.Grows edges other → (change node).Grows edges (change other)) :
    Grows edges { model with nodes := model.nodes.modify index change }
      { grown with nodes := grown.nodes.modify index change } := by
  refine ⟨?_, grows.features⟩
  intro position node found
  rw [List.getElem?_modify] at found
  obtain ⟨before, beforeFound, rfl⟩ := Option.map_eq_some_iff.mp found
  obtain ⟨other, otherFound, same⟩ := grows.nodes position before beforeFound
  refine ⟨if index = position then change other else other, ?_, ?_⟩
  · rw [List.getElem?_modify, otherFound]
    rfl
  · split
    · exact carried before other same
    · exact same

theorem Grows.addEdge (grows : model.Grows Eq grown) (parent child : NodeIndex) :
    (model.addEdge parent child).Grows Eq (grown.addEdge parent child) := by
  refine (grows.modify parent ?_).modify child ?_
  · intro node other same
    exact ⟨same.key, same.members, congrArg (· ++ [child]) same.children, same.parents⟩
  · intro node other same
    exact ⟨same.key, same.members, same.children, congrArg (· ++ [parent]) same.parents⟩

variable [IsPreorder (List NodeIndex) edges]

theorem Grows.of_eq (nodes : grown.nodes = model.nodes)
    (features : model.features <+: grown.features) : model.Grows edges grown :=
  ⟨fun _ node found => ⟨node, nodes ▸ found, rfl, List.prefix_rfl, refl _, refl _⟩, features⟩

theorem Grows.trans {last : FeatureModel} (grows : model.Grows edges grown)
    (further : grown.Grows edges last) : model.Grows edges last := by
  refine ⟨?_, grows.features.trans further.features⟩
  intro index node found
  obtain ⟨other, otherFound, one⟩ := grows.nodes index node found
  obtain ⟨final, finalFound, two⟩ := further.nodes index other otherFound
  exact ⟨final, finalFound, two.key.trans one.key, one.members.trans two.members,
    trans_of edges one.children two.children, trans_of edges one.parents two.parents⟩

theorem grows_modify (index : NodeIndex) {change : FeatureNode → FeatureNode}
    (grows : ∀ node : FeatureNode, node.Grows edges (change node)) :
    model.Grows edges { model with nodes := model.nodes.modify index change } := by
  refine ⟨?_, List.prefix_rfl⟩
  intro position node found
  refine ⟨if index = position then change node else node, ?_, ?_⟩
  · rw [List.getElem?_modify, found]
    rfl
  · split
    · exact grows node
    · exact ⟨rfl, List.prefix_rfl, refl _, refl _⟩

theorem grows_addMember (index : NodeIndex) (element : ElementRef) :
    model.Grows edges (model.addMember index element) := by
  apply grows_modify
  intro node
  refine ⟨rfl, ?_, refl _, refl _⟩
  rw [addElement]
  split
  · exact List.prefix_rfl
  · exact List.prefix_append _ _

theorem grows_addNode (key : NodeKey) : model.Grows edges (model.addNode key) := by
  refine ⟨?_, List.prefix_rfl⟩
  intro index node found
  have bound := (List.getElem?_eq_some_iff.mp found).1
  exact ⟨node, (List.getElem?_append_left bound).trans found, rfl, List.prefix_rfl, refl _, refl _⟩

theorem grows_addEdge (parent child : NodeIndex) :
    model.Grows (· <+: ·) (model.addEdge parent child) := by
  refine Grows.trans (grows_modify parent ?_) (grows_modify child ?_)
  · exact fun node => ⟨rfl, List.prefix_rfl, List.prefix_append _ _, List.prefix_rfl⟩
  · exact fun node => ⟨rfl, List.prefix_rfl, List.prefix_rfl, List.prefix_append _ _⟩

end FeatureModel

end

/-! Declarations and links. -/

namespace Assembly

open FeatureModel

variable {assembly other : Assembly}

theorem grows_declareFeature (element : Element) (declaration : FeatureDeclaration) :
    assembly.model.Grows Eq (assembly.declareFeature element declaration).model := by
  rw [declareFeature]
  split
  · exact .of_eq rfl List.prefix_rfl
  · split
    · exact .of_eq rfl List.prefix_rfl
    · exact .of_eq rfl (List.prefix_append _ _)

theorem grows_resolve (key : NodeKey) :
    assembly.model.Grows Eq (assembly.resolve key).2.model := by
  rw [resolve]
  split
  · exact .of_eq rfl List.prefix_rfl
  · exact grows_addNode key

theorem grows_declare (pair : ScanPair) :
    assembly.model.Grows Eq (assembly.declare pair).model := by
  rw [declare]
  split
  · exact grows_declareFeature _ _
  · rw [declareMapping]
    split
    · exact .of_eq rfl List.prefix_rfl
    · exact (grows_resolve _).trans (grows_addMember _ _)
  · exact .of_eq rfl List.prefix_rfl

theorem grows_declareAll (assembly : Assembly) (pairs : List ScanPair) :
    assembly.model.Grows Eq (assembly.declareAll pairs).model := by
  induction pairs generalizing assembly with
  | nil => exact .of_eq rfl List.prefix_rfl
  | cons pair rest ih => exact (grows_declare pair).trans (ih (assembly.declare pair))

theorem grows_link (attempt : LinkAttempt) :
    assembly.model.Grows (· <+: ·) (assembly.link attempt).model := by
  simp only [link]
  split
  · exact .of_eq rfl List.prefix_rfl
  · split
    · rw [connect]
      split
      · exact .of_eq rfl List.prefix_rfl
      · exact grows_addEdge _ _
    · exact .of_eq rfl List.prefix_rfl

theorem grows_linkAll (assembly : Assembly) (attempts : List LinkAttempt) :
    assembly.model.Grows (· <+: ·) (assembly.linkAll attempts).model := by
  induction attempts generalizing assembly with
  | nil => exact .of_eq rfl List.prefix_rfl
  | cons attempt rest ih => exact (grows_link attempt).trans (ih (assembly.link attempt))

theorem Grows.link (grows : assembly.model.Grows Eq other.model) {attempt : LinkAttempt}
    (parentBound : attempt.parent < assembly.model.nodes.length)
    (childBound : attempt.child < assembly.model.nodes.length) :
    (assembly.link attempt).model.Grows Eq (other.link attempt).model := by
  have sameEdge : other.model.hasEdge attempt.parent attempt.child =
      assembly.model.hasEdge attempt.parent attempt.child := by
    rw [hasEdge, hasEdge, grows.childIndices parentBound]
  simp only [Assembly.link, grows.keyAt parentBound, grows.keyAt childBound]
  split
  · exact grows
  · split
    · rw [connect, connect, sameEdge]
      split
      · exact grows
      · exact grows.addEdge _ _
    · exact ⟨grows.nodes, grows.features⟩

theorem Grows.linkAll (grows : assembly.model.Grows Eq other.model) {attempts : List LinkAttempt}
    (bound : ∀ attempt ∈ attempts, attempt.parent < assembly.model.nodes.length ∧
      attempt.child < assembly.model.nodes.length) :
    (assembly.linkAll attempts).model.Grows Eq (other.linkAll attempts).model := by
  induction attempts generalizing assembly other with
  | nil => exact grows
  | cons attempt rest ih =>
      obtain ⟨parentBound, childBound⟩ := bound attempt (by simp)
      refine ih (Grows.link grows parentBound childBound) ?_
      intro further member
      rw [length_link]
      exact bound further (by simp [member])

theorem linkAll_append (attempts others : List LinkAttempt) :
    assembly.linkAll (attempts ++ others) = (assembly.linkAll attempts).linkAll others :=
  List.foldl_append

end Assembly

/-! The source that goes on. -/

namespace Scan

structure Continued (scan longer : Scan) : Prop where
  scanned : scan.tree.elementsOf scan.visited <+: longer.tree.elementsOf longer.visited
  parents : ∀ element ∈ scan.tree.elementsOf scan.visited,
    longer.tree.parentOf? element = scan.tree.parentOf? element

variable {tree longerTree : SourceTree} {roots longerRoots : List ElementId} {scan longer : Scan}

theorem build_linked (scan : Scan) :
    ∃ diagnostics, scan.build =
      { ((({} : Assembly).declareAll scan.pairs).linkAll scan.attempts).model with
        diagnostics } := by
  rw [← scan.declared_attempts, ← Assembly.contain, build, Assembly.ofScan, Assembly.reportCycles,
    Assembly.reportAll_model]
  exact ⟨_, rfl⟩

theorem Continued.nearest (continued : scan.Continued longer)
    (accepted : tree.scanRoots roots = .ok scan) {element : Element}
    (member : element ∈ scan.tree.elementsOf scan.visited) (ancestor : Element) :
    longer.tree.NearestMapped element ancestor ↔ scan.tree.NearestMapped element ancestor := by
  have known := listed accepted
  constructor
  · intro nearest
    induction nearest with
    | here isParent mapped => exact .here (continued.parents _ member ▸ isParent) mapped
    | beyond isParent unmapped _ ih =>
        rw [continued.parents _ member] at isParent
        exact .beyond isParent unmapped (ih (known.parent member isParent).1)
  · intro nearest
    induction nearest with
    | here isParent mapped =>
        rw [← continued.parents _ member] at isParent
        exact .here isParent mapped
    | beyond isParent unmapped _ ih =>
        have further := ih (known.parent member isParent).1
        rw [← continued.parents _ member] at isParent
        exact .beyond isParent unmapped further

section

variable (continued : scan.Continued longer) (accepted : tree.scanRoots roots = .ok scan)
  (longerAccepted : longerTree.scanRoots longerRoots = .ok longer)

include continued accepted longerAccepted

theorem Continued.pairs : scan.pairs <+: longer.pairs := by
  have own := scanned_eq accepted
  have others := scanned_eq longerAccepted
  rw [own.2.1, others.2.1, ← own.1, ← others.1]
  exact continued.scanned.flatMap _

theorem Continued.mappings : scan.mappings <+: longer.mappings :=
  (continued.pairs accepted longerAccepted).filterMap _

theorem Continued.nodeKeys : nodeKeys scan.mappings <+: nodeKeys longer.mappings :=
  eraseDups_prefix ((continued.mappings accepted longerAccepted).map _)

theorem Continued.nestingsAt {id : ElementId} (member : id ∈ mappedIds scan.mappings) :
    longer.nestingsAt id = scan.nestingsAt id := by
  rw [mappings_eq accepted, SourceTree.mem_mappedIds_mappings] at member
  obtain ⟨element, scanned, rfl, _⟩ := member
  have longerScanned := continued.scanned.subset scanned
  by_cases nested : ∃ ancestor, scan.tree.NearestMapped element ancestor
  · obtain ⟨ancestor, nearest⟩ := nested
    have longerNearest := (continued.nearest accepted scanned ancestor).mpr nearest
    rw [nestingsAt_of_nearest accepted scanned nearest,
      nestingsAt_of_nearest longerAccepted longerScanned longerNearest]
  · have isolated : ∀ ancestor, ¬scan.tree.NearestMapped element ancestor := not_exists.mp nested
    rw [nestingsAt_of_isolated accepted scanned isolated,
      nestingsAt_of_isolated longerAccepted longerScanned]
    intro ancestor
    rw [continued.nearest accepted scanned]
    exact isolated ancestor

theorem Continued.nestings : scan.nestings <+: longer.nestings := by
  have ids : mappedIds scan.mappings <+: mappedIds longer.mappings :=
    eraseDups_prefix ((continued.mappings accepted longerAccepted).map _)
  have same : (mappedIds scan.mappings).flatMap longer.nestingsAt = scan.nestings :=
    List.flatMap_congr fun _ member => continued.nestingsAt accepted longerAccepted member
  rw [← same]
  exact ids.flatMap _

theorem Continued.attempts : scan.attempts <+: longer.attempts := by
  have keys := continued.nodeKeys accepted longerAccepted
  have same : scan.nestings.map (Nesting.attempt (FeatureAtlas.nodeKeys longer.mappings)) =
      scan.attempts := by
    rw [attempts_eq accepted]
    apply List.map_congr_left
    intro nesting member
    obtain ⟨child, parent⟩ := ((mem_nestings accepted).mp member).mem_nodeKeys accepted
    rw [Nesting.attempt, Nesting.attempt, keys.idxOf_eq_of_mem child, keys.idxOf_eq_of_mem parent]
  rw [← same, attempts_eq longerAccepted]
  exact (continued.nestings accepted longerAccepted).map _

theorem Continued.grows : scan.build.Grows (· <+: ·) longer.build := by
  obtain ⟨morePairs, pairs⟩ := continued.pairs accepted longerAccepted
  obtain ⟨moreAttempts, attempts⟩ := continued.attempts accepted longerAccepted
  -- The attempts that both have are made at nodes that both have, so they do the same to both.
  have declared := (({} : Assembly).declareAll scan.pairs).grows_declareAll morePairs
  rw [← Assembly.declareAll_append, pairs] at declared
  have linked := Assembly.Grows.linkAll declared
    fun attempt member => scan.attempts_bound_declared member
  -- The attempts that only the longer scan has come last, and they only add.
  have further := ((({} : Assembly).declareAll longer.pairs).linkAll scan.attempts).grows_linkAll
    moreAttempts
  rw [← Assembly.linkAll_append, attempts] at further
  have whole := linked.widen.trans further
  obtain ⟨_, built⟩ := scan.build_linked
  obtain ⟨_, longerBuilt⟩ := longer.build_linked
  rw [built, longerBuilt]
  exact ⟨whole.nodes, whole.features⟩

theorem Continued.problems :
    (scan.build.diagnostics.filter fun diagnostic => diagnostic.kind != .cycle).Sublist
      (longer.build.diagnostics.filter fun diagnostic => diagnostic.kind != .cycle) := by
  have refused := (continued.nestings accepted longerAccepted).filter Nesting.refused
  rw [filter_not_cycle accepted, filter_not_cycle longerAccepted, ← (scanned_eq accepted).1,
    ← (scanned_eq longerAccepted).1]
  exact (continued.scanned.flatMap _).sublist.append (refused.map _).sublist

theorem Continued.hasCycle (cyclic : scan.HasCycle) : longer.HasCycle := by
  have grows := continued.grows accepted longerAccepted
  rw [hasCycle_iff, ← scan.build_coherent.toWoven.exists_around_iff] at cyclic
  rw [hasCycle_iff, ← longer.build_coherent.toWoven.exists_around_iff]
  obtain ⟨node, around⟩ := cyclic
  exact ⟨node, Relation.TransGen.mono (fun _ _ edge => grows.edge edge) node node around⟩

end

end Scan

namespace SourceTree

theorem get?_append (outlines others : List Outline) {id : ElementId}
    (bound : id < Outline.countAll outlines) :
    (ofOutlines (outlines ++ others)).get? id = (ofOutlines outlines).get? id := by
  rw [get?_ofOutlines, get?_ofOutlines, layOutAll_append]
  exact List.getElem?_append_left (by rwa [length_layOutAll])

theorem elementsOf_append (outlines others : List Outline) :
    (ofOutlines outlines).elementsOf (List.range (Outline.countAll outlines)) <+:
      (ofOutlines (outlines ++ others)).elementsOf
        (List.range (Outline.countAll (outlines ++ others))) := by
  have same : (ofOutlines (outlines ++ others)).elementsOf
      (List.range (Outline.countAll outlines)) =
        (ofOutlines outlines).elementsOf (List.range (Outline.countAll outlines)) := by
    apply List.filterMap_congr
    intro id member
    exact get?_append outlines others (List.mem_range.mp member)
  rw [← same, Outline.countAll_append, List.range_add]
  exact (List.prefix_append _ _).filterMap _

end SourceTree

namespace Scan

theorem continued_append {outlines others : List Outline} {scan longer : Scan}
    (accepted : (SourceTree.ofOutlines outlines).scan = .ok scan)
    (longerAccepted : (SourceTree.ofOutlines (outlines ++ others)).scan = .ok longer) :
    scan.Continued longer := by
  have known := listed accepted
  rw [SourceTree.scan_ofOutlines, Except.ok.injEq] at accepted longerAccepted
  subst accepted longerAccepted
  refine ⟨SourceTree.elementsOf_append outlines others, ?_⟩
  intro element member
  rw [SourceTree.parentOf?, SourceTree.parentOf?]
  cases named : element.parent with
  | none => rfl
  | some parent =>
      obtain ⟨scanned, found⟩ := SourceTree.mem_elementsOf.mp member
      have earlier := (known.rooted element.id scanned element found parent named).1
      exact SourceTree.get?_append outlines others (List.mem_range.mp earlier)

/-- What comes later in the source adds to the model and moves nothing in it. Nodes keep their
positions, their members and edges go on where they ended, and so do the features. The diagnostics
are kept in their order, those of cycles apart: a cycle may be reported as another one. -/
theorem build_append (outlines others : List Outline) :
    ∃ scan longer : Scan, (SourceTree.ofOutlines outlines).scan = .ok scan ∧
      (SourceTree.ofOutlines (outlines ++ others)).scan = .ok longer ∧
      scan.build.keys <+: longer.build.keys ∧
      (∀ (index : NodeIndex) (node : FeatureNode), scan.build.nodes[index]? = some node →
        ∃ grown, longer.build.nodes[index]? = some grown ∧ node.members <+: grown.members ∧
          node.children <+: grown.children ∧ node.parents <+: grown.parents) ∧
      scan.build.features <+: longer.build.features ∧
      (scan.build.diagnostics.filter fun diagnostic => diagnostic.kind != .cycle).Sublist
        (longer.build.diagnostics.filter fun diagnostic => diagnostic.kind != .cycle) ∧
      (scan.HasCycle → longer.HasCycle) := by
  have accepted := SourceTree.scan_ofOutlines outlines
  have longerAccepted := SourceTree.scan_ofOutlines (outlines ++ others)
  have continued := continued_append accepted longerAccepted
  have grows := continued.grows accepted longerAccepted
  refine ⟨_, _, accepted, longerAccepted, grows.keys, ?_, grows.features,
    continued.problems accepted longerAccepted, continued.hasCycle accepted longerAccepted⟩
  intro index node found
  obtain ⟨grown, grownFound, same⟩ := grows.nodes index node found
  exact ⟨grown, grownFound, same.members, same.children, same.parents⟩

end Scan

end FeatureAtlas
