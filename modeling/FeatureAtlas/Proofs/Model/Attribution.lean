import FeatureAtlas.Proofs.Model.RootOrder

/-!
The elements that a diagnostic lists. An origin is recorded with each edge and with nothing else, so
what is reported of a cycle lists elements for every edge that it passes, and with them a member of
every node.
-/

namespace FeatureAtlas

theorem leads_of_mem_zip_tail {α : Type} {leads : α → α → Prop} {path : List α}
    (chain : path.IsChain leads) {first second : α}
    (member : (first, second) ∈ path.zip path.tail) : leads first second := by
  induction chain with
  | nil => simp at member
  | singleton => simp at member
  | cons_cons step _ ih =>
      rcases List.mem_cons.mp member with here | later
      · obtain ⟨rfl, rfl⟩ := Prod.mk.inj here
        exact step
      · exact ih later

theorem exists_mem_zip_tail {α : Type} {path : List α} {node : α} (member : node ∈ path.tail) :
    ∃ before, (before, node) ∈ path.zip path.tail := by
  have seconds : (path.zip path.tail).map Prod.snd = path.tail :=
    List.map_snd_zip (by simp)
  rw [← seconds] at member
  obtain ⟨⟨before, after⟩, inside, rfl⟩ := List.mem_map.mp member
  exact ⟨before, inside⟩

namespace FeatureModel

theorem ClosedPath.mem_tail {model : FeatureModel} {path : List NodeIndex}
    (closed : model.ClosedPath path) {node : NodeIndex} (member : node ∈ path) :
    node ∈ path.tail := by
  obtain ⟨first, inner, rfl⟩ := closed.eq_snoc
  simp at member ⊢
  tauto

theorem Woven.membersAt_eq {model : FeatureModel} (woven : model.Woven) {index : NodeIndex}
    {node : FeatureNode} (found : model.nodes[index]? = some node) :
    model.membersAt index = model.membersOf node.key := by
  rw [membersAt, membersOf, found, woven.inStep.node?_key found]

end FeatureModel

def EdgeOrigin.edge (origin : EdgeOrigin) : NodeIndex × NodeIndex := (origin.parent, origin.child)

def EdgeOrigin.elements (origin : EdgeOrigin) : List ElementRef := [origin.ancestor, origin.element]

theorem originOf?_eq_some_iff {origins : List EdgeOrigin}
    (once : (origins.map EdgeOrigin.edge).Nodup) {parent child : NodeIndex} {origin : EdgeOrigin} :
    originOf? origins parent child = some origin ↔
      origin ∈ origins ∧ origin.edge = (parent, child) := by
  have sought (known : EdgeOrigin) :
      (known.parent == parent && known.child == child) = true ↔ known.edge = (parent, child) := by
    simp [EdgeOrigin.edge]
  rw [originOf?]
  constructor
  · intro found
    have matched := List.find?_some found
    exact ⟨List.mem_reverse.mp (List.mem_of_find?_eq_some found), (sought origin).mp matched⟩
  · rintro ⟨member, isEdge⟩
    cases found : origins.reverse.find? fun known =>
        known.parent == parent && known.child == child with
    | none =>
        exact absurd ((sought origin).mpr isEdge)
          (List.find?_eq_none.mp found origin (List.mem_reverse.mpr member))
    | some known =>
        have matched := List.find?_some found
        have isKnown := (sought known).mp matched
        have knownMember := List.mem_reverse.mp (List.mem_of_find?_eq_some found)
        rw [List.inj_on_of_nodup_map once knownMember member (isKnown.trans isEdge.symm)]

namespace Assembly

/-- An origin is recorded for every edge, once, and for nothing else. -/
structure Traced (assembly : Assembly) : Prop where
  once : (assembly.origins.map EdgeOrigin.edge).Nodup
  recorded : ∀ parent child,
    (parent, child) ∈ assembly.origins.map EdgeOrigin.edge ↔ assembly.model.Edge parent child

variable {assembly : Assembly}

theorem traced_connect (traced : assembly.Traced) {attempt : LinkAttempt}
    (bound : attempt.parent < assembly.model.nodes.length) :
    (assembly.connect attempt).Traced := by
  rw [connect]
  split
  · exact traced
  · rename_i fresh
    rw [FeatureModel.hasEdge, List.contains_iff_mem] at fresh
    refine ⟨?_, ?_⟩
    · rw [List.map_append, List.nodup_append]
      refine ⟨traced.once, by simp, ?_⟩
      intro edge old last single same
      rw [List.map_singleton, List.mem_singleton] at single
      rw [same, single] at old
      exact fresh ((traced.recorded _ _).mp old)
    · intro parent child
      rw [List.map_append, List.mem_append, traced.recorded, FeatureModel.Edge, FeatureModel.Edge,
        FeatureModel.childIndices_addEdge bound]
      by_cases here : parent = attempt.parent
      · simp [here, EdgeOrigin.edge]
      · simp [here, EdgeOrigin.edge]

theorem traced_link (traced : assembly.Traced) {attempt : LinkAttempt}
    (bound : attempt.parent < assembly.model.nodes.length) : (assembly.link attempt).Traced := by
  simp only [link]
  split
  · exact traced
  · split
    · exact traced_connect traced bound
    · exact ⟨traced.once, traced.recorded⟩

theorem traced_linkAll (traced : assembly.Traced) {attempts : List LinkAttempt}
    (bound : ∀ attempt ∈ attempts, attempt.parent < assembly.model.nodes.length) :
    (assembly.linkAll attempts).Traced := by
  induction attempts generalizing assembly with
  | nil => exact traced
  | cons attempt rest ih =>
      rw [linkAll, List.foldl_cons]
      refine ih (traced_link traced (bound attempt (by simp))) ?_
      intro other member
      rw [length_link]
      exact bound other (by simp [member])

theorem Declares.traced {mappings : List Mapping} (declares : assembly.Declares mappings) :
    assembly.Traced := by
  refine ⟨by simp [declares.unoriginated], ?_⟩
  intro parent child
  have childless : assembly.model.childIndices parent = [] := declares.links.children parent
  simp [declares.unoriginated, FeatureModel.Edge, childless]

theorem Traced.reportAll (traced : assembly.Traced) (diagnostics : List Diagnostic) :
    (assembly.reportAll diagnostics).Traced := by
  refine ⟨?_, ?_⟩
  · rw [reportAll_origins]
    exact traced.once
  · rw [reportAll_origins, reportAll_model]
    exact traced.recorded

theorem Traced.exists_origins (traced : assembly.Traced) {edges : List (NodeIndex × NodeIndex)}
    (within : ∀ edge ∈ edges, assembly.model.Edge edge.1 edge.2) :
    ∃ origins, origins.map EdgeOrigin.edge = edges ∧ origins ⊆ assembly.origins ∧
      edges.flatMap (fun edge => elementsBehind assembly.origins edge.1 edge.2) =
        origins.flatMap EdgeOrigin.elements := by
  induction edges with
  | nil => exact ⟨[], rfl, by simp, rfl⟩
  | cons edge rest ih =>
      obtain ⟨origins, isRest, known, behind⟩ :=
        ih fun other member => within other (by simp [member])
      have isEdge := (traced.recorded edge.1 edge.2).mpr (within edge (by simp))
      obtain ⟨origin, member, same⟩ := List.mem_map.mp isEdge
      have found := (originOf?_eq_some_iff traced.once).mpr ⟨member, same⟩
      refine ⟨origin :: origins, ?_, ?_, ?_⟩
      · rw [List.map_cons, isRest, same]
      · exact List.cons_subset.mpr ⟨member, known⟩
      · rw [List.flatMap_cons, List.flatMap_cons, behind, elementsBehind, found]
        rfl

end Assembly

namespace Scan

variable {tree : SourceTree} {roots : List ElementId} {scan : Scan}

theorem ofScan_traced (scan : Scan) : (Assembly.ofScan scan).Traced := by
  have declares := Assembly.declareAll_declares scan.pairs
  refine Assembly.Traced.reportAll (Assembly.traced_linkAll declares.traced ?_) _
  intro attempt member
  rw [scan.declared_attempts] at member
  have length := congrArg List.length declares.keys
  rw [FeatureModel.keys, List.length_map] at length
  rw [length]
  exact (attempts_bound member).1

def originOf? (scan : Scan) (parent child : NodeIndex) : Option EdgeOrigin :=
  FeatureAtlas.originOf? (Assembly.ofScan scan).origins parent child

def Refers (scan : Scan) (reference : ElementRef) : Prop :=
  ∃ element ∈ scan.tree.elementsOf scan.visited, element.toRef = reference

/-- An origin names an element and its nearest mapped ancestor. The one is a member of the child,
the other of the parent. -/
structure Originates (scan : Scan) (element ancestor : Element) (origin : EdgeOrigin) : Prop where
  content : origin.element = element.toRef
  container : origin.ancestor = ancestor.toRef
  nearest : scan.tree.NearestMapped element ancestor
  inChild : origin.element ∈ scan.build.membersAt origin.child
  inParent : origin.ancestor ∈ scan.build.membersAt origin.parent

/-- What is reported of a cycle: the path around it and, in the order of its edges, the elements of
their origins, each where it comes first. -/
structure Recounts (scan : Scan) (path : List NodeIndex) (diagnostic : Diagnostic) : Prop where
  named : diagnostic = .cycle (path.map scan.build.keyAt) diagnostic.elements
  closed : scan.build.ClosedPath path
  listed : ∃ origins : List EdgeOrigin, origins.map EdgeOrigin.edge = path.zip path.tail ∧
    (∀ origin ∈ origins, scan.originOf? origin.parent origin.child = some origin) ∧
    diagnostic.elements = (origins.flatMap EdgeOrigin.elements).eraseDups
  distinct : (diagnostic.elements.map ElementRef.id).Nodup
  represented : ∀ node ∈ path, ∃ member ∈ diagnostic.elements, member ∈ scan.build.membersAt node

theorem isSome_originOf? (scan : Scan) (parent child : NodeIndex) :
    (scan.originOf? parent child).isSome ↔ scan.build.Edge parent child := by
  have traced := scan.ofScan_traced
  rw [Option.isSome_iff_exists, build, ← traced.recorded, List.mem_map]
  exact exists_congr fun origin => originOf?_eq_some_iff traced.once

theorem membersAt_idxOf (scan : Scan) {key : NodeKey} (member : key ∈ nodeKeys scan.mappings) :
    scan.build.membersAt ((nodeKeys scan.mappings).idxOf key) = scan.build.membersOf key := by
  obtain ⟨node, found, rfl⟩ := scan.exists_node member
  exact scan.build_coherent.membersAt_eq found

theorem mem_membersOf_of_maps (accepted : tree.scanRoots roots = .ok scan) {element : Element}
    (scanned : element ∈ scan.tree.elementsOf scan.visited) {key : NodeKey}
    (maps : key ∈ element.mappedKeys) : element.toRef ∈ scan.build.membersOf key := by
  rw [(scanned_eq accepted).1] at scanned
  exact (mem_membersOf_iff accepted key _).mpr
    ⟨element, (SourceTree.mem_scanned_iff accepted element).mp scanned, maps, rfl⟩

theorem exists_originates (accepted : tree.scanRoots roots = .ok scan) {origin : EdgeOrigin}
    (recorded : origin ∈ (Assembly.ofScan scan).origins) :
    ∃ element ancestor, element ∈ scan.tree.elementsOf scan.visited ∧
      ancestor ∈ scan.tree.elementsOf scan.visited ∧ scan.Originates element ancestor origin := by
  obtain ⟨attempt, attempted, _, rfl⟩ := scan.ofScan_links.origins origin recorded
  rw [attempts_eq accepted] at attempted
  obtain ⟨nesting, member, rfl⟩ := List.mem_map.mp attempted
  have nests := (mem_nestings accepted).mp member
  obtain ⟨childMember, parentMember⟩ := nests.mem_nodeKeys accepted
  have above := nests.nearest.listed (listed accepted) nests.scanned
  refine ⟨nesting.element, nesting.ancestor, nests.scanned, above, rfl, rfl, nests.nearest, ?_, ?_⟩
  · change _ ∈ scan.build.membersAt ((nodeKeys scan.mappings).idxOf nesting.child)
    rw [scan.membersAt_idxOf childMember]
    exact mem_membersOf_of_maps accepted nests.scanned nests.maps
  · change _ ∈ scan.build.membersAt ((nodeKeys scan.mappings).idxOf nesting.parent)
    rw [scan.membersAt_idxOf parentMember]
    exact mem_membersOf_of_maps accepted above nests.holds

theorem Refers.eq_of_id {first second : ElementRef} (known : scan.Refers first)
    (other : scan.Refers second) (same : first.id = second.id) : first = second := by
  obtain ⟨element, member, rfl⟩ := known
  obtain ⟨another, anotherMember, rfl⟩ := other
  have found := (SourceTree.mem_elementsOf.mp member).2
  have isId : element.id = another.id := same
  rw [isId, (SourceTree.mem_elementsOf.mp anotherMember).2, Option.some.injEq] at found
  rw [found]

theorem refers_of_origin (accepted : tree.scanRoots roots = .ok scan) {origin : EdgeOrigin}
    (recorded : origin ∈ (Assembly.ofScan scan).origins) :
    ∀ listed ∈ origin.elements, scan.Refers listed := by
  obtain ⟨element, ancestor, visited, above, origins⟩ := exists_originates accepted recorded
  intro reference member
  rcases List.mem_pair.mp member with rfl | rfl
  · exact ⟨ancestor, above, origins.container.symm⟩
  · exact ⟨element, visited, origins.content.symm⟩

theorem recounts_cyclePath (accepted : tree.scanRoots roots = .ok scan) {path : List NodeIndex}
    (closed : scan.build.ClosedPath path) :
    scan.Recounts path (scan.build.cycleDiagnostic (Assembly.ofScan scan).origins path) ∧
      ∀ listed ∈ elementsAlong (Assembly.ofScan scan).origins path, scan.Refers listed := by
  have traced := scan.ofScan_traced
  obtain ⟨origins, isPath, known, behind⟩ := traced.exists_origins
    fun (_, _) member => leads_of_mem_zip_tail closed.edges member
  have refers : ∀ listed ∈ origins.flatMap EdgeOrigin.elements, scan.Refers listed := by
    intro reference member
    obtain ⟨origin, chosen, inside⟩ := List.mem_flatMap.mp member
    exact refers_of_origin accepted (known chosen) reference inside
  have along : elementsAlong (Assembly.ofScan scan).origins path =
      (origins.flatMap EdgeOrigin.elements).eraseDups := by
    rw [elementsAlong, behind]
    exact foldl_addElement fun first member second other =>
      (refers first member).eq_of_id (refers second other)
  have listed : ∀ reference ∈ elementsAlong (Assembly.ofScan scan).origins path,
      scan.Refers reference := by
    intro reference member
    rw [along, List.mem_eraseDups] at member
    exact refers reference member
  refine ⟨⟨rfl, closed, ⟨origins, isPath, ?_, along⟩, ?_, ?_⟩, listed⟩
  · intro origin member
    exact (originOf?_eq_some_iff traced.once).mpr ⟨known member, rfl⟩
  · have once : (elementsAlong (Assembly.ofScan scan).origins path).Nodup := by
      rw [along]
      exact nodup_eraseDups _
    refine List.Nodup.map_on ?_ once
    exact fun first member second other => (listed first member).eq_of_id (listed second other)
  · intro node member
    obtain ⟨before, edge⟩ := exists_mem_zip_tail (closed.mem_tail member)
    rw [← isPath] at edge
    obtain ⟨origin, chosen, isEdge⟩ := List.mem_map.mp edge
    obtain ⟨rfl, rfl⟩ := Prod.mk.inj isEdge
    obtain ⟨_, _, _, _, origins⟩ := exists_originates accepted (known chosen)
    refine ⟨origin.element, ?_, origins.inChild⟩
    change _ ∈ elementsAlong _ path
    rw [along, List.mem_eraseDups]
    exact List.mem_flatMap.mpr ⟨origin, chosen, by simp [EdgeOrigin.elements]⟩

/-! All diagnostics. -/

structure Attributes (scan : Scan) (diagnostic : Diagnostic) : Prop where
  severity : diagnostic.severity = diagnostic.kind.severity
  attributed : diagnostic.elements ≠ []
  visited : ∀ listed ∈ diagnostic.elements, scan.Refers listed

theorem refers_of_pair (accepted : tree.scanRoots roots = .ok scan) {pair : ScanPair}
    (member : pair ∈ scan.pairs) : scan.Refers pair.element.toRef := by
  obtain ⟨isTree, declared, _⟩ := scanned_eq accepted
  rw [declared] at member
  obtain ⟨element, scanned, own⟩ := List.mem_flatMap.mp member
  rw [Element.element_of_mem_pairs own]
  exact ⟨element, isTree ▸ scanned, rfl⟩

theorem refers_of_attempt (accepted : tree.scanRoots roots = .ok scan) {attempt : LinkAttempt}
    (attempted : attempt ∈ scan.attempts) :
    scan.Refers attempt.ancestor.toRef ∧ scan.Refers attempt.element.toRef := by
  rw [attempts_eq accepted] at attempted
  obtain ⟨nesting, member, rfl⟩ := List.mem_map.mp attempted
  have nests := (mem_nestings accepted).mp member
  exact ⟨⟨_, nests.nearest.listed (listed accepted) nests.scanned, rfl⟩, ⟨_, nests.scanned, rfl⟩⟩

theorem attributes_declaration {element : ElementRef} {diagnostic : Diagnostic}
    (problem : DeclarationProblem element diagnostic) (refers : scan.Refers element) :
    scan.Attributes diagnostic := by
  have own : ∀ listed ∈ [element], scan.Refers listed := by
    intro listed member
    rwa [List.mem_singleton.mp member]
  cases problem with
  | emptyFeature => exact ⟨rfl, List.cons_ne_nil _ _, own⟩
  | emptyMapping => exact ⟨rfl, List.cons_ne_nil _ _, own⟩
  | duplicate kept ignored => exact ⟨rfl, List.cons_ne_nil _ _, own⟩

theorem attributes_link {attempt : LinkAttempt} {diagnostic : Diagnostic}
    (problem : LinkProblem attempt diagnostic)
    (refers : scan.Refers attempt.ancestor.toRef ∧ scan.Refers attempt.element.toRef) :
    scan.Attributes diagnostic := by
  cases problem with
  | levels container content =>
      refine ⟨rfl, List.cons_ne_nil _ _, ?_⟩
      intro listed member
      rcases List.mem_pair.mp member with rfl | rfl
      · exact refers.1
      · exact refers.2

theorem attributes_cycle (accepted : tree.scanRoots roots = .ok scan) {path : List NodeIndex}
    (closed : scan.build.ClosedPath path) :
    scan.Attributes (scan.build.cycleDiagnostic (Assembly.ofScan scan).origins path) := by
  obtain ⟨recounts, listed⟩ := recounts_cyclePath accepted closed
  obtain ⟨first, inner, isPath⟩ := closed.eq_snoc
  obtain ⟨member, isListed, _⟩ := recounts.represented first (by simp [isPath])
  exact ⟨rfl, List.ne_nil_of_mem isListed, listed⟩

/-- Every diagnostic has the severity of its kind and lists elements that were visited. An origin is
known of each edge and of no other pair of nodes, and what is reported of a cycle is told from the
origins of the edges around it. -/
theorem build_attributes_diagnostics (accepted : tree.scanRoots roots = .ok scan) :
    (∀ diagnostic ∈ scan.build.diagnostics, scan.Attributes diagnostic) ∧
      (∀ parent child, (scan.originOf? parent child).isSome ↔ scan.build.Edge parent child) ∧
      (∀ parent child origin, scan.originOf? parent child = some origin →
        origin.edge = (parent, child) ∧
          ∃ element ancestor, element ∈ scan.tree.elementsOf scan.visited ∧
            ancestor ∈ scan.tree.elementsOf scan.visited ∧
            scan.Originates element ancestor origin) ∧
      ∀ diagnostic ∈ scan.build.diagnostics, diagnostic.kind = .cycle →
        ∃ path ∈ scan.build.cyclePaths, scan.Recounts path diagnostic := by
  obtain ⟨last, moves, _, _, reported⟩ := scan.build.cyclePaths_eq
  have closed : ∀ path ∈ scan.build.cyclePaths, scan.build.ClosedPath path := by
    rw [reported]
    exact ((Descent.tracks_begin scan.build).moves moves).closed
  refine ⟨?_, scan.isSome_originOf?, ?_, ?_⟩
  · intro diagnostic member
    obtain ⟨problems, diagnostics, origin⟩ := scan.build_diagnostics
    rw [diagnostics] at member
    rcases List.mem_append.mp member with early | cycle
    · rcases origin diagnostic early with ⟨pair, declared, problem⟩ | ⟨attempt, attempted, problem⟩
      · exact attributes_declaration problem (refers_of_pair accepted declared)
      · exact attributes_link problem (refers_of_attempt accepted attempted)
    · obtain ⟨path, isPath, rfl⟩ := List.mem_map.mp cycle
      exact attributes_cycle accepted (closed path isPath)
  · intro parent child origin found
    obtain ⟨recorded, isEdge⟩ := (originOf?_eq_some_iff scan.ofScan_traced.once).mp found
    exact ⟨isEdge, exists_originates accepted recorded⟩
  · intro diagnostic member isCycle
    have kept : diagnostic ∈ scan.build.diagnostics.filter fun other => other.kind == .cycle :=
      List.mem_filter.mpr ⟨member, by simpa using isCycle⟩
    rw [build_cycle_diagnostics] at kept
    obtain ⟨path, isPath, rfl⟩ := List.mem_map.mp kept
    exact ⟨path, isPath, (recounts_cyclePath accepted (closed path isPath)).1⟩

theorem stalls_cycle_recounted :
    stalls.scanRoots [0, 2] = .ok (stallsScan [0, 1, 2, 3]) ∧
      ((stallsScan [0, 1, 2, 3]).originOf? 0 1).isSome = true ∧
      ∃ diagnostic ∈ (stallsScan [0, 1, 2, 3]).build.diagnostics, diagnostic.kind = .cycle ∧
        diagnostic.elements ≠ [] ∧ ∃ path ∈ (stallsScan [0, 1, 2, 3]).build.cyclePaths,
          (stallsScan [0, 1, 2, 3]).Recounts path diagnostic := by
  have accepted : stalls.scanRoots [0, 2] = .ok (stallsScan [0, 1, 2, 3]) :=
    SourceTree.scanRoots_of_runWithin (stallsScan [0, 1, 2, 3]) 8 rfl
  have forth : (stallsScan [0, 1, 2, 3]).build.Edge 0 1 := by
    rw [FeatureModel.Edge, build_children]
    decide
  have back : (stallsScan [0, 1, 2, 3]).build.Edge 1 0 := by
    rw [FeatureModel.Edge, build_children]
    decide
  obtain ⟨attributed, traced, _, recounted⟩ := build_attributes_diagnostics accepted
  have cyclic : (stallsScan [0, 1, 2, 3]).HasCycle := by
    rw [hasCycle_iff, ← (build_coherent _).exists_around_iff]
    exact ⟨0, .tail (.single forth) back⟩
  obtain ⟨diagnostic, member, isCycle⟩ := cyclic
  exact ⟨accepted, (traced 0 1).mpr forth, diagnostic, member, isCycle,
    (attributed diagnostic member).attributed, recounted diagnostic member isCycle⟩

end Scan

end FeatureAtlas
