import FeatureAtlas.Model.FailurePolicy
import FeatureAtlas.Proofs.Model.CycleReports
import FeatureAtlas.Proofs.Model.Declarations
import FeatureAtlas.Proofs.Model.Refusals
import FeatureAtlas.Proofs.Source.Reach

/-!
The order of the roots. Nodes, edges, members, features and all diagnostics but those of cycles are
told by the elements that the roots lead to, whatever their order. Which cycles are reported does
depend on the order, but not whether there are any.
-/

namespace FeatureAtlas

/-! Severities. -/

theorem foldl_worse (severities : List Severity) :
    severities.foldl (fun worst severity => some ((worst.map severity.worse).getD severity)) none =
      if .error ∈ severities then some .error
      else if .warning ∈ severities then some .warning else none := by
  induction severities using List.reverseRecOn with
  | nil => rfl
  | append_singleton severities severity ih =>
      rw [List.foldl_append, ih]
      by_cases error : Severity.error ∈ severities
      · cases severity <;> simp [error, Severity.worse, Severity.reaches, Severity.rank]
      · by_cases warning : Severity.warning ∈ severities
        · cases severity <;>
            simp [error, warning, Severity.worse, Severity.reaches, Severity.rank]
        · cases severity <;> simp [error, warning]

namespace FeatureModel

def HasSeverity (model : FeatureModel) (severity : Severity) : Prop :=
  severity ∈ model.diagnostics.map Diagnostic.severity

variable {model other : FeatureModel}

theorem maxSeverity?_congr
    (same : ∀ severity, model.HasSeverity severity ↔ other.HasSeverity severity) :
    model.maxSeverity? = other.maxSeverity? := by
  rw [maxSeverity?, maxSeverity?, foldl_worse, foldl_worse]
  exact if_congr (same .error) rfl (if_congr (same .warning) rfl rfl)

theorem isFailure_congr
    (same : ∀ severity, model.HasSeverity severity ↔ other.HasSeverity severity)
    (policy : FailurePolicy) :
    policy.isFailure model.diagnostics = policy.isFailure other.diagnostics := by
  rw [FailurePolicy.isFailure, FailurePolicy.isFailure]
  cases policy.threshold? with
  | none => rfl
  | some threshold =>
      have reached (model : FeatureModel) :
          (model.diagnostics.any fun diagnostic => diagnostic.severity.reaches threshold) = true ↔
            ∃ severity, model.HasSeverity severity ∧ severity.reaches threshold = true := by
        simp [HasSeverity]
      rw [Bool.eq_iff_iff, reached, reached]
      exact exists_congr fun severity => and_congr_left fun _ => same severity

/-! Cycles of nodes and cycles of keys. -/

theorem cyclePaths_ne_nil_iff (model : FeatureModel) :
    model.cyclePaths ≠ [] ↔ ∃ node, Relation.TransGen model.Edge node node := by
  obtain ⟨last, moves, noVisit, noStart, reported⟩ := model.cyclePaths_eq
  have tracks := (Descent.tracks_begin model).moves moves
  rw [reported]
  constructor
  · intro some
    obtain ⟨path, member⟩ := List.exists_mem_of_ne_nil _ some
    have closed := tracks.closed path member
    obtain ⟨node, _, isPath⟩ := closed.eq_snoc
    exact ⟨node, closed.transGen closed.edges (by simp [isPath])⟩
  · rintro ⟨node, around⟩ none
    refine tracks.acyclic noVisit noStart node (Relation.TransGen.mono ?_ node node around)
    intro parent child isChild
    exact ⟨isChild, by simp [Descent.closings, none]⟩

theorem Woven.indexOf?_keyAt (woven : model.Woven) {index : NodeIndex}
    (bound : index < model.nodes.length) : model.indexOf? (model.keyAt index) = some index := by
  have stored := List.getElem?_eq_getElem bound
  exact woven.inStep.indexOf?_eq_some_iff.mpr ⟨_, stored, by simp [keyAt, stored]⟩

theorem Woven.hasChild_iff (woven : model.Woven) (parent child : NodeKey) :
    model.HasChild parent child ↔ ∃ above below, model.indexOf? parent = some above ∧
      model.indexOf? child = some below ∧ model.Edge above below := by
  constructor
  · intro has
    cases found : model.node? parent with
    | none => simp [HasChild, childrenOf, found] at has
    | some node =>
        rw [HasChild, woven.map_key_childrenOf found] at has
        obtain ⟨below, isChild, rfl⟩ := List.mem_map.mp has
        obtain ⟨member, isParent⟩ := woven.inStep.node?_eq_some_iff.mp found
        obtain ⟨above, stored⟩ := List.mem_iff_getElem?.mp member
        have edge : model.Edge above below := by
          rwa [Edge, childIndices_eq stored]
        exact ⟨above, below, woven.inStep.indexOf?_eq_some_iff.mpr ⟨node, stored, isParent⟩,
          woven.indexOf?_keyAt (woven.inRange edge).2, edge⟩
  · rintro ⟨above, below, isParent, isChild, edge⟩
    obtain ⟨node, stored, rfl⟩ := woven.inStep.indexOf?_eq_some_iff.mp isParent
    obtain ⟨content, contentStored, rfl⟩ := woven.inStep.indexOf?_eq_some_iff.mp isChild
    rw [HasChild, woven.map_key_childrenOf (woven.inStep.node?_key stored), List.mem_map]
    rw [Edge, childIndices_eq stored] at edge
    exact ⟨below, edge, by simp [keyAt, contentStored]⟩

theorem Woven.hasChild_keyAt (woven : model.Woven) {parent child : NodeIndex}
    (edge : model.Edge parent child) : model.HasChild (model.keyAt parent) (model.keyAt child) := by
  obtain ⟨parentBound, childBound⟩ := woven.inRange edge
  exact (woven.hasChild_iff _ _).mpr ⟨parent, child, woven.indexOf?_keyAt parentBound,
    woven.indexOf?_keyAt childBound, edge⟩

theorem Woven.exists_around_iff (woven : model.Woven) :
    (∃ node, Relation.TransGen model.Edge node node) ↔
      ∃ key, Relation.TransGen model.HasChild key key := by
  constructor
  · rintro ⟨node, around⟩
    exact ⟨model.keyAt node, around.lift model.keyAt fun _ _ => woven.hasChild_keyAt⟩
  · rintro ⟨key, around⟩
    refine ⟨(model.indexOf? key).getD 0, around.lift (fun key => (model.indexOf? key).getD 0) ?_⟩
    intro parent child has
    obtain ⟨above, below, isParent, isChild, edge⟩ := (woven.hasChild_iff parent child).mp has
    simp only [Function.onFun, isParent, isChild, Option.getD_some]
    exact edge

end FeatureModel

namespace Scan

variable {tree : SourceTree} {roots others : List ElementId} {scan other : Scan}

theorem scanned_eq (accepted : tree.scanRoots roots = .ok scan) :
    scan.tree = tree ∧ scan.pairs = (tree.elementsOf scan.visited).flatMap Element.pairs ∧
      ((tree.elementsOf scan.visited).map Element.id).Nodup := by
  obtain ⟨isTree, listed, declared⟩ := SourceTree.scanRoots_sound accepted
  refine ⟨isTree, declared, ?_⟩
  rw [listed.map_id]
  exact listed.distinct

theorem mem_keys_iff (accepted : tree.scanRoots roots = .ok scan) (key : NodeKey) :
    key ∈ scan.build.keys ↔
      ∃ element, tree.Reachable roots element ∧ key ∈ element.mappedKeys := by
  rw [build_keys, nodeKeys, List.mem_eraseDups, mappings_eq accepted, (scanned_eq accepted).1,
    List.mem_map]
  constructor
  · rintro ⟨mapping, member, rfl⟩
    obtain ⟨element, scanned, own⟩ := List.mem_flatMap.mp member
    exact ⟨element, (SourceTree.mem_scanned_iff accepted element).mp scanned,
      (mem_mappings.mp own).2⟩
  · rintro ⟨element, reached, maps⟩
    refine ⟨{ element, key }, List.mem_flatMap.mpr ⟨element, ?_, mem_mappings.mpr ⟨rfl, maps⟩⟩, rfl⟩
    exact (SourceTree.mem_scanned_iff accepted element).mpr reached

theorem mem_membersOf_iff (accepted : tree.scanRoots roots = .ok scan) (key : NodeKey)
    (member : ElementRef) :
    member ∈ scan.build.membersOf key ↔ ∃ element, tree.Reachable roots element ∧
      key ∈ element.mappedKeys ∧ element.toRef = member := by
  have scanned := SourceTree.mem_scanned_iff accepted
  obtain ⟨_, declared, distinct⟩ := scanned_eq accepted
  have owner {pair : ScanPair} (found : pair ∈ scan.pairs) :
      ∃ element, tree.Reachable roots element ∧ pair ∈ element.pairs := by
    rw [declared] at found
    obtain ⟨element, listed, own⟩ := List.mem_flatMap.mp found
    exact ⟨element, (scanned element).mp listed, own⟩
  rw [scan.build_declared.members, Assembly.mem_membersOf_declareAll]
  · constructor
    · rintro ⟨pair, found, asks, rfl⟩
      obtain ⟨element, reached, own⟩ := owner found
      rw [Element.element_of_mem_pairs own]
      exact ⟨element, reached, (element.mem_mappedKeys_iff key).mpr ⟨pair, own, asks⟩, rfl⟩
    · rintro ⟨element, reached, maps, rfl⟩
      obtain ⟨pair, own, asks⟩ := (element.mem_mappedKeys_iff key).mp maps
      refine ⟨pair, ?_, asks, congrArg Element.toRef (Element.element_of_mem_pairs own)⟩
      rw [declared]
      exact List.mem_flatMap.mpr ⟨element, (scanned element).mpr reached, own⟩
  · intro pair found second secondFound same
    obtain ⟨element, reached, own⟩ := owner found
    obtain ⟨another, anotherReached, anotherOwn⟩ := owner secondFound
    rw [Element.element_of_mem_pairs own, Element.element_of_mem_pairs anotherOwn] at same ⊢
    exact List.inj_on_of_nodup_map distinct ((scanned _).mpr reached)
      ((scanned _).mpr anotherReached) same

theorem featureFor?_eq_some_iff (accepted : tree.scanRoots roots = .ok scan) (id : ElementId)
    (feature : DeclaredFeature) :
    scan.build.featureFor? id = some feature ↔ ∃ element, tree.Reachable roots element ∧
      element.id = id ∧ element.feature? = some feature := by
  obtain ⟨_, declared, distinct⟩ := scanned_eq accepted
  rw [FeatureModel.featureFor?, scan.build_declared.features, ← FeatureModel.featureFor?, declared,
    Assembly.featureFor?_elements Assembly.inStep_empty]
  refine (findSome?_feature_eq_some_iff distinct id feature).trans ?_
  exact exists_congr fun element => and_congr_left fun _ =>
    SourceTree.mem_scanned_iff accepted element

theorem build_hasChild_iff (accepted : tree.scanRoots roots = .ok scan) (parent child : NodeKey) :
    scan.build.HasChild parent child ↔ parent ≠ child ∧
      parent.granularity.rank ≤ child.granularity.rank ∧
      ∃ nesting, scan.Nests nesting ∧ nesting.parent = parent ∧ nesting.child = child := by
  constructor
  · intro has
    have woven := scan.build_coherent.toWoven
    obtain ⟨above, below, isParent, isChild, edge⟩ := (woven.hasChild_iff parent child).mp has
    obtain ⟨container, found, rfl⟩ := woven.inStep.indexOf?_eq_some_iff.mp isParent
    rw [FeatureModel.Edge, FeatureModel.childIndices_eq found] at edge
    obtain ⟨content, contentFound, _, _, nesting, witnesses⟩ :=
      (mem_children_iff accepted found below).mp edge
    obtain ⟨same, sameFound, rfl⟩ := woven.inStep.indexOf?_eq_some_iff.mp isChild
    obtain rfl := Option.some.inj (contentFound.symm.trans sameFound)
    obtain ⟨nests, parentKey, childKey⟩ := witnesses
    rw [← parentKey, ← childKey] at has ⊢
    obtain ⟨different, coarser⟩ := (hasChild_iff accepted nests).mp has
    exact ⟨different, coarser, nesting, nests, rfl, rfl⟩
  · rintro ⟨different, below, nesting, nests, rfl, rfl⟩
    exact (hasChild_iff accepted nests).mpr ⟨different, below⟩

/-! Diagnostics. -/

theorem filter_not_cycle (accepted : tree.scanRoots roots = .ok scan) :
    scan.build.diagnostics.filter (fun diagnostic => diagnostic.kind != .cycle) =
      (tree.elementsOf scan.visited).flatMap Element.problems ++
        scan.refusedNestings.map Nesting.refusal := by
  obtain ⟨_, declared, distinct⟩ := scanned_eq accepted
  have early : (({} : Assembly).declareAll scan.pairs).model.diagnostics.filter
      (fun diagnostic => diagnostic.kind != .cycle) =
        (tree.elementsOf scan.visited).flatMap Element.problems := by
    rw [List.filter_eq_self.mpr, declared,
      Assembly.diagnostics_elements Assembly.inStep_empty distinct]
    · rfl
    · exact fun _ _ => rfl
    · intro diagnostic member
      obtain ⟨pair, _, problem⟩ := Assembly.mem_declareAll member
      simpa using problem.kind
  have refusals : (scan.refusedNestings.map Nesting.refusal).filter
      (fun diagnostic => diagnostic.kind != .cycle) = scan.refusedNestings.map Nesting.refusal := by
    rw [List.filter_eq_self]
    intro diagnostic member
    obtain ⟨nesting, _, rfl⟩ := List.mem_map.mp member
    rfl
  have cycles : (scan.build.detectCycles (Assembly.ofScan scan).origins).filter
      (fun diagnostic => diagnostic.kind != .cycle) = [] := by
    rw [List.filter_eq_nil_iff]
    intro diagnostic member
    obtain ⟨path, _, rfl⟩ := List.mem_map.mp member
    simp [FeatureModel.cycleDiagnostic, Diagnostic.cycle, Diagnostic.ofKind]
  rw [build_diagnostics_eq accepted, List.filter_append, List.filter_append, early, refusals,
    cycles, List.append_nil]

def HasCycle (scan : Scan) : Prop :=
  ∃ diagnostic ∈ scan.build.diagnostics, diagnostic.kind = .cycle

theorem severity_of_cycle {diagnostic : Diagnostic} (member : diagnostic ∈ scan.build.diagnostics)
    (isCycle : diagnostic.kind = .cycle) : diagnostic.severity = .error := by
  obtain ⟨path, _, rfl⟩ := exists_cyclePath member isCycle
  rfl

theorem hasCycle_iff (scan : Scan) :
    scan.HasCycle ↔ ∃ key, Relation.TransGen scan.build.HasChild key key := by
  have woven := scan.build_coherent.toWoven
  have none : scan.build.diagnostics.filter (fun diagnostic => diagnostic.kind == .cycle) = [] ↔
      scan.build.cyclePaths = [] := by
    rw [build_cycle_diagnostics, FeatureModel.detectCycles, List.map_eq_nil_iff]
  have reported : scan.HasCycle ↔ scan.build.cyclePaths ≠ [] := by
    rw [ne_eq, ← none, List.filter_eq_nil_iff]
    simp [HasCycle]
  rw [reported, scan.build.cyclePaths_ne_nil_iff, woven.exists_around_iff]

theorem hasSeverity_iff (scan : Scan) (severity : Severity) :
    scan.build.HasSeverity severity ↔
      severity ∈ (scan.build.diagnostics.filter fun diagnostic => diagnostic.kind != .cycle).map
        Diagnostic.severity ∨ severity = .error ∧ scan.HasCycle := by
  rw [FeatureModel.HasSeverity, List.mem_map, List.mem_map]
  constructor
  · rintro ⟨diagnostic, member, rfl⟩
    by_cases isCycle : diagnostic.kind = .cycle
    · exact .inr ⟨severity_of_cycle member isCycle, diagnostic, member, isCycle⟩
    · exact .inl ⟨diagnostic, List.mem_filter.mpr ⟨member, by simpa using isCycle⟩, rfl⟩
  · rintro (⟨diagnostic, member, rfl⟩ | ⟨rfl, diagnostic, member, isCycle⟩)
    · exact ⟨diagnostic, (List.mem_filter.mp member).1, rfl⟩
    · exact ⟨diagnostic, member, severity_of_cycle member isCycle⟩

/-! Two orders of the same roots. -/

theorem Nests.perm (same : roots.Perm others) (accepted : tree.scanRoots roots = .ok scan)
    (otherAccepted : tree.scanRoots others = .ok other) {nesting : Nesting}
    (nests : scan.Nests nesting) : other.Nests nesting := by
  have isTree := (scanned_eq accepted).1
  have otherTree := (scanned_eq otherAccepted).1
  have scanned := nests.scanned
  rw [isTree] at scanned
  refine ⟨?_, ?_, nests.maps, nests.holds⟩
  · rw [otherTree]
    exact (SourceTree.scanned_perm same accepted otherAccepted).mem_iff.mp scanned
  · rw [otherTree, ← isTree]
    exact nests.nearest

theorem nests_perm (same : roots.Perm others) (accepted : tree.scanRoots roots = .ok scan)
    (otherAccepted : tree.scanRoots others = .ok other) (nesting : Nesting) :
    scan.Nests nesting ↔ other.Nests nesting :=
  ⟨.perm same accepted otherAccepted, .perm same.symm otherAccepted accepted⟩

theorem hasChild_perm (same : roots.Perm others) (accepted : tree.scanRoots roots = .ok scan)
    (otherAccepted : tree.scanRoots others = .ok other) :
    scan.build.HasChild = other.build.HasChild := by
  funext parent child
  rw [eq_iff_iff, build_hasChild_iff accepted, build_hasChild_iff otherAccepted]
  simp only [nests_perm same accepted otherAccepted]

theorem nodup_refusedNestings (scan : Scan) : scan.refusedNestings.Nodup := by
  refine (scan.pairwise_nestings.filter _).imp ?_
  rintro first second before rfl
  exact Before.irrefl scan first before

theorem refusedNestings_perm (same : roots.Perm others) (accepted : tree.scanRoots roots = .ok scan)
    (otherAccepted : tree.scanRoots others = .ok other) :
    scan.refusedNestings.Perm other.refusedNestings := by
  rw [List.perm_ext_iff_of_nodup scan.nodup_refusedNestings other.nodup_refusedNestings]
  intro nesting
  rw [mem_refusedNestings accepted, mem_refusedNestings otherAccepted,
    nests_perm same accepted otherAccepted]

/-- The order of the roots decides neither whether a scan succeeds nor, but for orders and for the
cycles that are named, what model is built of it. -/
theorem build_perm (tree : SourceTree) {roots others : List ElementId} (same : roots.Perm others) :
    ((∃ scan, tree.scanRoots roots = .ok scan) ↔ ∃ other, tree.scanRoots others = .ok other) ∧
      ∀ scan other, tree.scanRoots roots = .ok scan → tree.scanRoots others = .ok other →
        (∀ key, key ∈ scan.build.keys ↔ key ∈ other.build.keys) ∧
        (∀ key member, member ∈ scan.build.membersOf key ↔ member ∈ other.build.membersOf key) ∧
        (∀ parent child, scan.build.HasChild parent child ↔ other.build.HasChild parent child) ∧
        (∀ id, scan.build.featureFor? id = other.build.featureFor? id) ∧
        (scan.build.diagnostics.filter fun diagnostic => diagnostic.kind != .cycle).Perm
          (other.build.diagnostics.filter fun diagnostic => diagnostic.kind != .cycle) ∧
        (scan.HasCycle ↔ other.HasCycle) ∧
        scan.build.maxSeverity? = other.build.maxSeverity? ∧
        ∀ policy : FailurePolicy,
          policy.isFailure scan.build.diagnostics = policy.isFailure other.build.diagnostics := by
  refine ⟨?_, ?_⟩
  · rw [SourceTree.scanRoots_ok_iff, SourceTree.scanRoots_ok_iff]
    exact ⟨.perm same, .perm same.symm⟩
  · intro scan other accepted otherAccepted
    have reachable (element : Element) :
        tree.Reachable roots element ↔ tree.Reachable others element :=
      SourceTree.reachable_perm same element
    have children := hasChild_perm same accepted otherAccepted
    have problems : (scan.build.diagnostics.filter fun diagnostic => diagnostic.kind != .cycle).Perm
        (other.build.diagnostics.filter fun diagnostic => diagnostic.kind != .cycle) := by
      rw [filter_not_cycle accepted, filter_not_cycle otherAccepted]
      exact ((SourceTree.scanned_perm same accepted otherAccepted).flatMap_right _).append
        ((refusedNestings_perm same accepted otherAccepted).map _)
    have cycles : scan.HasCycle ↔ other.HasCycle := by
      rw [hasCycle_iff, hasCycle_iff, children]
    have severities (severity : Severity) :
        scan.build.HasSeverity severity ↔ other.build.HasSeverity severity := by
      rw [hasSeverity_iff, hasSeverity_iff, (problems.map Diagnostic.severity).mem_iff, cycles]
    refine ⟨?_, ?_, ?_, ?_, problems, cycles, FeatureModel.maxSeverity?_congr severities,
      FeatureModel.isFailure_congr severities⟩
    · intro key
      rw [mem_keys_iff accepted, mem_keys_iff otherAccepted]
      simp only [reachable]
    · intro key member
      rw [mem_membersOf_iff accepted, mem_membersOf_iff otherAccepted]
      simp only [reachable]
    · intro parent child
      rw [children]
    · intro id
      apply Option.ext
      intro feature
      rw [featureFor?_eq_some_iff accepted, featureFor?_eq_some_iff otherAccepted]
      simp only [reachable]

def stalls : SourceTree :=
  .ofOutlines [
    { name := "Stall"
      annotations := [.mapping { targetConcept := "Sales" }]
      children := [{
        kind := .method
        name := "pay"
        annotations := [.mapping { targetConcept := "Payments" }] }] },
    { name := "Booth"
      annotations := [.mapping { targetConcept := "Payments" }, .feature {}]
      children := [{
        kind := .method
        name := "sell"
        annotations := [.mapping { targetConcept := "Sales" }] }] }]

def stallsScan (visited : List ElementId) : Scan :=
  { tree := stalls, visited, pairs := (stalls.elementsOf visited).flatMap Element.pairs }

theorem stalls_reversed :
    [0, 2].Perm [2, 0] ∧ stalls.scanRoots [0, 2] = .ok (stallsScan [0, 1, 2, 3]) ∧
      stalls.scanRoots [2, 0] = .ok (stallsScan [2, 3, 0, 1]) ∧
      ((stallsScan [0, 1, 2, 3]).HasCycle ↔ (stallsScan [2, 3, 0, 1]).HasCycle) ∧
      (stallsScan [0, 1, 2, 3]).build.maxSeverity? =
        (stallsScan [2, 3, 0, 1]).build.maxSeverity? := by
  have same : [0, 2].Perm [2, 0] := by decide
  have accepted : stalls.scanRoots [0, 2] = .ok (stallsScan [0, 1, 2, 3]) :=
    SourceTree.scanRoots_of_runWithin (stallsScan [0, 1, 2, 3]) 8 rfl
  have reversed : stalls.scanRoots [2, 0] = .ok (stallsScan [2, 3, 0, 1]) :=
    SourceTree.scanRoots_of_runWithin (stallsScan [2, 3, 0, 1]) 8 rfl
  obtain ⟨_, _, _, _, _, cycles, worst, _⟩ := (build_perm stalls same).2 _ _ accepted reversed
  exact ⟨same, accepted, reversed, cycles, worst⟩

end Scan

end FeatureAtlas
