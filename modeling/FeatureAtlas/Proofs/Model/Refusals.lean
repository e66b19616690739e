import FeatureAtlas.Proofs.Model.Coherence
import FeatureAtlas.Proofs.Model.Containment
import FeatureAtlas.Proofs.Model.Reporting

/-!
The links that are refused. Nothing that a scan nests is lost: each nesting of one node in another
is an edge of the model or one diagnostic, in the order of the nestings.
-/

namespace FeatureAtlas

namespace LinkAttempt

def refused (keys : List NodeKey) (attempt : LinkAttempt) : Bool :=
  decide (attempt.parent ≠ attempt.child) &&
    !(FeatureModel.keyIn keys attempt.parent).granularity.canContain
      (FeatureModel.keyIn keys attempt.child).granularity

def refusal (keys : List NodeKey) (attempt : LinkAttempt) : Diagnostic :=
  .unresolvedParent attempt.ancestor.toRef attempt.element.toRef
    (FeatureModel.keyIn keys attempt.parent) (FeatureModel.keyIn keys attempt.child)

end LinkAttempt

namespace Assembly

variable {assembly : Assembly}

theorem keys_link (attempt : LinkAttempt) :
    (assembly.link attempt).model.keys = assembly.model.keys := by
  simp only [link]
  split
  · rfl
  · split
    · rw [connect]
      split
      · rfl
      · exact FeatureModel.keys_addEdge _ _ _
    · rfl

theorem diagnostics_link {keys : List NodeKey} (keyed : assembly.model.keys = keys)
    (attempt : LinkAttempt) :
    (assembly.link attempt).model.diagnostics = assembly.model.diagnostics ++
      if attempt.refused keys then [attempt.refusal keys] else [] := by
  simp only [link, FeatureModel.keyAt_eq, keyed, LinkAttempt.refused, LinkAttempt.refusal]
  by_cases self : attempt.parent = attempt.child
  · simp [self]
  · by_cases contains : (FeatureModel.keyIn keys attempt.parent).granularity.canContain
        (FeatureModel.keyIn keys attempt.child).granularity = true
    · rw [if_neg self, if_pos contains, connect]
      split
      · simp [contains]
      · simp [contains, FeatureModel.addEdge]
    · simp [self, contains, report, note, FeatureModel.addDiagnostic]

theorem diagnostics_linkAll {keys : List NodeKey} (keyed : assembly.model.keys = keys)
    (attempts : List LinkAttempt) :
    (assembly.linkAll attempts).model.diagnostics = assembly.model.diagnostics ++
      (attempts.filter (LinkAttempt.refused keys)).map (LinkAttempt.refusal keys) := by
  induction attempts generalizing assembly with
  | nil => simp [linkAll]
  | cons attempt rest ih =>
      have later := ih ((keys_link attempt).trans keyed)
      rw [linkAll] at later
      rw [linkAll, List.foldl_cons, later, diagnostics_link keyed, List.append_assoc,
        List.filter_cons]
      split <;> rfl

end Assembly

theorem DeclarationProblem.early {element : ElementRef} {diagnostic : Diagnostic}
    (problem : DeclarationProblem element diagnostic) :
    diagnostic.kind = .emptyName ∨ diagnostic.kind = .duplicateFeature := by
  cases problem
  · exact .inl rfl
  · exact .inl rfl
  · exact .inr rfl

/-! The refused nestings of a scan. -/

namespace Nesting

def refusal (nesting : Nesting) : Diagnostic :=
  .unresolvedParent nesting.ancestor.toRef nesting.element.toRef nesting.parent nesting.child

def refused (nesting : Nesting) : Bool :=
  decide (nesting.child.granularity.rank < nesting.parent.granularity.rank)

theorem refused_attempt {keys : List NodeKey} {nesting : Nesting} (child : nesting.child ∈ keys)
    (parent : nesting.parent ∈ keys) :
    (nesting.attempt keys).refused keys = nesting.refused := by
  simp only [LinkAttempt.refused, attempt, Scan.keyIn_idxOf child, Scan.keyIn_idxOf parent,
    refused, Granularity.canContain, ne_eq, List.idxOf_inj parent]
  by_cases same : nesting.parent = nesting.child
  · simp [same]
  · simp only [same, not_false_eq_true, decide_true, Bool.true_and]
    by_cases below : nesting.child.granularity.rank < nesting.parent.granularity.rank
    · simp [below]
    · simp [below, Nat.le_of_not_lt below]

theorem refusal_attempt {keys : List NodeKey} {nesting : Nesting} (child : nesting.child ∈ keys)
    (parent : nesting.parent ∈ keys) :
    (nesting.attempt keys).refusal keys = nesting.refusal := by
  simp only [LinkAttempt.refusal, attempt, Scan.keyIn_idxOf child, Scan.keyIn_idxOf parent, refusal]

end Nesting

namespace FeatureModel

def HasChild (model : FeatureModel) (parent child : NodeKey) : Prop :=
  child ∈ (model.childrenOf parent).map FeatureNode.key

end FeatureModel

namespace Scan

variable {tree : SourceTree} {roots : List ElementId} {scan : Scan}

def refusedNestings (scan : Scan) : List Nesting := scan.nestings.filter Nesting.refused

theorem mem_refusedNestings (accepted : tree.scanRoots roots = .ok scan) {nesting : Nesting} :
    nesting ∈ scan.refusedNestings ↔ scan.Nests nesting ∧
      nesting.child.granularity.rank < nesting.parent.granularity.rank := by
  rw [refusedNestings, List.mem_filter, mem_nestings accepted, Nesting.refused, decide_eq_true_eq]

theorem refusals_eq (accepted : tree.scanRoots roots = .ok scan) :
    (scan.attempts.filter (LinkAttempt.refused (nodeKeys scan.mappings))).map
        (LinkAttempt.refusal (nodeKeys scan.mappings)) =
      scan.refusedNestings.map Nesting.refusal := by
  rw [attempts_eq accepted, List.filter_map, List.map_map, refusedNestings]
  have sameFilter : scan.nestings.filter
      (LinkAttempt.refused (nodeKeys scan.mappings) ∘ Nesting.attempt (nodeKeys scan.mappings)) =
        scan.nestings.filter Nesting.refused := by
    apply List.filter_congr
    intro nesting member
    obtain ⟨child, parent⟩ := ((mem_nestings accepted).mp member).mem_nodeKeys accepted
    exact Nesting.refused_attempt child parent
  rw [sameFilter]
  apply List.map_congr_left
  intro nesting member
  obtain ⟨child, parent⟩ :=
    ((mem_nestings accepted).mp (List.mem_filter.mp member).1).mem_nodeKeys accepted
  exact Nesting.refusal_attempt child parent

theorem build_diagnostics_eq (accepted : tree.scanRoots roots = .ok scan) :
    scan.build.diagnostics =
      (({} : Assembly).declareAll scan.pairs).model.diagnostics ++
        scan.refusedNestings.map Nesting.refusal ++
        scan.build.detectCycles (Assembly.ofScan scan).origins := by
  have declares := Assembly.declareAll_declares scan.pairs
  have contained : ((({} : Assembly).declareAll scan.pairs).contain scan.tree).model.diagnostics =
      (({} : Assembly).declareAll scan.pairs).model.diagnostics ++
        scan.refusedNestings.map Nesting.refusal := by
    rw [Assembly.contain, scan.declared_attempts, Assembly.diagnostics_linkAll declares.keys,
      ← refusals_eq accepted]
    rfl
  rw [FeatureModel.detectCycles_congr scan.build_nodes, ← contained, build, Assembly.ofScan,
    Assembly.reportCycles, Assembly.reportAll_model, Assembly.reportAll_origins]

theorem hasChild_iff (accepted : tree.scanRoots roots = .ok scan) {nesting : Nesting}
    (nests : scan.Nests nesting) :
    scan.build.HasChild nesting.parent nesting.child ↔ nesting.parent ≠ nesting.child ∧
      nesting.parent.granularity.rank ≤ nesting.child.granularity.rank := by
  obtain ⟨childMember, parentMember⟩ := nests.mem_nodeKeys accepted
  obtain ⟨container, containerFound, containerKey⟩ := scan.exists_node parentMember
  obtain ⟨content, contentFound, contentKey⟩ := scan.exists_node childMember
  have children := scan.build_coherent.map_key_childrenOf
    (scan.build_coherent.inStep.node?_key containerFound)
  have inside := mem_children_iff accepted containerFound
  rw [containerKey] at children inside
  rw [FeatureModel.HasChild, children, List.mem_map]
  constructor
  · rintro ⟨index, member, isChild⟩
    obtain ⟨found, stored, different, below, _⟩ := (inside index).mp member
    have foundKey : found.key = nesting.child := (scan.nodes_key stored).1.symm.trans isChild
    rw [foundKey] at below
    refine ⟨?_, below⟩
    intro same
    apply different
    rw [same, ← foundKey]
    exact (scan.nodes_key stored).2
  · rintro ⟨different, below⟩
    refine ⟨_, (inside _).mpr ⟨content, contentFound, ?_, ?_, nesting, nests, rfl, contentKey.symm⟩,
      (scan.nodes_key contentFound).1.trans contentKey⟩
    · rwa [ne_eq, List.idxOf_inj parentMember]
    · rwa [contentKey]

theorem Before.irrefl (scan : Scan) (nesting : Nesting) : ¬scan.Before nesting nesting := by
  intro before
  simp [Before, Prod.lex_def] at before

theorem filter_unresolved (accepted : tree.scanRoots roots = .ok scan) :
    scan.build.diagnostics.filter (fun diagnostic => diagnostic.kind == .unresolvedParent) =
      scan.refusedNestings.map Nesting.refusal := by
  have declared : (({} : Assembly).declareAll scan.pairs).model.diagnostics.filter
      (fun diagnostic => diagnostic.kind == .unresolvedParent) = [] := by
    rw [List.filter_eq_nil_iff]
    intro diagnostic member
    obtain ⟨pair, _, problem⟩ := Assembly.mem_declareAll member
    rcases problem.early with kind | kind <;> simp [kind]
  have cycles : (scan.build.detectCycles (Assembly.ofScan scan).origins).filter
      (fun diagnostic => diagnostic.kind == .unresolvedParent) = [] := by
    rw [List.filter_eq_nil_iff]
    intro diagnostic member
    obtain ⟨path, _, rfl⟩ := List.mem_map.mp member
    simp [FeatureModel.cycleDiagnostic, Diagnostic.cycle, Diagnostic.ofKind]
  rw [build_diagnostics_eq accepted, List.filter_append, List.filter_append, declared, cycles,
    List.nil_append, List.append_nil, List.filter_eq_self]
  intro diagnostic member
  obtain ⟨nesting, _, rfl⟩ := List.mem_map.mp member
  rfl

/-- The refused nestings are reported, each once and in their order, after the problems of
declarations and before the cycles. A nesting is of one and the same node, an edge of the model or
refused, and only one of these. -/
theorem build_accounts_for_nestings (accepted : tree.scanRoots roots = .ok scan) :
    ∃ refused : List Nesting,
      (∀ nesting, nesting ∈ refused ↔ scan.Nests nesting ∧
        nesting.child.granularity.rank < nesting.parent.granularity.rank) ∧
      refused.Pairwise scan.Before ∧ refused.Nodup ∧
      scan.build.diagnostics.filter (fun diagnostic => diagnostic.kind == .unresolvedParent) =
        refused.map Nesting.refusal ∧
      (∀ nesting ∈ refused,
        nesting.refusal.elements = [nesting.ancestor.toRef, nesting.element.toRef] ∧
        nesting.refusal.message =
          nesting.ancestor.qualifiedName ++ " (" ++ nesting.parent.display ++ ") cannot contain " ++
            nesting.element.qualifiedName ++ " (" ++ nesting.child.display ++ "): a " ++
            nesting.parent.granularity.name ++ " does not contain a " ++
            nesting.child.granularity.name) ∧
      (∃ earlier later : List Diagnostic,
        scan.build.diagnostics = earlier ++ refused.map Nesting.refusal ++ later ∧
        (∀ diagnostic ∈ earlier,
          diagnostic.kind = .emptyName ∨ diagnostic.kind = .duplicateFeature) ∧
        ∀ diagnostic ∈ later, diagnostic.kind = .cycle) ∧
      ∀ nesting, scan.Nests nesting →
        (nesting.parent = nesting.child ∧ ¬scan.build.HasChild nesting.parent nesting.child ∧
          nesting ∉ refused) ∨
        (nesting.parent ≠ nesting.child ∧ scan.build.HasChild nesting.parent nesting.child ∧
          nesting ∉ refused) ∨
        (nesting.parent ≠ nesting.child ∧ ¬scan.build.HasChild nesting.parent nesting.child ∧
          nesting ∈ refused) := by
  have ordered : scan.refusedNestings.Pairwise scan.Before := scan.pairwise_nestings.filter _
  refine ⟨scan.refusedNestings, fun _ => mem_refusedNestings accepted, ordered, ?_,
    filter_unresolved accepted, fun _ _ => ⟨rfl, rfl⟩,
    ⟨_, _, build_diagnostics_eq accepted, ?_, ?_⟩, ?_⟩
  · refine ordered.imp ?_
    rintro first second before rfl
    exact Before.irrefl scan first before
  · intro diagnostic member
    obtain ⟨pair, _, problem⟩ := Assembly.mem_declareAll member
    exact problem.early
  · intro diagnostic member
    obtain ⟨path, _, rfl⟩ := List.mem_map.mp member
    rfl
  · intro nesting nests
    rw [hasChild_iff accepted nests, mem_refusedNestings accepted]
    by_cases same : nesting.parent = nesting.child
    · left
      simp [same]
    · by_cases finer : nesting.child.granularity.rank < nesting.parent.granularity.rank
      · right; right
        exact ⟨same, by omega, nests, finer⟩
      · right; left
        exact ⟨same, ⟨same, by omega⟩, by omega⟩

def cart : SourceTree :=
  .ofOutlines [{
    name := "Cart"
    annotations := [.mapping { targetConcept := "Cart", granularity := .component }]
    children := [{
      name := "Sales"
      annotations := [.mapping { targetConcept := "Sales", granularity := .module }] }] }]

def cartScan : Scan :=
  { tree := cart, visited := [0, 1], pairs := cart.elements.flatMap Element.pairs }

def cartNesting : Nesting where
  element := cart.elements.getD 1 default
  ancestor := cart.elements.getD 0 default
  child := { name := "Sales", granularity := .module }
  parent := { name := "Cart", granularity := .component }

theorem cart_refuses_sales :
    cart.scanRoots cart.roots = .ok cartScan ∧
      cartNesting.refusal ∈ cartScan.build.diagnostics := by
  have accepted : cart.scanRoots cart.roots = .ok cartScan :=
    SourceTree.scanRoots_of_runWithin cartScan 5 rfl
  obtain ⟨refused, isRefused, _, _, reported, _⟩ := build_accounts_for_nestings accepted
  have nests : cartScan.Nests cartNesting := by
    refine ⟨?_, .here rfl ?_, ?_, ?_⟩
    · exact List.mem_filterMap.mpr ⟨1, by decide, rfl⟩
    · decide
    · decide
    · decide
  have member := (isRefused cartNesting).mpr ⟨nests, by decide⟩
  have inReport := List.mem_map_of_mem (f := Nesting.refusal) member
  rw [← reported] at inReport
  exact ⟨accepted, (List.mem_filter.mp inReport).1⟩

/-! One element with one of its nodes. -/

def Nesting.concerns (element : Element) (child : NodeKey) (nesting : Nesting) : Bool :=
  nesting.element == element && nesting.child == child

theorem filter_concerns_between {element : Element} {child : NodeKey}
    (maps : child ∈ element.mappedKeys) (ancestor : Element) :
    (Nesting.between element ancestor).filter (Nesting.concerns element child) =
      ancestor.mappedKeys.map fun parent => { element, ancestor, child, parent } := by
  rw [Nesting.between, List.filter_flatMap,
    flatMap_eq_of_nodup element.nodup_mappedKeys maps]
  · rw [List.filter_eq_self]
    intro nesting member
    obtain ⟨parent, _, rfl⟩ := List.mem_map.mp member
    simp [Nesting.concerns]
  · intro other _ different
    rw [List.filter_eq_nil_iff]
    intro nesting member
    obtain ⟨parent, _, rfl⟩ := List.mem_map.mp member
    simp [Nesting.concerns, different]

theorem filter_concerns_nestings (accepted : tree.scanRoots roots = .ok scan)
    {element ancestor : Element} (scanned : element ∈ scan.tree.elementsOf scan.visited)
    (nearest : scan.tree.NearestMapped element ancestor) {child : NodeKey}
    (maps : child ∈ element.mappedKeys) :
    scan.nestings.filter (Nesting.concerns element child) =
      ancestor.mappedKeys.map fun parent => { element, ancestor, child, parent } := by
  have mapped := (mem_mappedIds_iff accepted scanned).mpr (List.ne_nil_of_mem maps)
  rw [nestings, List.filter_flatMap, flatMap_eq_of_nodup (nodup_mappedIds _) mapped,
    nestingsAt_of_nearest accepted scanned nearest, filter_concerns_between maps]
  intro other _ different
  rw [List.filter_eq_nil_iff]
  intro nesting member concerned
  rw [Nesting.concerns, Bool.and_eq_true, beq_iff_eq] at concerned
  exact different (concerned.1 ▸ (nestingsAt_id member).symm)

/-- An element is reported with one of its nodes once for every node of the nearest mapped ancestor
whose level is finer, and that another node of the ancestor contains the node makes no difference.
So nothing is reported just where no node of the ancestor is finer. -/
theorem build_refuses_every_finer_level (accepted : tree.scanRoots roots = .ok scan) :
    ∃ refused : List Nesting,
      scan.build.diagnostics.filter (fun diagnostic => diagnostic.kind == .unresolvedParent) =
        refused.map Nesting.refusal ∧
      ∀ element ∈ scan.tree.elementsOf scan.visited, ∀ ancestor,
        scan.tree.NearestMapped element ancestor → ∀ child ∈ element.mappedKeys,
          (∀ container ∈ ancestor.mappedKeys, container ≠ child →
            container.granularity.canContain child.granularity = true →
              scan.build.HasChild container child) ∧
          refused.filter (Nesting.concerns element child) =
            (ancestor.mappedKeys.filter fun parent =>
              !parent.granularity.canContain child.granularity).map
                (fun parent => { element, ancestor, child, parent }) ∧
          ((∀ nesting ∈ refused, ¬(nesting.element = element ∧ nesting.child = child)) ↔
            ∀ parent ∈ ancestor.mappedKeys,
              parent.granularity.canContain child.granularity = true) := by
  refine ⟨scan.refusedNestings, filter_unresolved accepted, ?_⟩
  intro element scanned ancestor nearest child maps
  have own : scan.refusedNestings.filter (Nesting.concerns element child) =
      (ancestor.mappedKeys.filter fun parent =>
        !parent.granularity.canContain child.granularity).map
          fun parent => { element, ancestor, child, parent } := by
    rw [refusedNestings, List.filter_comm, filter_concerns_nestings accepted scanned nearest maps,
      List.filter_map]
    congr 1
    apply List.filter_congr
    intro parent _
    simp only [Function.comp_apply, Nesting.refused, Granularity.canContain]
    rw [← decide_not, decide_eq_decide, Nat.not_le]
  refine ⟨?_, own, ?_⟩
  · intro container holds different contains
    have nests : scan.Nests { element, ancestor, child, parent := container } :=
      ⟨scanned, nearest, maps, holds⟩
    apply (hasChild_iff accepted nests).mpr
    exact ⟨different, by simpa [Granularity.canContain] using contains⟩
  · have unreported : (∀ nesting ∈ scan.refusedNestings,
        ¬(nesting.element = element ∧ nesting.child = child)) ↔
          scan.refusedNestings.filter (Nesting.concerns element child) = [] := by
      simp [List.filter_eq_nil_iff, Nesting.concerns]
    rw [unreported, own, List.map_eq_nil_iff, List.filter_eq_nil_iff]
    simp

def till : SourceTree :=
  .ofOutlines [{
    name := "Till"
    annotations := [.mapping { targetConcept := "Sales", granularity := .module },
      .mapping { targetConcept := "Ledger", granularity := .data }]
    children := [{
      kind := .method
      name := "pay"
      annotations := [.mapping { targetConcept := "Payments", granularity := .component }] }] }]

def tillScan : Scan :=
  { tree := till, visited := [0, 1], pairs := till.elements.flatMap Element.pairs }

def tillNesting (parent : NodeKey) : Nesting where
  element := till.elements.getD 1 default
  ancestor := till.elements.getD 0 default
  child := { name := "Payments", granularity := .component }
  parent := parent

theorem till_accepted : till.scanRoots till.roots = .ok tillScan :=
  SourceTree.scanRoots_of_runWithin tillScan 5 rfl

theorem till_nests (parent : NodeKey)
    (holds : parent ∈ (tillNesting parent).ancestor.mappedKeys) :
    tillScan.Nests (tillNesting parent) := by
  refine ⟨?_, .here rfl (List.ne_nil_of_mem holds), ?_, holds⟩
  · exact List.mem_filterMap.mpr ⟨1, by decide, rfl⟩
  · have maps : { name := "Payments", granularity := .component } ∈
        (till.elements.getD 1 default).mappedKeys := by decide
    exact maps

theorem till_refuses_ledger :
    till.scanRoots till.roots = .ok tillScan ∧
      (tillNesting { name := "Ledger", granularity := .data }).refusal ∈
        tillScan.build.diagnostics := by
  obtain ⟨refused, reported, each⟩ := build_refuses_every_finer_level till_accepted
  have nests := till_nests { name := "Ledger", granularity := .data } (by decide)
  have own := (each _ nests.scanned _ nests.nearest _ nests.maps).2.1
  have member : tillNesting { name := "Ledger", granularity := .data } ∈ refused := by
    apply List.mem_of_mem_filter
    rw [own, List.mem_map]
    exact ⟨{ name := "Ledger", granularity := .data }, by decide, rfl⟩
  have inReport := List.mem_map_of_mem (f := Nesting.refusal) member
  rw [← reported] at inReport
  exact ⟨till_accepted, (List.mem_filter.mp inReport).1⟩

/-- The node of the method is contained in the one node of the class and is reported all the same,
because the other cannot contain it. -/
theorem till_refuses_contained_payments :
    till.scanRoots till.roots = .ok tillScan ∧
      tillScan.Nests (tillNesting { name := "Sales", granularity := .module }) ∧
      tillScan.build.HasChild { name := "Sales", granularity := .module }
        { name := "Payments", granularity := .component } ∧
      (tillScan.build.diagnostics.filter
        fun diagnostic => diagnostic.kind == .unresolvedParent).map Diagnostic.message =
          ["Till (Ledger [DATA]) cannot contain Till.pay (Payments [COMPONENT]): " ++
            "a DATA does not contain a COMPONENT"] := by
  have nests := till_nests { name := "Sales", granularity := .module } (by decide)
  refine ⟨till_accepted, nests, ?_, ?_⟩
  · exact (hasChild_iff till_accepted nests).mpr ⟨by decide, by decide⟩
  · rw [filter_unresolved till_accepted]
    rfl

end Scan

end FeatureAtlas
