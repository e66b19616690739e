import Mathlib.Algebra.GroupWithZero.Nat
import Mathlib.Data.List.Nodup
import FeatureAtlas.Export.Document
import FeatureAtlas.Proofs.Model.Linking

/-!
The nodes of a model hang together at every point of its assembly: keys tell them apart, each has a
name and members, and every edge stands at both of its ends, once at each. What queries, documents
and counts say of the nodes follows from that.
-/

namespace FeatureAtlas

/-! Members. -/

theorem nodup_addElement {members : List ElementRef} (element : ElementRef)
    (distinct : (members.map ElementRef.id).Nodup) :
    ((addElement members element).map ElementRef.id).Nodup := by
  rw [addElement]
  split
  · exact distinct
  · rename_i fresh
    rw [List.map_append, List.nodup_append]
    refine ⟨distinct, by simp, ?_⟩
    intro id member other single same
    obtain ⟨known, knownMember, isId⟩ := List.mem_map.mp member
    rw [List.map_singleton, List.mem_singleton] at single
    apply fresh
    rw [List.any_eq_true]
    exact ⟨known, knownMember, by rw [isId, same, single, beq_self_eq_true]⟩

theorem addElement_ne_nil (members : List ElementRef) (element : ElementRef) :
    addElement members element ≠ [] := by
  rw [addElement]
  split
  · rename_i known
    rintro rfl
    simp at known
  · simp

namespace FeatureModel

def parentIndices (model : FeatureModel) (index : NodeIndex) : List NodeIndex :=
  (model.nodes[index]?.map FeatureNode.parents).getD []

def childTotal (model : FeatureModel) : Nat :=
  (model.nodes.map fun node => node.children.length).sum

def parentTotal (model : FeatureModel) : Nat :=
  (model.nodes.map fun node => node.parents.length).sum

theorem edgeCount_eq (model : FeatureModel) : model.edgeCount = model.childTotal :=
  List.sum_eq_foldl.symm

variable {model : FeatureModel}

theorem lt_of_mem_childIndices {parent child : NodeIndex}
    (member : child ∈ model.childIndices parent) : parent < model.nodes.length := by
  obtain ⟨node, found, _⟩ := exists_of_mem_childIndices member
  exact (List.getElem?_eq_some_iff.mp found).1

theorem lt_of_mem_parentIndices {parent child : NodeIndex}
    (member : parent ∈ model.parentIndices child) : child < model.nodes.length := by
  by_contra beyond
  rw [parentIndices, List.getElem?_eq_none (Nat.le_of_not_lt beyond)] at member
  simp at member

/-! What the operations leave in place. -/

theorem nodes_addMember_map {β : Type} {value : FeatureNode → β} (index : NodeIndex)
    (element : ElementRef)
    (kept : ∀ node, value { node with members := addElement node.members element } = value node) :
    (model.addMember index element).nodes.map value = model.nodes.map value :=
  map_modify kept

theorem childIndices_addMember (index : NodeIndex) (element : ElementRef) (parent : NodeIndex) :
    (model.addMember index element).childIndices parent = model.childIndices parent := by
  rw [childIndices, childIndices, ← List.getElem?_map, ← List.getElem?_map,
    nodes_addMember_map index element fun _ => rfl]

theorem parentIndices_addMember (index : NodeIndex) (element : ElementRef) (child : NodeIndex) :
    (model.addMember index element).parentIndices child = model.parentIndices child := by
  rw [parentIndices, parentIndices, ← List.getElem?_map, ← List.getElem?_map,
    nodes_addMember_map index element fun _ => rfl]

theorem childIndices_addNode (key : NodeKey) (parent : NodeIndex) :
    (model.addNode key).childIndices parent = model.childIndices parent :=
  getD_addNode rfl parent

theorem parentIndices_addNode (key : NodeKey) (child : NodeIndex) :
    (model.addNode key).parentIndices child = model.parentIndices child :=
  getD_addNode rfl child

theorem keyAt_addNode {index : NodeIndex} (bound : index < model.nodes.length) (key : NodeKey) :
    (model.addNode key).keyAt index = model.keyAt index := by
  rw [keyAt, keyAt, addNode, List.getElem?_append_left bound]

theorem parentIndices_addEdge {child : NodeIndex} (bound : child < model.nodes.length)
    (parent other : NodeIndex) :
    (model.addEdge parent child).parentIndices other =
      if other = child then model.parentIndices child ++ [parent]
      else model.parentIndices other := by
  simp only [parentIndices, addEdge, List.getElem?_modify]
  by_cases here : other = child
  · subst here
    by_cases self : parent = other
    · simp [self, bound]
    · simp [self, bound]
  · have elsewhere : ¬child = other := Ne.symm here
    cases model.nodes[other]? with
    | none => simp [here]
    | some node =>
        by_cases self : parent = other
        · simp [here, elsewhere, self]
        · simp [here, elsewhere, self]

theorem sum_modify_succ {nodes : List FeatureNode} {index : NodeIndex}
    {change : FeatureNode → FeatureNode} {size : FeatureNode → Nat}
    (grown : ∀ node, size (change node) = size node + 1) (bound : index < nodes.length) :
    ((nodes.modify index change).map size).sum = (nodes.map size).sum + 1 := by
  induction nodes generalizing index with
  | nil => simp at bound
  | cons node rest ih =>
      cases index with
      | zero =>
          simp only [List.modify_zero_cons, List.map_cons, List.sum_cons, grown]
          omega
      | succ index =>
          have later := @ih index (by simpa using bound)
          simp only [List.modify_succ_cons, List.map_cons, List.sum_cons, later]
          omega

theorem childTotal_addEdge {parent : NodeIndex} (bound : parent < model.nodes.length)
    (child : NodeIndex) : (model.addEdge parent child).childTotal = model.childTotal + 1 := by
  refine (congrArg List.sum (map_modify ?_)).trans (sum_modify_succ ?_ bound)
  · exact fun _ => rfl
  · exact fun node => by simp

theorem parentTotal_addEdge {child : NodeIndex} (bound : child < model.nodes.length)
    (parent : NodeIndex) : (model.addEdge parent child).parentTotal = model.parentTotal + 1 := by
  refine (sum_modify_succ ?_ (by simpa using bound)).trans
    (congrArg (List.sum · + 1) (map_modify ?_))
  · exact fun node => by simp
  · exact fun _ => rfl

/-! The edges. -/

/-- Keys tell the nodes apart, the index is in step with them, and every edge stands at both of its
ends, once at each. -/
structure Woven (model : FeatureModel) : Prop where
  distinct : model.keys.Nodup
  inStep : model.Indexed
  named : ∀ key ∈ model.keys, isBlank key.name = false
  mirrored : ∀ parent child,
    child ∈ model.childIndices parent ↔ parent ∈ model.parentIndices child
  once : ∀ index, (model.childIndices index).Nodup ∧ (model.parentIndices index).Nodup
  loopless : ∀ index, index ∉ model.childIndices index
  levels : ∀ parent child, child ∈ model.childIndices parent →
    (model.keyAt parent).granularity.canContain (model.keyAt child).granularity = true
  balanced : model.childTotal = model.parentTotal

theorem Woven.inRange (woven : model.Woven) {parent child : NodeIndex}
    (member : child ∈ model.childIndices parent) :
    parent < model.nodes.length ∧ child < model.nodes.length :=
  ⟨lt_of_mem_childIndices member, lt_of_mem_parentIndices ((woven.mirrored parent child).mp member)⟩

theorem mem_keys_of_lt {index : NodeIndex} (bound : index < model.nodes.length) :
    model.keyAt index ∈ model.keys := by
  rw [keyAt, List.getElem?_eq_getElem bound, Option.map_some, Option.getD_some]
  exact List.mem_map_of_mem (List.getElem_mem bound)

theorem Woven.of_nodes {changed : FeatureModel} (woven : model.Woven)
    (same : changed.nodes = model.nodes) (sameIndex : changed.index = model.index) :
    changed.Woven := by
  obtain ⟨nodes, index, features, diagnostics⟩ := model
  obtain ⟨_, _, changedFeatures, changedDiagnostics⟩ := changed
  cases same
  cases sameIndex
  exact ⟨woven.distinct, woven.inStep, woven.named, woven.mirrored, woven.once, woven.loopless,
    woven.levels, woven.balanced⟩

theorem Woven.addMember (woven : model.Woven) (index : NodeIndex) (element : ElementRef) :
    (model.addMember index element).Woven := by
  have keys : (model.addMember index element).keys = model.keys := keys_addMember index element
  refine ⟨?_, woven.inStep.addMember index element, ?_, ?_, ?_, ?_, ?_, ?_⟩
  · rw [keys]
    exact woven.distinct
  · rw [keys]
    exact woven.named
  · intro parent child
    rw [childIndices_addMember, parentIndices_addMember]
    exact woven.mirrored parent child
  · intro other
    rw [childIndices_addMember, parentIndices_addMember]
    exact woven.once other
  · intro other
    rw [childIndices_addMember]
    exact woven.loopless other
  · intro parent child
    rw [childIndices_addMember, keyAt_eq, keyAt_eq, keys, ← keyAt_eq, ← keyAt_eq]
    exact woven.levels parent child
  · rw [childTotal, parentTotal, nodes_addMember_map index element fun _ => rfl,
      nodes_addMember_map index element fun _ => rfl]
    exact woven.balanced

theorem Woven.addNode (woven : model.Woven) {key : NodeKey} (fresh : key ∉ model.keys)
    (named : isBlank key.name = false) : (model.addNode key).Woven := by
  have keys : (model.addNode key).keys = model.keys ++ [key] := keys_addNode key
  refine ⟨?_, woven.inStep.addNode fresh, ?_, ?_, ?_, ?_, ?_, ?_⟩
  · rw [keys, ← List.concat_eq_append]
    exact List.Nodup.concat fresh woven.distinct
  · intro other member
    rw [keys] at member
    rcases List.mem_append.mp member with old | new
    · exact woven.named other old
    · exact List.mem_singleton.mp new ▸ named
  · intro parent child
    rw [childIndices_addNode, parentIndices_addNode]
    exact woven.mirrored parent child
  · intro index
    rw [childIndices_addNode, parentIndices_addNode]
    exact woven.once index
  · intro index
    rw [childIndices_addNode]
    exact woven.loopless index
  · intro parent child member
    rw [childIndices_addNode] at member
    obtain ⟨parentBound, childBound⟩ := woven.inRange member
    rw [keyAt_addNode parentBound, keyAt_addNode childBound]
    exact woven.levels parent child member
  · have total := woven.balanced
    rw [childTotal, parentTotal] at total
    simp [childTotal, parentTotal, FeatureModel.addNode, FeatureNode.new, total]

theorem Woven.mirrored_addEdge (woven : model.Woven) {parent child : NodeIndex}
    (parentBound : parent < model.nodes.length) (childBound : child < model.nodes.length)
    (above below : NodeIndex) :
    below ∈ (model.addEdge parent child).childIndices above ↔
      above ∈ (model.addEdge parent child).parentIndices below := by
  rw [childIndices_addEdge parentBound, parentIndices_addEdge childBound]
  have mirrored := woven.mirrored above below
  by_cases isParent : above = parent
  · by_cases isChild : below = child
    · simp [isParent, isChild]
    · subst isParent
      simp [isChild, mirrored]
  · by_cases isChild : below = child
    · subst isChild
      simp [isParent, mirrored]
    · simp [isParent, isChild, mirrored]

theorem Woven.levels_addEdge (woven : model.Woven) {parent child : NodeIndex}
    (parentBound : parent < model.nodes.length)
    (contains :
      (model.keyAt parent).granularity.canContain (model.keyAt child).granularity = true)
    {above below : NodeIndex} (isChild : below ∈ (model.addEdge parent child).childIndices above) :
    (model.keyAt above).granularity.canContain (model.keyAt below).granularity = true := by
  rw [childIndices_addEdge parentBound] at isChild
  split at isChild
  · rename_i here
    subst here
    rcases List.mem_append.mp isChild with old | new
    · exact woven.levels above below old
    · exact List.mem_singleton.mp new ▸ contains
  · exact woven.levels above below isChild

theorem Woven.addEdge (woven : model.Woven) {parent child : NodeIndex}
    (parentBound : parent < model.nodes.length) (childBound : child < model.nodes.length)
    (different : parent ≠ child) (fresh : child ∉ model.childIndices parent)
    (contains :
      (model.keyAt parent).granularity.canContain (model.keyAt child).granularity = true) :
    (model.addEdge parent child).Woven := by
  have keys := keys_addEdge model parent child
  have freshParent : parent ∉ model.parentIndices child := by
    rwa [← woven.mirrored]
  refine ⟨?_, woven.inStep.addEdge parent child, ?_, ?_, ?_, ?_, ?_, ?_⟩
  · rw [keys]
    exact woven.distinct
  · rw [keys]
    exact woven.named
  · exact woven.mirrored_addEdge parentBound childBound
  · intro index
    rw [childIndices_addEdge parentBound, parentIndices_addEdge childBound]
    constructor
    · split
      · exact List.concat_eq_append ▸ List.Nodup.concat fresh (woven.once parent).1
      · exact (woven.once index).1
    · split
      · exact List.concat_eq_append ▸ List.Nodup.concat freshParent (woven.once child).2
      · exact (woven.once index).2
  · intro index
    rw [childIndices_addEdge parentBound]
    split
    · rename_i here
      subst here
      simp [woven.loopless index, different]
    · exact woven.loopless index
  · intro above below member
    rw [keyAt_eq, keyAt_eq, keys, ← keyAt_eq, ← keyAt_eq]
    exact woven.levels_addEdge parentBound contains member
  · rw [childTotal_addEdge parentBound, parentTotal_addEdge childBound, woven.balanced]

/-! The whole of the nodes. -/

structure Coherent (model : FeatureModel) : Prop extends model.Woven where
  peopled : ∀ node ∈ model.nodes, node.members ≠ [] ∧ (node.members.map ElementRef.id).Nodup

theorem coherent_empty : Coherent {} := by
  refine ⟨⟨?_, indexed_empty, ?_, ?_, ?_, ?_, ?_, rfl⟩, ?_⟩
  all_goals simp [keys, childIndices, parentIndices]

theorem Coherent.of_nodes {changed : FeatureModel} (coherent : model.Coherent)
    (same : changed.nodes = model.nodes) (sameIndex : changed.index = model.index) :
    changed.Coherent :=
  ⟨coherent.toWoven.of_nodes same sameIndex, same ▸ coherent.peopled⟩

theorem Coherent.addMember (coherent : model.Coherent) (index : NodeIndex)
    (element : ElementRef) : (model.addMember index element).Coherent := by
  refine ⟨coherent.toWoven.addMember index element, ?_⟩
  intro node member
  obtain ⟨position, found⟩ := List.mem_iff_getElem?.mp member
  rw [FeatureModel.addMember, List.getElem?_modify] at found
  obtain ⟨old, oldFound, changed⟩ := Option.map_eq_some_iff.mp found
  have people := coherent.peopled old (List.mem_of_getElem? oldFound)
  split at changed
  · rw [← changed]
    exact ⟨addElement_ne_nil _ _, nodup_addElement element people.2⟩
  · exact changed ▸ people

theorem Coherent.addNode_addMember (coherent : model.Coherent) {key : NodeKey}
    (fresh : key ∉ model.keys) (named : isBlank key.name = false) (element : ElementRef) :
    ((model.addNode key).addMember model.nodes.length element).Coherent := by
  refine ⟨(coherent.toWoven.addNode fresh named).addMember _ element, ?_⟩
  intro node member
  obtain ⟨position, found⟩ := List.mem_iff_getElem?.mp member
  rw [FeatureModel.addMember, List.getElem?_modify] at found
  obtain ⟨old, oldFound, changed⟩ := Option.map_eq_some_iff.mp found
  rw [addNode, List.getElem?_append] at oldFound
  split at changed
  · -- the node was created for this element
    rename_i here
    subst here
    rw [if_neg (Nat.lt_irrefl _), Nat.sub_self, List.getElem?_cons_zero, Option.some.injEq]
      at oldFound
    have alone : ((FeatureNode.new key).members.map ElementRef.id).Nodup := List.nodup_nil
    rw [← changed, ← oldFound]
    exact ⟨addElement_ne_nil [] element, nodup_addElement element alone⟩
  · rename_i elsewhere
    split at oldFound
    · exact changed ▸ coherent.peopled old (List.mem_of_getElem? oldFound)
    · rename_i beyond
      rw [List.getElem?_eq_none (by rw [List.length_singleton]; omega)] at oldFound
      simp at oldFound

theorem Coherent.addEdge (coherent : model.Coherent) {parent child : NodeIndex}
    (parentBound : parent < model.nodes.length) (childBound : child < model.nodes.length)
    (different : parent ≠ child) (fresh : child ∉ model.childIndices parent)
    (contains :
      (model.keyAt parent).granularity.canContain (model.keyAt child).granularity = true) :
    (model.addEdge parent child).Coherent := by
  refine ⟨coherent.toWoven.addEdge parentBound childBound different fresh contains, ?_⟩
  intro node member
  have listed := List.mem_map_of_mem (f := FeatureNode.members) member
  rw [members_addEdge] at listed
  obtain ⟨old, oldMember, same⟩ := List.mem_map.mp listed
  exact same ▸ coherent.peopled old oldMember

end FeatureModel

namespace Assembly

variable {assembly : Assembly}

theorem coherent_declare (coherent : assembly.model.Coherent) (pair : ScanPair) :
    (assembly.declare pair).model.Coherent := by
  obtain ⟨element, declared⟩ := pair
  cases declared with
  | other => exact coherent
  | feature declaration =>
      simp only [declare, declareFeature]
      split
      · exact coherent.of_nodes rfl rfl
      · split
        · exact coherent.of_nodes rfl rfl
        · exact coherent.of_nodes rfl rfl
  | mapping declaration =>
      simp only [declare, declareMapping]
      split
      · exact coherent.of_nodes rfl rfl
      · rename_i named
        rw [resolve, coherent.inStep.indexOf?_eq]
        by_cases known : declaration.key ∈ assembly.model.keys
        · simp only [known, if_true]
          exact coherent.addMember _ _
        · simp only [known, if_false]
          exact coherent.addNode_addMember known (Bool.eq_false_iff.mpr named) _

theorem coherent_declareAll (pairs : List ScanPair) :
    (({} : Assembly).declareAll pairs).model.Coherent := by
  induction pairs using List.reverseRecOn with
  | nil => exact FeatureModel.coherent_empty
  | append_singleton pairs pair ih =>
      rw [declareAll, List.foldl_append]
      exact coherent_declare ih pair

theorem length_link (attempt : LinkAttempt) :
    (assembly.link attempt).model.nodes.length = assembly.model.nodes.length := by
  simp only [link, connect]
  split
  · rfl
  · split
    · split
      · rfl
      · simp [FeatureModel.addEdge]
    · rfl

theorem coherent_link (coherent : assembly.model.Coherent) {attempt : LinkAttempt}
    (parentBound : attempt.parent < assembly.model.nodes.length)
    (childBound : attempt.child < assembly.model.nodes.length) :
    (assembly.link attempt).model.Coherent := by
  simp only [link]
  split
  · exact coherent
  · rename_i different
    split
    · rename_i contains
      rw [connect]
      split
      · exact coherent
      · rename_i fresh
        rw [FeatureModel.hasEdge, List.contains_iff_mem] at fresh
        exact coherent.addEdge parentBound childBound different fresh contains
    · exact coherent.of_nodes rfl rfl

theorem coherent_linkAll (coherent : assembly.model.Coherent) {attempts : List LinkAttempt}
    (bound : ∀ attempt ∈ attempts, attempt.parent < assembly.model.nodes.length ∧
      attempt.child < assembly.model.nodes.length) :
    (assembly.linkAll attempts).model.Coherent := by
  induction attempts generalizing assembly with
  | nil => exact coherent
  | cons attempt rest ih =>
      rw [linkAll, List.foldl_cons]
      obtain ⟨parentBound, childBound⟩ := bound attempt (by simp)
      refine ih (coherent_link coherent parentBound childBound) ?_
      intro other member
      rw [length_link]
      exact bound other (by simp [member])

end Assembly

/-! What follows for queries, documents and counts. -/

namespace FeatureModel

variable {model : FeatureModel}

/-- All that the nodes, the queries on them and their document agree on. -/
structure WellFormed (model : FeatureModel) : Prop extends model.Coherent where
  indexed : ∀ key index, model.indexOf? key = some index ↔
    ∃ node, model.nodes[index]? = some node ∧ node.key = key
  inRange : ∀ parent child, child ∈ model.childIndices parent ∨ parent ∈ model.parentIndices child →
    parent < model.nodes.length ∧ child < model.nodes.length
  counted : model.edgeCount = model.childTotal ∧ model.edgeCount = model.parentTotal
  documented : ∀ key, (model.document.node? key).isSome = (model.node? key).isSome ∧
    ∀ record, model.document.node? key = some record →
      record.key = key ∧ record.children = (model.childrenOf key).map FeatureNode.key

theorem map_key_nodesAt {indices : List NodeIndex}
    (bound : ∀ index ∈ indices, index < model.nodes.length) :
    (model.nodesAt indices).map FeatureNode.key = indices.map model.keyAt := by
  induction indices with
  | nil => rfl
  | cons index rest ih =>
      have found := List.getElem?_eq_getElem (bound index (by simp))
      have later := ih fun other member => bound other (by simp [member])
      rw [nodesAt] at later
      simp only [nodesAt, List.filterMap_cons, found, List.map_cons, later, keyAt,
        Option.map_some, Option.getD_some]

theorem Indexed.document_node? (indexed : model.Indexed) (key : NodeKey) :
    model.document.node? key = (model.node? key).map model.nodeRecord := by
  rw [ModelDocument.node?, document, List.find?_map, ← indexed.find?_eq_node? key]
  rfl

theorem Woven.map_key_childrenOf (woven : model.Woven) {key : NodeKey} {node : FeatureNode}
    (found : model.node? key = some node) :
    (model.childrenOf key).map FeatureNode.key = node.children.map model.keyAt := by
  obtain ⟨index, stored⟩ :=
    List.mem_iff_getElem?.mp (woven.inStep.node?_eq_some_iff.mp found).1
  have bound : ∀ child ∈ node.children, child < model.nodes.length := by
    intro child member
    rw [← childIndices_eq stored] at member
    exact (woven.inRange member).2
  rw [childrenOf, found, Option.map_some, Option.getD_some, map_key_nodesAt bound]

theorem Woven.documented (woven : model.Woven) {key : NodeKey} {record : NodeRecord}
    (found : model.document.node? key = some record) :
    record.key = key ∧ record.children = (model.childrenOf key).map FeatureNode.key := by
  rw [woven.inStep.document_node?, Option.map_eq_some_iff] at found
  obtain ⟨node, nodeFound, rfl⟩ := found
  exact ⟨(woven.inStep.node?_eq_some_iff.mp nodeFound).2, (woven.map_key_childrenOf nodeFound).symm⟩

theorem Coherent.wellFormed (coherent : model.Coherent) : model.WellFormed := by
  refine ⟨coherent, ?_, ?_, ?_, ?_⟩
  · exact fun key index => coherent.inStep.indexOf?_eq_some_iff
  · rintro parent child (down | up)
    · exact coherent.inRange down
    · exact coherent.inRange ((coherent.mirrored parent child).mpr up)
  · exact ⟨model.edgeCount_eq, model.edgeCount_eq.trans coherent.balanced⟩
  · intro key
    refine ⟨?_, fun record found => coherent.documented found⟩
    rw [coherent.inStep.document_node?, Option.isSome_map]

end FeatureModel

namespace Scan

theorem attempts_bound_declared (scan : Scan) {attempt : LinkAttempt}
    (member : attempt ∈ scan.attempts) :
    attempt.parent < (({} : Assembly).declareAll scan.pairs).model.nodes.length ∧
      attempt.child < (({} : Assembly).declareAll scan.pairs).model.nodes.length := by
  have length := congrArg List.length (Assembly.declareAll_declares scan.pairs).keys
  rw [FeatureModel.keys, List.length_map] at length
  rw [length]
  exact attempts_bound member

theorem build_coherent (scan : Scan) : scan.build.Coherent := by
  have linked := Assembly.coherent_linkAll (Assembly.coherent_declareAll scan.pairs)
    fun attempt member => scan.attempts_bound_declared member
  rw [build, Assembly.ofScan, Assembly.reportCycles, Assembly.reportAll_model, Assembly.contain,
    scan.declared_attempts]
  exact linked.of_nodes rfl rfl

/-- The index and the nodes are in step, and the nodes are well formed, after any number of
declarations, after any number of link attempts and in the model that is returned. -/
theorem wellFormed_throughout (scan : Scan) :
    let declared := ({} : Assembly).declareAll scan.pairs
    let attempts := linkAttempts scan.tree declared.mapped.get? declared.mappedOrder
    (∀ count, (({} : Assembly).declareAll (scan.pairs.take count)).model.WellFormed) ∧
      (∀ count, (declared.linkAll (attempts.take count)).model.WellFormed) ∧
      scan.build.WellFormed := by
  intro declared attempts
  refine ⟨?_, ?_, scan.build_coherent.wellFormed⟩
  · exact fun count => (Assembly.coherent_declareAll _).wellFormed
  · intro count
    have placed : attempts = scan.attempts := scan.declared_attempts
    refine (Assembly.coherent_linkAll (Assembly.coherent_declareAll scan.pairs) ?_).wellFormed
    rw [placed]
    exact fun attempt member => scan.attempts_bound_declared (List.mem_of_mem_take member)

end Scan

end FeatureAtlas
