import Mathlib.Data.List.Nodup
import Mathlib.Data.List.Perm.Subperm
import FeatureAtlas.Proofs.Model.Linking

/-!
Containment follows the nesting of the source. An element is nested in its nearest proper ancestor
with a mapping, and the edges of a model are those from the nodes of the one to the nodes of the
other that differ and that their levels allow.
-/

namespace FeatureAtlas

/-- The nearest proper ancestor of an element that takes part in a node. -/
inductive SourceTree.NearestMapped (tree : SourceTree) : Element → Element → Prop
  | here {element parent : Element} : tree.parentOf? element = some parent →
      parent.mappedKeys ≠ [] → NearestMapped tree element parent
  | beyond {element parent ancestor : Element} : tree.parentOf? element = some parent →
      parent.mappedKeys = [] → NearestMapped tree parent ancestor →
      NearestMapped tree element ancestor

namespace SourceTree

variable {tree : SourceTree}

theorem NearestMapped.exists_parent {element ancestor : Element}
    (nearest : tree.NearestMapped element ancestor) :
    ∃ parent, tree.parentOf? element = some parent := by
  cases nearest with
  | here isParent _ => exact ⟨_, isParent⟩
  | beyond isParent _ _ => exact ⟨_, isParent⟩

theorem nearestMapped_iff {element parent ancestor : Element}
    (isParent : tree.parentOf? element = some parent) :
    tree.NearestMapped element ancestor ↔
      parent.mappedKeys ≠ [] ∧ ancestor = parent ∨
        parent.mappedKeys = [] ∧ tree.NearestMapped parent ancestor := by
  constructor
  · intro nearest
    cases nearest with
    | here other mapped =>
        rw [isParent, Option.some.injEq] at other
        exact .inl ⟨other ▸ mapped, other.symm⟩
    | beyond other unmapped further =>
        rw [isParent, Option.some.injEq] at other
        subst other
        exact .inr ⟨unmapped, further⟩
  · rintro (⟨mapped, rfl⟩ | ⟨unmapped, further⟩)
    · exact .here isParent mapped
    · exact .beyond isParent unmapped further

theorem NearestMapped.unique {element first second : Element}
    (one : tree.NearestMapped element first) (other : tree.NearestMapped element second) :
    first = second := by
  induction one with
  | here isParent mapped =>
      rcases (nearestMapped_iff isParent).mp other with ⟨_, same⟩ | ⟨unmapped, _⟩
      · exact same.symm
      · exact absurd unmapped mapped
  | beyond isParent unmapped _ ih =>
      rcases (nearestMapped_iff isParent).mp other with ⟨mapped, _⟩ | ⟨_, further⟩
      · exact absurd unmapped mapped
      · exact ih further

theorem NearestMapped.mapped {element ancestor : Element}
    (nearest : tree.NearestMapped element ancestor) : ancestor.mappedKeys ≠ [] := by
  induction nearest with
  | here _ mapped => exact mapped
  | beyond _ _ _ ih => exact ih

theorem Lists.parent {ids : List ElementId} (listed : tree.Lists ids) {element parent : Element}
    (member : element ∈ tree.elementsOf ids) (isParent : tree.parentOf? element = some parent) :
    parent ∈ tree.elementsOf ids ∧ ids.idxOf parent.id < ids.idxOf element.id := by
  obtain ⟨memberId, found⟩ := mem_elementsOf.mp member
  obtain ⟨parentId, named, parentFound⟩ := Option.bind_eq_some_iff.mp isParent
  obtain ⟨earlier, before⟩ := listed.rooted element.id memberId element found parentId named
  rw [← (get?_id parentFound).1] at earlier before parentFound
  exact ⟨mem_elementsOf.mpr ⟨earlier, parentFound⟩, before⟩

theorem Lists.findSome?_ancestors {ids : List ElementId} (listed : tree.Lists ids) {α : Type}
    {found : Element → Option α}
    (mapped : ∀ element ∈ tree.elementsOf ids, found element ≠ none ↔ element.mappedKeys ≠ [])
    {steps : Nat} {element : Element} (member : element ∈ tree.elementsOf ids)
    (enough : ids.idxOf element.id ≤ steps) (value : α) :
    (tree.ancestorsWithin steps element).findSome? found = some value ↔
      ∃ ancestor, tree.NearestMapped element ancestor ∧ found ancestor = some value := by
  induction steps generalizing element with
  | zero =>
      constructor
      · simp [ancestorsWithin]
      · rintro ⟨ancestor, nearest, _⟩
        obtain ⟨parent, isParent⟩ := nearest.exists_parent
        have before := (listed.parent member isParent).2
        omega
  | succ steps ih =>
      rw [ancestorsWithin]
      cases isParent : tree.parentOf? element with
      | none =>
          constructor
          · simp
          · rintro ⟨ancestor, nearest, _⟩
            obtain ⟨parent, other⟩ := nearest.exists_parent
            simp [isParent] at other
      | some parent =>
          obtain ⟨parentMember, before⟩ := listed.parent member isParent
          have step := ih parentMember (by omega)
          have parentMapped := mapped parent parentMember
          simp only [List.findSome?_cons, nearestMapped_iff isParent]
          cases isFound : found parent with
          | some first =>
              have nonempty := parentMapped.mp (by simp [isFound])
              simp [nonempty, isFound]
          | none =>
              have empty : parent.mappedKeys = [] := by
                by_contra nonempty
                exact parentMapped.mpr nonempty isFound
              simpa [empty] using step

theorem Lists.length_le_size {ids : List ElementId} (listed : tree.Lists ids) :
    ids.length ≤ tree.size := by
  have within : ids ⊆ List.range tree.size := by
    intro id member
    obtain ⟨element, found⟩ := listed.resolved id member
    exact List.mem_range.mpr (get?_id found).2
  have bound := (listed.distinct.subperm within).length_le
  rwa [List.length_range] at bound

theorem NearestMapped.listed {ids : List ElementId} (listed : tree.Lists ids)
    {element ancestor : Element} (nearest : tree.NearestMapped element ancestor)
    (member : element ∈ tree.elementsOf ids) : ancestor ∈ tree.elementsOf ids := by
  induction nearest with
  | here isParent _ => exact (listed.parent member isParent).1
  | beyond isParent _ _ ih => exact ih (listed.parent member isParent).1

end SourceTree

/-- Why there is an edge: the element that takes part in the child, its nearest mapped ancestor,
which takes part in the parent, and the keys of the two. -/
structure Nesting where
  element : Element
  ancestor : Element
  child : NodeKey
  parent : NodeKey

def Nesting.between (element ancestor : Element) : List Nesting :=
  element.mappedKeys.flatMap fun child =>
    ancestor.mappedKeys.map fun parent => { element, ancestor, child, parent }

def Nesting.attempt (keys : List NodeKey) (nesting : Nesting) : LinkAttempt :=
  { parent := keys.idxOf nesting.parent, child := keys.idxOf nesting.child,
    ancestor := nesting.ancestor, element := nesting.element }

theorem Nesting.mem_between {element ancestor : Element} {nesting : Nesting} :
    nesting ∈ Nesting.between element ancestor ↔
      nesting.element = element ∧ nesting.ancestor = ancestor ∧
        nesting.child ∈ element.mappedKeys ∧ nesting.parent ∈ ancestor.mappedKeys := by
  rw [Nesting.between, List.mem_flatMap]
  constructor
  · rintro ⟨child, childMember, inner⟩
    obtain ⟨parent, parentMember, rfl⟩ := List.mem_map.mp inner
    exact ⟨rfl, rfl, childMember, parentMember⟩
  · rintro ⟨rfl, rfl, childMember, parentMember⟩
    exact ⟨nesting.child, childMember, List.mem_map.mpr ⟨nesting.parent, parentMember, rfl⟩⟩

namespace Scan

/-- An element is nested in its nearest mapped ancestor, each with one of its nodes. -/
structure Nests (scan : Scan) (nesting : Nesting) : Prop where
  scanned : nesting.element ∈ scan.tree.elementsOf scan.visited
  nearest : scan.tree.NearestMapped nesting.element nesting.ancestor
  maps : nesting.child ∈ nesting.element.mappedKeys
  holds : nesting.parent ∈ nesting.ancestor.mappedKeys

/-- The place of a nesting: that of the first mapping of its element in scan order, then that of
the child among the nodes of the element, then that of the parent among those of the ancestor. -/
def place (scan : Scan) (nesting : Nesting) : Nat × Nat × Nat :=
  ((mappedIds scan.mappings).idxOf nesting.element.id,
    nesting.element.mappedKeys.idxOf nesting.child,
    nesting.ancestor.mappedKeys.idxOf nesting.parent)

def Before (scan : Scan) (first second : Nesting) : Prop :=
  Prod.Lex (· < ·) (Prod.Lex (· < ·) (· < ·)) (scan.place first) (scan.place second)

def nestingsAt (scan : Scan) (id : ElementId) : List Nesting :=
  match scan.tree.get? id, nearestPlaced? scan.tree (nodesOf? scan.mappings) id with
  | some element, some (ancestor, _) => Nesting.between element ancestor
  | _, _ => []

def nestings (scan : Scan) : List Nesting := (mappedIds scan.mappings).flatMap scan.nestingsAt

variable {tree : SourceTree} {roots : List ElementId} {scan : Scan}

theorem mappings_eq (accepted : tree.scanRoots roots = .ok scan) :
    scan.mappings = scan.tree.mappings scan.visited := by
  obtain ⟨same, _, declared⟩ := SourceTree.scanRoots_sound accepted
  rw [mappings, declared, mappingsOf_flatMap, same, SourceTree.mappings]

theorem listed (accepted : tree.scanRoots roots = .ok scan) : scan.tree.Lists scan.visited := by
  obtain ⟨same, listed, _⟩ := SourceTree.scanRoots_sound accepted
  exact same ▸ listed

theorem mem_mappedIds_iff (accepted : tree.scanRoots roots = .ok scan) {element : Element}
    (member : element ∈ scan.tree.elementsOf scan.visited) :
    element.id ∈ mappedIds scan.mappings ↔ element.mappedKeys ≠ [] := by
  rw [mappings_eq accepted, SourceTree.mem_mappedIds_mappings]
  constructor
  · rintro ⟨other, otherMember, same, mapped⟩
    have found := (SourceTree.mem_elementsOf.mp otherMember).2
    rw [same, (SourceTree.mem_elementsOf.mp member).2, Option.some.injEq] at found
    exact found ▸ mapped
  · exact fun mapped => ⟨element, member, rfl, mapped⟩

theorem nodesOf?_scanned (accepted : tree.scanRoots roots = .ok scan) {element : Element}
    (member : element ∈ scan.tree.elementsOf scan.visited) :
    nodesOf? scan.mappings element.id =
      if element.mappedKeys ≠ [] then
        some (element.mappedKeys.map fun key => (nodeKeys scan.mappings).idxOf key)
      else none := by
  have own : keysOf scan.mappings element.id = element.mappedKeys := by
    rw [mappings_eq accepted]
    exact (listed accepted).keysOf_mappings member
  rw [nodesOf?, own]
  exact if_congr (mem_mappedIds_iff accepted member) rfl rfl

theorem nearestPlaced?_eq_some (accepted : tree.scanRoots roots = .ok scan) {element : Element}
    (member : element ∈ scan.tree.elementsOf scan.visited) (ancestor : Element)
    (above : List NodeIndex) :
    nearestPlaced? scan.tree (nodesOf? scan.mappings) element.id = some (ancestor, above) ↔
      scan.tree.NearestMapped element ancestor ∧
        above = ancestor.mappedKeys.map fun key => (nodeKeys scan.mappings).idxOf key := by
  have known := listed accepted
  obtain ⟨memberId, found⟩ := SourceTree.mem_elementsOf.mp member
  have enough : scan.visited.idxOf element.id ≤ scan.tree.size :=
    Nat.le_trans List.idxOf_le_length known.length_le_size
  rw [nearestPlaced?, SourceTree.ancestors, found]
  refine (known.findSome?_ancestors ?_ member enough (ancestor, above)).trans ?_
  · intro other otherMember
    rw [nodesOf?_scanned accepted otherMember]
    by_cases mapped : other.mappedKeys = [] <;> simp [mapped]
  · constructor
    · rintro ⟨nearest, isNearest, placed⟩
      have nearestMember := isNearest.listed known member
      rw [nodesOf?_scanned accepted nearestMember, if_pos isNearest.mapped,
        Option.map_some, Option.some.injEq, Prod.mk.injEq] at placed
      obtain ⟨rfl, rfl⟩ := placed
      exact ⟨isNearest, rfl⟩
    · rintro ⟨isNearest, rfl⟩
      refine ⟨ancestor, isNearest, ?_⟩
      rw [nodesOf?_scanned accepted (isNearest.listed known member), if_pos isNearest.mapped]
      rfl

theorem nestingsAt_of_nearest (accepted : tree.scanRoots roots = .ok scan)
    {element ancestor : Element}
    (member : element ∈ scan.tree.elementsOf scan.visited)
    (nearest : scan.tree.NearestMapped element ancestor) :
    scan.nestingsAt element.id = Nesting.between element ancestor := by
  have placed := (nearestPlaced?_eq_some accepted member ancestor _).mpr ⟨nearest, rfl⟩
  rw [nestingsAt, (SourceTree.mem_elementsOf.mp member).2, placed]

theorem nestingsAt_of_isolated (accepted : tree.scanRoots roots = .ok scan) {element : Element}
    (member : element ∈ scan.tree.elementsOf scan.visited)
    (isolated : ∀ ancestor, ¬scan.tree.NearestMapped element ancestor) :
    scan.nestingsAt element.id = [] := by
  rw [nestingsAt, (SourceTree.mem_elementsOf.mp member).2]
  cases placed : nearestPlaced? scan.tree (nodesOf? scan.mappings) element.id with
  | none => rfl
  | some found =>
      obtain ⟨ancestor, above⟩ := found
      exact absurd ((nearestPlaced?_eq_some accepted member ancestor above).mp placed).1
        (isolated ancestor)

theorem mem_nestings (accepted : tree.scanRoots roots = .ok scan) {nesting : Nesting} :
    nesting ∈ scan.nestings ↔ scan.Nests nesting := by
  rw [nestings, List.mem_flatMap]
  constructor
  · rintro ⟨id, idMember, inner⟩
    have source := idMember
    rw [mappings_eq accepted, SourceTree.mem_mappedIds_mappings] at source
    obtain ⟨element, member, rfl, _⟩ := source
    rw [nestingsAt, (SourceTree.mem_elementsOf.mp member).2] at inner
    split at inner
    · rename_i found ancestor above same nearest
      rw [Option.some.injEq] at same
      subst same
      obtain ⟨rfl, rfl, childMember, parentMember⟩ := Nesting.mem_between.mp inner
      exact ⟨member, ((nearestPlaced?_eq_some accepted member _ _).mp nearest).1, childMember,
        parentMember⟩
    · simp at inner
  · intro nests
    have mapped : nesting.element.mappedKeys ≠ [] := List.ne_nil_of_mem nests.maps
    refine ⟨nesting.element.id, (mem_mappedIds_iff accepted nests.scanned).mpr mapped, ?_⟩
    have nearest := (nearestPlaced?_eq_some accepted nests.scanned _ _).mpr ⟨nests.nearest, rfl⟩
    rw [nestingsAt, (SourceTree.mem_elementsOf.mp nests.scanned).2, nearest]
    exact Nesting.mem_between.mpr ⟨rfl, rfl, nests.maps, nests.holds⟩

theorem attempts_eq (accepted : tree.scanRoots roots = .ok scan) :
    scan.attempts = scan.nestings.map (Nesting.attempt (nodeKeys scan.mappings)) := by
  rw [attempts, linkAttempts, nestings, List.map_flatMap]
  apply List.flatMap_congr
  intro id idMember
  rw [mappings_eq accepted, SourceTree.mem_mappedIds_mappings] at idMember
  obtain ⟨element, member, rfl, mapped⟩ := idMember
  rw [attemptsFor, nestingsAt, (SourceTree.mem_elementsOf.mp member).2,
    nodesOf?_scanned accepted member, if_pos mapped]
  cases nearest : nearestPlaced? scan.tree (nodesOf? scan.mappings) element.id with
  | none => rfl
  | some found =>
      obtain ⟨ancestor, above⟩ := found
      obtain ⟨_, rfl⟩ := (nearestPlaced?_eq_some accepted member ancestor above).mp nearest
      simp only [Nesting.between, List.flatMap_map, List.map_flatMap, List.map_map]
      rfl

/-! The order of the nestings. -/

theorem pairwise_between (scan : Scan) (element ancestor : Element) :
    (Nesting.between element ancestor).Pairwise scan.Before := by
  rw [Nesting.between, List.pairwise_flatMap]
  refine ⟨?_, ?_⟩
  · intro child _
    rw [List.pairwise_map]
    refine (pairwise_idxOf (nodup_eraseDups _)).imp ?_
    exact fun before => .right _ (.right _ before)
  · refine (pairwise_idxOf (nodup_eraseDups _)).imp ?_
    rintro first second before nesting nestingMember other otherMember
    obtain ⟨_, _, rfl⟩ := List.mem_map.mp nestingMember
    obtain ⟨_, _, rfl⟩ := List.mem_map.mp otherMember
    exact .right _ (.left _ _ before)

theorem nestingsAt_id {id : ElementId} {nesting : Nesting} (member : nesting ∈ scan.nestingsAt id) :
    nesting.element.id = id := by
  rw [nestingsAt] at member
  split at member
  · rename_i element ancestor above found _
    rw [(Nesting.mem_between.mp member).1]
    exact (SourceTree.get?_id found).1
  · simp at member

theorem pairwise_nestings (scan : Scan) : scan.nestings.Pairwise scan.Before := by
  rw [nestings, List.pairwise_flatMap]
  refine ⟨?_, ?_⟩
  · intro id _
    rw [nestingsAt]
    split
    · exact scan.pairwise_between _ _
    · exact .nil
  · refine (pairwise_idxOf (nodup_mappedIds _)).imp ?_
    rintro first second before nesting nestingMember other otherMember
    refine .left _ _ ?_
    rwa [nestingsAt_id nestingMember, nestingsAt_id otherMember]

/-! The edges of the model. -/

theorem Nests.mem_nodeKeys (accepted : tree.scanRoots roots = .ok scan) {nesting : Nesting}
    (nests : scan.Nests nesting) :
    nesting.child ∈ nodeKeys scan.mappings ∧ nesting.parent ∈ nodeKeys scan.mappings := by
  have known := listed accepted
  have above := nests.nearest.listed known nests.scanned
  rw [mappings_eq accepted]
  constructor
  · apply mem_nodeKeys_of_mem_keysOf
    rw [known.keysOf_mappings nests.scanned]
    exact nests.maps
  · apply mem_nodeKeys_of_mem_keysOf
    rw [known.keysOf_mappings above]
    exact nests.holds

theorem keyIn_idxOf {keys : List NodeKey} {key : NodeKey} (member : key ∈ keys) :
    FeatureModel.keyIn keys (keys.idxOf key) = key := by
  simp [FeatureModel.keyIn, List.getElem?_idxOf member]

structure Witnesses (scan : Scan) (parent child : NodeKey) (nesting : Nesting) : Prop where
  nests : scan.Nests nesting
  isParent : nesting.parent = parent
  isChild : nesting.child = child

def admittedBelow (scan : Scan) (parent : NodeIndex) : List Nesting :=
  scan.nestings.filter fun nesting =>
    (nesting.attempt (nodeKeys scan.mappings)).admitted (nodeKeys scan.mappings) &&
      (nodeKeys scan.mappings).idxOf nesting.parent == parent

theorem build_children_eq (accepted : tree.scanRoots roots = .ok scan) (parent : NodeIndex) :
    scan.build.childIndices parent =
      ((scan.admittedBelow parent).map fun nesting =>
        (nodeKeys scan.mappings).idxOf nesting.child).eraseDups := by
  rw [build_children, childrenOfAttempts, attempts_eq accepted, List.filter_map, List.map_map]
  rfl

theorem mem_admittedBelow (accepted : tree.scanRoots roots = .ok scan) {parent : NodeIndex}
    {nesting : Nesting} :
    nesting ∈ scan.admittedBelow parent ↔
      scan.Nests nesting ∧ (nodeKeys scan.mappings).idxOf nesting.parent = parent ∧
        nesting.parent ≠ nesting.child ∧
        nesting.parent.granularity.rank ≤ nesting.child.granularity.rank := by
  rw [admittedBelow, List.mem_filter, mem_nestings accepted]
  constructor
  · rintro ⟨nests, chosen⟩
    obtain ⟨childMember, parentMember⟩ := nests.mem_nodeKeys accepted
    simp only [LinkAttempt.admitted, Nesting.attempt, Bool.and_eq_true, decide_eq_true_eq,
      beq_iff_eq, keyIn_idxOf parentMember, keyIn_idxOf childMember, ne_eq,
      List.idxOf_inj parentMember, Granularity.canContain] at chosen
    exact ⟨nests, chosen.2, chosen.1.1, chosen.1.2⟩
  · rintro ⟨nests, isParent, different, below⟩
    obtain ⟨childMember, parentMember⟩ := nests.mem_nodeKeys accepted
    simp only [LinkAttempt.admitted, Nesting.attempt, Bool.and_eq_true, decide_eq_true_eq,
      beq_iff_eq, keyIn_idxOf parentMember, keyIn_idxOf childMember, ne_eq,
      List.idxOf_inj parentMember, Granularity.canContain]
    exact ⟨nests, ⟨different, below⟩, isParent⟩

theorem nodes_key (scan : Scan) {index : NodeIndex} {node : FeatureNode}
    (found : scan.build.nodes[index]? = some node) :
    scan.build.keyAt index = node.key ∧ (nodeKeys scan.mappings).idxOf node.key = index := by
  have isKey : (nodeKeys scan.mappings)[index]? = some node.key := by
    rw [← build_keys, FeatureModel.keys, List.getElem?_map, found, Option.map_some]
  refine ⟨by simp [FeatureModel.keyAt, found], ?_⟩
  obtain ⟨bound, stored⟩ := List.getElem?_eq_some_iff.mp isKey
  rw [← stored]
  exact (nodup_nodeKeys _).idxOf_getElem index bound

theorem exists_node (scan : Scan) {key : NodeKey} (member : key ∈ nodeKeys scan.mappings) :
    ∃ node, scan.build.nodes[(nodeKeys scan.mappings).idxOf key]? = some node ∧ node.key = key := by
  have isKey := List.getElem?_idxOf member
  rw [← build_keys, FeatureModel.keys, List.getElem?_map, Option.map_eq_some_iff] at isKey
  rw [← build_keys]
  exact isKey

theorem mem_admittedBelow_iff (accepted : tree.scanRoots roots = .ok scan)
    {parent child : NodeIndex} {container content : FeatureNode}
    (found : scan.build.nodes[parent]? = some container)
    (contentFound : scan.build.nodes[child]? = some content) {nesting : Nesting} :
    nesting ∈ scan.admittedBelow parent ∧ (nodeKeys scan.mappings).idxOf nesting.child = child ↔
      parent ≠ child ∧ container.key.granularity.rank ≤ content.key.granularity.rank ∧
        scan.Witnesses container.key content.key nesting := by
  have parentPlace := (scan.nodes_key found).2
  have childPlace := (scan.nodes_key contentFound).2
  rw [mem_admittedBelow accepted]
  constructor
  · rintro ⟨⟨nests, isParent, different, below⟩, isChild⟩
    obtain ⟨childMember, parentMember⟩ := nests.mem_nodeKeys accepted
    have parentKey : nesting.parent = container.key := by
      rwa [← parentPlace, List.idxOf_inj parentMember] at isParent
    have childKey : nesting.child = content.key := by
      rwa [← childPlace, List.idxOf_inj childMember] at isChild
    refine ⟨?_, ?_, nests, parentKey, childKey⟩
    · rwa [← isParent, ← isChild, ne_eq, List.idxOf_inj parentMember]
    · rwa [← parentKey, ← childKey]
  · rintro ⟨different, below, nests, parentKey, childKey⟩
    rw [parentKey, childKey, parentPlace, childPlace]
    refine ⟨⟨nests, rfl, ?_, below⟩, rfl⟩
    intro equal
    exact different (by rw [← parentPlace, ← childPlace, equal])

theorem mem_children_iff (accepted : tree.scanRoots roots = .ok scan) {parent : NodeIndex}
    {container : FeatureNode} (found : scan.build.nodes[parent]? = some container)
    (child : NodeIndex) :
    child ∈ container.children ↔
      ∃ content, scan.build.nodes[child]? = some content ∧ parent ≠ child ∧
        container.key.granularity.rank ≤ content.key.granularity.rank ∧
        ∃ nesting, scan.Witnesses container.key content.key nesting := by
  rw [← FeatureModel.childIndices_eq found, build_children_eq accepted, List.mem_eraseDups,
    List.mem_map]
  constructor
  · rintro ⟨nesting, admitted, isChild⟩
    have nests := ((mem_admittedBelow accepted).mp admitted).1
    obtain ⟨content, contentFound, _⟩ := scan.exists_node (nests.mem_nodeKeys accepted).1
    rw [isChild] at contentFound
    obtain ⟨different, below, witnesses⟩ :=
      (mem_admittedBelow_iff accepted found contentFound).mp ⟨admitted, isChild⟩
    exact ⟨content, contentFound, different, below, nesting, witnesses⟩
  · rintro ⟨content, contentFound, different, below, nesting, witnesses⟩
    exact ⟨nesting, (mem_admittedBelow_iff accepted found contentFound).mpr
      ⟨different, below, witnesses⟩⟩

theorem pairwise_children (accepted : tree.scanRoots roots = .ok scan) {parent : NodeIndex}
    {container : FeatureNode} (found : scan.build.nodes[parent]? = some container) :
    container.children.Pairwise fun first second =>
      ∃ nesting, scan.Witnesses container.key (scan.build.keyAt first) nesting ∧
        ∀ other, scan.Witnesses container.key (scan.build.keyAt second) other →
          scan.Before nesting other := by
  have ordered : (scan.admittedBelow parent).Pairwise scan.Before :=
    scan.pairwise_nestings.filter _
  have chosen := eraseDups_map_pairwise
    (fun nesting : Nesting => (nodeKeys scan.mappings).idxOf nesting.child) ordered
  rw [← build_children_eq accepted, FeatureModel.childIndices_eq found] at chosen
  refine chosen.imp_of_mem ?_
  rintro first second firstMember secondMember ⟨nesting, admitted, isFirst, ahead⟩
  obtain ⟨firstNode, firstFound, _⟩ := (mem_children_iff accepted found first).mp firstMember
  obtain ⟨secondNode, secondFound, different, below, _⟩ :=
    (mem_children_iff accepted found second).mp secondMember
  rw [(scan.nodes_key firstFound).1, (scan.nodes_key secondFound).1]
  refine ⟨nesting, ?_, ?_⟩
  · exact ((mem_admittedBelow_iff accepted found firstFound).mp ⟨admitted, isFirst⟩).2.2
  · intro other witnesses
    obtain ⟨otherAdmitted, isSecond⟩ :=
      (mem_admittedBelow_iff accepted found secondFound).mpr ⟨different, below, witnesses⟩
    exact ahead other otherAdmitted isSecond

/-- The children of a node are the nodes nested in it, as far as their levels allow, each once and
in the order of the first nesting. Edges come from nestings in nearest ancestors alone. -/
theorem build_contains_exactly_nested (accepted : tree.scanRoots roots = .ok scan) :
    (∀ (parent : NodeIndex) (container : FeatureNode),
      scan.build.nodes[parent]? = some container →
        (∀ child : NodeIndex, child ∈ container.children ↔
          ∃ content, scan.build.nodes[child]? = some content ∧ parent ≠ child ∧
            container.key.granularity.rank ≤ content.key.granularity.rank ∧
            ∃ nesting, scan.Witnesses container.key content.key nesting) ∧
        container.children.Nodup ∧
        container.children.Pairwise fun first second =>
          ∃ nesting, scan.Witnesses container.key (scan.build.keyAt first) nesting ∧
            ∀ other, scan.Witnesses container.key (scan.build.keyAt second) other →
              scan.Before nesting other) ∧
    ∀ origin ∈ (Assembly.ofScan scan).origins,
      ∃ nesting, scan.Nests nesting ∧ origin = (nesting.attempt scan.build.keys).origin := by
  refine ⟨?_, ?_⟩
  · intro parent container found
    refine ⟨mem_children_iff accepted found, ?_, pairwise_children accepted found⟩
    rw [← FeatureModel.childIndices_eq found, build_children_eq accepted]
    exact nodup_eraseDups _
  · intro origin recorded
    obtain ⟨attempt, attempted, _, isOrigin⟩ := scan.ofScan_links.origins origin recorded
    rw [attempts_eq accepted] at attempted
    obtain ⟨nesting, member, rfl⟩ := List.mem_map.mp attempted
    rw [build_keys]
    exact ⟨nesting, (mem_nestings accepted).mp member, isOrigin⟩

def shop : SourceTree :=
  .ofOutlines [{
    name := "Shop"
    annotations := [.mapping { targetConcept := "Sales", granularity := .module }]
    children := [{
      kind := .method
      name := "total"
      children := [{
        kind := .field
        name := "price"
        annotations := [.mapping { targetConcept := "Prices", granularity := .data }] }] }] }]

def shopScan : Scan :=
  { tree := shop, visited := [0, 1, 2], pairs := shop.elements.flatMap Element.pairs }

theorem shop_contains_prices :
    shop.scanRoots shop.roots = .ok shopScan ∧
      ∃ sales prices, shopScan.build.nodes[0]? = some sales ∧
        shopScan.build.nodes[1]? = some prices ∧ 1 ∈ sales.children ∧
        ∃ nesting, shopScan.Witnesses sales.key prices.key nesting := by
  have accepted : shop.scanRoots shop.roots = .ok shopScan :=
    SourceTree.scanRoots_of_runWithin shopScan 6 rfl
  have linked : shopScan.build.childIndices 0 = [1] := by
    rw [build_children]
    rfl
  obtain ⟨sales, found, member⟩ := FeatureModel.exists_of_mem_childIndices
    (linked ▸ List.mem_singleton.mpr rfl)
  obtain ⟨prices, pricesFound, _, _, nesting⟩ :=
    (((build_contains_exactly_nested accepted).1 0 sales found).1 1).mp member
  exact ⟨accepted, sales, prices, found, pricesFound, member, nesting⟩

end Scan

end FeatureAtlas
