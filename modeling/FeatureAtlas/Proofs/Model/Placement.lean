import FeatureAtlas.Proofs.Model.Indexing
import FeatureAtlas.Proofs.Model.Mapping

/-!
What the declarations leave behind: a node for every key, in the order of the first mapping to it,
and the nodes of every mapped element, in the order of its first mapping. No node has an edge.
-/

namespace FeatureAtlas

def nodesOf? (mappings : List Mapping) (id : ElementId) : Option (List NodeIndex) :=
  if id ∈ mappedIds mappings then
    some ((keysOf mappings id).map fun key => (nodeKeys mappings).idxOf key)
  else none

theorem idxOf_nodeKeys_snoc {mappings : List Mapping} (mapping : Mapping) {key : NodeKey}
    (member : key ∈ nodeKeys mappings) :
    (nodeKeys (mappings ++ [mapping])).idxOf key = (nodeKeys mappings).idxOf key := by
  rw [nodeKeys_snoc]
  split
  · rfl
  · exact List.idxOf_append_of_mem member

theorem mem_map_idxOf_iff {keys chosen : List NodeKey} {key : NodeKey} (within : chosen ⊆ keys) :
    keys.idxOf key ∈ chosen.map (fun other => keys.idxOf other) ↔ key ∈ chosen := by
  constructor
  · intro found
    obtain ⟨other, otherMember, same⟩ := List.mem_map.mp found
    rw [List.idxOf_inj (within otherMember)] at same
    exact same ▸ otherMember
  · exact fun found => List.mem_map_of_mem found

theorem getD_nodesOf? (mappings : List Mapping) (id : ElementId) :
    (nodesOf? mappings id).getD [] =
      (keysOf mappings id).map fun key => (nodeKeys mappings).idxOf key := by
  rw [nodesOf?]
  split
  · rfl
  · rename_i absent
    rw [keysOf_eq_nil absent]
    rfl

theorem isSome_nodesOf? {mappings : List Mapping} {id : ElementId} :
    (nodesOf? mappings id).isSome = true ↔ id ∈ mappedIds mappings := by
  rw [nodesOf?]
  split <;> simp_all

theorem map_idxOf_keysOf_snoc (mappings : List Mapping) (mapping : Mapping) (id : ElementId) :
    ((keysOf mappings id).map fun key => (nodeKeys (mappings ++ [mapping])).idxOf key) =
      (keysOf mappings id).map fun key => (nodeKeys mappings).idxOf key := by
  apply List.map_congr_left
  intro key member
  exact idxOf_nodeKeys_snoc mapping (mem_nodeKeys_of_mem_keysOf member)

theorem nodesOf?_snoc_same (mappings : List Mapping) (mapping : Mapping) :
    nodesOf? (mappings ++ [mapping]) mapping.element.id =
      let nodes := (nodesOf? mappings mapping.element.id).getD []
      let node := (nodeKeys (mappings ++ [mapping])).idxOf mapping.key
      some (if nodes.contains node then nodes else nodes ++ [node]) := by
  have within : keysOf mappings mapping.element.id ⊆ nodeKeys (mappings ++ [mapping]) := by
    intro key member
    rw [nodeKeys_snoc]
    split
    · exact mem_nodeKeys_of_mem_keysOf member
    · exact List.mem_append_left _ (mem_nodeKeys_of_mem_keysOf member)
  have listed : mapping.element.id ∈ mappedIds (mappings ++ [mapping]) := by
    rw [mappedIds_snoc]
    split
    · assumption
    · simp
  rw [getD_nodesOf?, ← map_idxOf_keysOf_snoc mappings mapping, nodesOf?, if_pos listed,
    keysOf_snoc_same]
  simp only [List.contains_iff_mem, mem_map_idxOf_iff within]
  split <;> simp

theorem nodesOf?_snoc_other (mappings : List Mapping) {mapping : Mapping} {id : ElementId}
    (different : id ≠ mapping.element.id) :
    nodesOf? (mappings ++ [mapping]) id = nodesOf? mappings id := by
  have listed : id ∈ mappedIds (mappings ++ [mapping]) ↔ id ∈ mappedIds mappings := by
    rw [mappedIds_snoc]
    split
    · rfl
    · simp [different]
  rw [nodesOf?, nodesOf?, keysOf_snoc_other different.symm, map_idxOf_keysOf_snoc]
  exact if_congr listed rfl rfl

namespace Assembly

/-- A node for every key, with an entry in the index, an entry for every mapped element, and no
edges. -/
structure Declares (assembly : Assembly) (mappings : List Mapping) : Prop where
  keys : assembly.model.keys = nodeKeys mappings
  indexed : assembly.model.Indexed
  mapped : assembly.mapped.get? = nodesOf? mappings
  order : assembly.mappedOrder = mappedIds mappings
  unlinked : ∀ node ∈ assembly.model.nodes, node.children = [] ∧ node.parents = []
  unoriginated : assembly.origins = []

theorem Declares.feature {assembly : Assembly} {mappings : List Mapping}
    (declares : assembly.Declares mappings) (element : Element)
    (declaration : FeatureDeclaration) :
    (assembly.declareFeature element declaration).Declares mappings := by
  obtain ⟨keys, indexed, mapped, order, unlinked, unoriginated⟩ := declares
  rw [declareFeature]
  split
  · exact ⟨keys, indexed, mapped, order, unlinked, unoriginated⟩
  · split
    · exact ⟨keys, indexed, mapped, order, unlinked, unoriginated⟩
    · exact ⟨keys, indexed, mapped, order, unlinked, unoriginated⟩

/-- What is there when the node for a mapping has been found or made, before the element joins. -/
structure Resolves (assembly : Assembly) (mapping : Mapping) (mappings : List Mapping)
    (resolved : NodeIndex × Assembly) : Prop where
  index : resolved.1 = (nodeKeys (mappings ++ [mapping])).idxOf mapping.key
  keys : resolved.2.model.keys = nodeKeys (mappings ++ [mapping])
  indexed : resolved.2.model.Indexed
  mapped : resolved.2.mapped = assembly.mapped
  order : resolved.2.mappedOrder = assembly.mappedOrder
  unlinked : ∀ node ∈ resolved.2.model.nodes, node.children = [] ∧ node.parents = []
  origins : resolved.2.origins = assembly.origins

theorem Declares.resolve {assembly : Assembly} {mappings : List Mapping}
    (declares : assembly.Declares mappings) (mapping : Mapping) :
    assembly.Resolves mapping mappings (assembly.resolve mapping.key) := by
  have length : assembly.model.nodes.length = (nodeKeys mappings).length := by
    rw [← declares.keys, FeatureModel.keys, List.length_map]
  rw [Assembly.resolve, declares.indexed.indexOf?_eq, declares.keys]
  by_cases known : mapping.key ∈ nodeKeys mappings
  · have same : nodeKeys (mappings ++ [mapping]) = nodeKeys mappings := by
      rw [nodeKeys_snoc, if_pos known]
    simp only [known, if_true]
    exact ⟨congrArg (List.idxOf mapping.key) same.symm, declares.keys.trans same.symm,
      declares.indexed, rfl, rfl, declares.unlinked, rfl⟩
  · have grown : nodeKeys (mappings ++ [mapping]) = nodeKeys mappings ++ [mapping.key] := by
      rw [nodeKeys_snoc, if_neg known]
    simp only [known, if_false]
    refine ⟨?_, ?_, ?_, rfl, rfl, ?_, rfl⟩
    · rw [grown, List.idxOf_append_of_notMem known, length]
      simp
    · rw [grown, ← declares.keys]
      exact FeatureModel.keys_addNode mapping.key
    · exact declares.indexed.addNode (declares.keys ▸ known)
    · intro node member
      rcases List.mem_append.mp member with old | new
      · exact declares.unlinked node old
      · rw [List.mem_singleton.mp new]
        exact ⟨rfl, rfl⟩

theorem Declares.mapping {assembly : Assembly} {mappings : List Mapping}
    (declares : assembly.Declares mappings) (mapping : Mapping) :
    ((assembly.resolve mapping.key).2.join mapping.element
      (assembly.resolve mapping.key).1).Declares (mappings ++ [mapping]) := by
  have resolves := declares.resolve mapping
  refine ⟨?_, ?_, ?_, ?_, ?_, ?_⟩
  · exact (FeatureModel.keys_addMember _ _).trans resolves.keys
  · exact resolves.indexed.addMember _ _
  · funext id
    rw [join, Dictionary.get?_put, resolves.mapped, declares.mapped, resolves.index]
    by_cases same : id = mapping.element.id
    · rw [if_pos same, same, nodesOf?_snoc_same]
    · rw [if_neg same, nodesOf?_snoc_other mappings same]
  · rw [mappedIds_snoc, join, resolves.mapped, resolves.order, declares.order,
      Dictionary.contains, declares.mapped]
    exact if_congr isSome_nodesOf? rfl rfl
  · intro node member
    simp only [join, FeatureModel.addMember] at member
    obtain ⟨position, found⟩ := List.mem_iff_getElem?.mp member
    rw [List.getElem?_modify] at found
    obtain ⟨old, oldFound, changed⟩ := Option.map_eq_some_iff.mp found
    have oldUnlinked := resolves.unlinked old (List.mem_of_getElem? oldFound)
    split at changed
    · rw [← changed]
      exact oldUnlinked
    · exact changed ▸ oldUnlinked
  · exact resolves.origins.trans declares.unoriginated

theorem Declares.declare {assembly : Assembly} {mappings : List Mapping}
    (declares : assembly.Declares mappings) (pair : ScanPair) :
    (assembly.declare pair).Declares (mappings ++ pair.mapping?.toList) := by
  obtain ⟨element, declared⟩ := pair
  cases declared with
  | feature declaration =>
      simp only [Assembly.declare, ScanPair.mapping?, Annotation.mappedKey?, Option.map_none,
        Option.toList_none, List.append_nil]
      exact declares.feature element declaration
  | other =>
      simpa [Assembly.declare, ScanPair.mapping?, Annotation.mappedKey?] using declares
  | mapping declaration =>
      by_cases blank : isBlank declaration.targetConcept = true
      · simp only [Assembly.declare, declareMapping, ScanPair.mapping?, Annotation.mappedKey?,
          blank, if_true, Option.map_none, Option.toList_none, List.append_nil]
        obtain ⟨keys, indexed, mapped, order, unlinked, unoriginated⟩ := declares
        exact ⟨keys, indexed, mapped, order, unlinked, unoriginated⟩
      · simp only [Assembly.declare, declareMapping, ScanPair.mapping?, Annotation.mappedKey?,
          blank]
        exact declares.mapping { element, key := declaration.key }

theorem declareAll_declares (pairs : List ScanPair) :
    (({} : Assembly).declareAll pairs).Declares (mappingsOf pairs) := by
  induction pairs using List.reverseRecOn with
  | nil =>
      have mapped : ({} : Dictionary ElementId (List NodeIndex)).get? = nodesOf? [] := by
        funext id
        simp [nodesOf?, mappedIds]
      exact ⟨rfl, FeatureModel.indexed_empty, mapped, rfl, by simp [declareAll], rfl⟩
  | append_singleton pairs pair ih =>
      rw [mappingsOf_snoc, declareAll, List.foldl_append]
      exact ih.declare pair

end Assembly

end FeatureAtlas
