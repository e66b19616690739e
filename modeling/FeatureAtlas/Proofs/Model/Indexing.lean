import Mathlib.Data.List.Nodup
import FeatureAtlas.Model.Graph

/-!
The index of a model in step with its nodes. What it keeps under a key is the position of the node
with that key, so that a query by way of the index finds what a search of the nodes would find.
-/

namespace FeatureAtlas

namespace FeatureModel

def keys (model : FeatureModel) : List NodeKey := model.nodes.map FeatureNode.key

/-- The index has an entry for each node, at the position of the node, and no other entry. -/
def Indexed (model : FeatureModel) : Prop :=
  ∀ key index, model.index.get? key = some index ↔ model.keys[index]? = some key

theorem indexed_empty : Indexed {} := by
  intro key index
  simp [keys]

variable {model changed : FeatureModel}

theorem map_modify {β : Type} {value : FeatureNode → β} {nodes : List FeatureNode}
    {index : NodeIndex} {change : FeatureNode → FeatureNode}
    (kept : ∀ node, value (change node) = value node) :
    (nodes.modify index change).map value = nodes.map value := by
  apply List.ext_getElem?
  intro position
  rw [List.getElem?_map, List.getElem?_map, List.getElem?_modify]
  cases nodes[position]? with
  | none => rfl
  | some node =>
      by_cases here : index = position
      · simp [here, kept]
      · simp [here]

theorem keys_addNode (key : NodeKey) : (model.addNode key).keys = model.keys ++ [key] := by
  simp [keys, addNode, FeatureNode.new]

theorem keys_addMember (index : NodeIndex) (element : ElementRef) :
    (model.addMember index element).keys = model.keys :=
  map_modify fun _ => rfl

theorem keys_addEdge (model : FeatureModel) (parent child : NodeIndex) :
    (model.addEdge parent child).keys = model.keys := by
  refine (map_modify ?_).trans (map_modify ?_)
  · exact fun _ => rfl
  · exact fun _ => rfl

theorem members_addEdge (model : FeatureModel) (parent child : NodeIndex) :
    (model.addEdge parent child).nodes.map FeatureNode.members =
      model.nodes.map FeatureNode.members := by
  refine (map_modify ?_).trans (map_modify ?_)
  · exact fun _ => rfl
  · exact fun _ => rfl

theorem getD_addNode {β : Type} {field : FeatureNode → List β} {key : NodeKey}
    (nothing : field (FeatureNode.new key) = []) (index : NodeIndex) :
    ((model.addNode key).nodes[index]?.map field).getD [] =
      (model.nodes[index]?.map field).getD [] := by
  rw [addNode, List.getElem?_append]
  split
  · rfl
  · rename_i beyond
    rw [List.getElem?_singleton, List.getElem?_eq_none (Nat.le_of_not_lt beyond)]
    split <;> simp [nothing]

/-! What keeps the two in step. -/

theorem Indexed.of_eq (indexed : model.Indexed) (keys : changed.keys = model.keys)
    (index : changed.index = model.index) : changed.Indexed := by
  intro key position
  rw [keys, index]
  exact indexed key position

theorem Indexed.addNode (indexed : model.Indexed) {key : NodeKey} (fresh : key ∉ model.keys) :
    (model.addNode key).Indexed := by
  intro other index
  have length : model.nodes.length = model.keys.length := by simp [keys]
  rw [keys_addNode, FeatureModel.addNode, Dictionary.get?_put, length]
  by_cases here : other = key
  · -- the key is at the end, and nowhere before
    subst here
    rw [if_pos rfl, Option.some.injEq, List.getElem?_append]
    split
    · rename_i before
      have absent : model.keys[index]? ≠ some other := fun found =>
        fresh (List.mem_of_getElem? found)
      exact iff_of_false (Nat.ne_of_gt before) absent
    · rename_i beyond
      simp only [List.getElem?_singleton, ite_eq_left_iff, reduceCtorEq, imp_false, not_not]
      exact ⟨fun last => Nat.sub_eq_zero_of_le (Nat.le_of_eq last.symm), fun none =>
        Nat.le_antisymm (Nat.le_of_not_lt beyond) (Nat.sub_eq_zero_iff_le.mp none)⟩
  · rw [if_neg here, indexed, List.getElem?_append]
    split
    · rfl
    · rename_i beyond
      rw [List.getElem?_singleton, List.getElem?_eq_none (Nat.le_of_not_lt beyond)]
      simp [Ne.symm here]

theorem Indexed.addMember (indexed : model.Indexed) (index : NodeIndex) (element : ElementRef) :
    (model.addMember index element).Indexed :=
  indexed.of_eq (keys_addMember index element) rfl

theorem Indexed.addEdge (indexed : model.Indexed) (parent child : NodeIndex) :
    (model.addEdge parent child).Indexed :=
  indexed.of_eq (keys_addEdge model parent child) rfl

/-! What the queries find. -/

theorem Indexed.indexOf?_eq (indexed : model.Indexed) (key : NodeKey) :
    model.indexOf? key = if key ∈ model.keys then some (model.keys.idxOf key) else none := by
  rw [indexOf?]
  split
  · rename_i member
    exact (indexed key _).mpr (List.getElem?_idxOf member)
  · rename_i absent
    rw [Option.eq_none_iff_forall_ne_some]
    intro index found
    exact absent (List.mem_of_getElem? ((indexed key index).mp found))

theorem Indexed.lt_length (indexed : model.Indexed) {key : NodeKey} {index : NodeIndex}
    (found : model.indexOf? key = some index) : index < model.nodes.length := by
  have bound := (List.getElem?_eq_some_iff.mp ((indexed key index).mp found)).1
  rwa [keys, List.length_map] at bound

theorem Indexed.fresh (indexed : model.Indexed) {key : NodeKey}
    (absent : model.indexOf? key = none) : key ∉ model.keys := by
  intro member
  rw [indexed.indexOf?_eq, if_pos member] at absent
  simp at absent

theorem Indexed.indexOf?_inj (indexed : model.Indexed) {key other : NodeKey} {index : NodeIndex}
    (found : model.indexOf? key = some index) (otherFound : model.indexOf? other = some index) :
    other = key :=
  Option.some.inj (((indexed other index).mp otherFound).symm.trans ((indexed key index).mp found))

theorem Indexed.indexOf?_eq_some_iff (indexed : model.Indexed) {key : NodeKey}
    {index : NodeIndex} : model.indexOf? key = some index ↔
      ∃ node, model.nodes[index]? = some node ∧ node.key = key := by
  rw [indexOf?, indexed, keys, List.getElem?_map, Option.map_eq_some_iff]

theorem Indexed.node?_key (indexed : model.Indexed) {index : NodeIndex} {node : FeatureNode}
    (stored : model.nodes[index]? = some node) : model.node? node.key = some node := by
  rw [node?, indexed.indexOf?_eq_some_iff.mpr ⟨node, stored, rfl⟩, Option.bind_some, stored]

theorem Indexed.node?_eq_some_iff (indexed : model.Indexed) {key : NodeKey} {node : FeatureNode} :
    model.node? key = some node ↔ node ∈ model.nodes ∧ node.key = key := by
  constructor
  · intro found
    obtain ⟨index, isIndex, stored⟩ := Option.bind_eq_some_iff.mp found
    obtain ⟨same, sameStored, isKey⟩ := indexed.indexOf?_eq_some_iff.mp isIndex
    rw [stored, Option.some.injEq] at sameStored
    exact ⟨List.mem_of_getElem? stored, sameStored ▸ isKey⟩
  · rintro ⟨member, rfl⟩
    obtain ⟨index, stored⟩ := List.mem_iff_getElem?.mp member
    exact indexed.node?_key stored

theorem Indexed.find?_eq_node? (indexed : model.Indexed) (key : NodeKey) :
    (model.nodes.find? fun node => node.key == key) = model.node? key := by
  cases found : model.nodes.find? fun node => node.key == key with
  | some node =>
      have isKey : node.key = key := by simpa using List.find?_some found
      exact (indexed.node?_eq_some_iff.mpr ⟨List.mem_of_find?_eq_some found, isKey⟩).symm
  | none =>
      symm
      rw [Option.eq_none_iff_forall_ne_some]
      intro node isNode
      obtain ⟨member, isKey⟩ := indexed.node?_eq_some_iff.mp isNode
      exact List.find?_eq_none.mp found node member (beq_iff_eq.mpr isKey)

end FeatureModel

end FeatureAtlas
