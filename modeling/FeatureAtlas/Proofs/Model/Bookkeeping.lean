import FeatureAtlas.Model.Assembly
import FeatureAtlas.Proofs.Model.Indexing

/-!
The tables that are kept beside a model in the making. They say again what stands in the model:
where each node is, which name the feature of an element has, and which nodes an element is a member
of. Every step of the assembly keeps them in step with the model.
-/

namespace FeatureAtlas

theorem mem_ids_addElement {members : List ElementRef} {element : ElementRef} {id : ElementId} :
    id ∈ (addElement members element).map ElementRef.id ↔
      id ∈ members.map ElementRef.id ∨ id = element.id := by
  rw [addElement]
  split
  · rename_i known
    obtain ⟨member, inside, same⟩ := List.any_eq_true.mp known
    constructor
    · exact .inl
    · rintro (old | rfl)
      · exact old
      · exact beq_iff_eq.mp same ▸ List.mem_map_of_mem inside
  · simp

namespace FeatureModel

def membersAt (model : FeatureModel) (index : NodeIndex) : List ElementRef :=
  (model.nodes[index]?.map FeatureNode.members).getD []

variable {model : FeatureModel}

theorem membersAt_addNode (key : NodeKey) (index : NodeIndex) :
    (model.addNode key).membersAt index = model.membersAt index :=
  getD_addNode rfl index

theorem membersAt_addMember {index : NodeIndex} (bound : index < model.nodes.length)
    (element : ElementRef) (other : NodeIndex) :
    (model.addMember index element).membersAt other =
      if other = index then addElement (model.membersAt index) element
      else model.membersAt other := by
  simp only [membersAt, addMember, List.getElem?_modify]
  by_cases here : other = index
  · subst here
    simp [bound]
  · simp [here, Ne.symm here]

theorem membersAt_addEdge (parent child index : NodeIndex) :
    (model.addEdge parent child).membersAt index = model.membersAt index := by
  rw [membersAt, membersAt, ← List.getElem?_map, ← List.getElem?_map, members_addEdge]

theorem featureFor?_addFeature (model : FeatureModel) (feature : DeclaredFeature)
    (id : ElementId) :
    (model.addFeature feature).featureFor? id =
      (model.featureFor? id).or (if feature.element.id = id then some feature else none) := by
  rw [FeatureModel.featureFor?, FeatureModel.addFeature, List.find?_append]
  congr 1
  by_cases here : feature.element.id = id
  · simp [here]
  · simp [here]

end FeatureModel

namespace Assembly

/-- Each table agrees with the part of the model that it repeats. -/
structure InStep (assembly : Assembly) : Prop where
  indexed : assembly.model.Indexed
  declared : ∀ id, assembly.declared.get? id =
    (assembly.model.featureFor? id).map fun feature => feature.declaration.name
  mapped : ∀ id index, index ∈ (assembly.mapped.get? id).getD [] ↔
    id ∈ (assembly.model.membersAt index).map ElementRef.id
  ordered : assembly.mappedOrder.Nodup ∧
    ∀ id, id ∈ assembly.mappedOrder ↔ assembly.mapped.contains id = true

theorem inStep_empty : InStep {} := by
  refine ⟨FeatureModel.indexed_empty, ?_, ?_, ?_⟩
  · intro id
    rfl
  · intro id index
    simp [FeatureModel.membersAt]
  · simp [Dictionary.contains]

variable {assembly : Assembly}

theorem InStep.report (inStep : assembly.InStep) (diagnostic : Diagnostic) :
    (assembly.report diagnostic).InStep :=
  ⟨inStep.indexed, inStep.declared, inStep.mapped, inStep.ordered⟩

theorem InStep.declareFeature (inStep : assembly.InStep) (element : Element)
    (declaration : FeatureDeclaration) : (assembly.declareFeature element declaration).InStep := by
  rw [Assembly.declareFeature]
  split
  · exact inStep.report _
  · cases known : assembly.declared.get? element.id with
    | some kept => exact inStep.report _
    | none =>
        refine ⟨inStep.indexed, ?_, inStep.mapped, inStep.ordered⟩
        intro id
        rw [Dictionary.get?_put, FeatureModel.featureFor?_addFeature]
        by_cases same : id = element.id
        · subst same
          rw [inStep.declared, Option.map_eq_none_iff] at known
          simp [known, Element.toRef]
        · simpa [same, Ne.symm same, Element.toRef] using inStep.declared id

theorem indexOf?_resolve (key : NodeKey) :
    (assembly.resolve key).2.model.indexOf? key = some (assembly.resolve key).1 := by
  rw [resolve]
  cases known : assembly.model.indexOf? key with
  | some index => exact known
  | none => simp [FeatureModel.addNode, FeatureModel.indexOf?]

theorem InStep.resolve (inStep : assembly.InStep) (key : NodeKey) :
    (assembly.resolve key).2.InStep := by
  rw [Assembly.resolve]
  cases known : assembly.model.indexOf? key with
  | some index => exact inStep
  | none =>
      refine ⟨inStep.indexed.addNode (inStep.indexed.fresh known), inStep.declared, ?_,
        inStep.ordered⟩
      intro id index
      rw [FeatureModel.membersAt_addNode]
      exact inStep.mapped id index

theorem InStep.mapped_join (inStep : assembly.InStep) {index : NodeIndex}
    (bound : index < assembly.model.nodes.length) (element : Element) (id : ElementId)
    (other : NodeIndex) :
    other ∈ ((assembly.join element index).mapped.get? id).getD [] ↔
      id ∈ ((assembly.join element index).model.membersAt other).map ElementRef.id := by
  have before := inStep.mapped id other
  simp only [join, Dictionary.get?_put, FeatureModel.membersAt_addMember bound]
  by_cases same : id = element.id
  · subst same
    by_cases here : other = index
    · subst here
      simp only [if_true, Option.getD_some, mem_ids_addElement, Element.toRef, or_true, iff_true]
      split
      · exact List.contains_iff_mem.mp ‹_›
      · simp
    · rw [if_pos rfl, if_neg here, ← before, Option.getD_some]
      split
      · rfl
      · simp [here]
  · rw [if_neg same, before]
    split
    · rename_i here
      subst here
      simp [mem_ids_addElement, Element.toRef, same]
    · rfl

theorem InStep.ordered_join (inStep : assembly.InStep) (element : Element) (index : NodeIndex) :
    (assembly.join element index).mappedOrder.Nodup ∧
      ∀ id, id ∈ (assembly.join element index).mappedOrder ↔
        (assembly.join element index).mapped.contains id = true := by
  obtain ⟨distinct, listed⟩ := inStep.ordered
  by_cases known : assembly.mapped.contains element.id = true
  · simp only [join, if_pos known, Dictionary.contains_put]
    refine ⟨distinct, fun id => ?_⟩
    rw [listed]
    exact ⟨.inr, fun either => either.elim (· ▸ known) fun listed => listed⟩
  · have fresh : element.id ∉ assembly.mappedOrder := known ∘ (listed element.id).mp
    simp only [join, if_neg known, Dictionary.contains_put]
    refine ⟨List.concat_eq_append ▸ List.Nodup.concat fresh distinct, fun id => ?_⟩
    rw [List.mem_append, List.mem_singleton, listed, or_comm]

theorem InStep.join (inStep : assembly.InStep) {index : NodeIndex}
    (bound : index < assembly.model.nodes.length) (element : Element) :
    (assembly.join element index).InStep :=
  ⟨inStep.indexed.addMember index _, inStep.declared, inStep.mapped_join bound element,
    inStep.ordered_join element index⟩

theorem InStep.declare (inStep : assembly.InStep) (pair : ScanPair) :
    (assembly.declare pair).InStep := by
  obtain ⟨element, declared⟩ := pair
  cases declared with
  | other => exact inStep
  | feature declaration => exact inStep.declareFeature element declaration
  | mapping declaration =>
      simp only [Assembly.declare, declareMapping]
      split
      · exact inStep.report _
      · have resolved := inStep.resolve declaration.key
        exact resolved.join (resolved.indexed.lt_length (indexOf?_resolve _)) element

theorem InStep.declareAll (inStep : assembly.InStep) (pairs : List ScanPair) :
    (assembly.declareAll pairs).InStep := by
  induction pairs generalizing assembly with
  | nil => exact inStep
  | cons pair rest ih => exact ih (inStep.declare pair)

theorem InStep.link (inStep : assembly.InStep) (attempt : LinkAttempt) :
    (assembly.link attempt).InStep := by
  simp only [Assembly.link, connect]
  split
  · exact inStep
  · split
    · split
      · exact inStep
      · refine ⟨inStep.indexed.addEdge _ _, inStep.declared, ?_, inStep.ordered⟩
        intro id index
        rw [FeatureModel.membersAt_addEdge]
        exact inStep.mapped id index
    · exact inStep.report _

theorem InStep.linkAll (inStep : assembly.InStep) (attempts : List LinkAttempt) :
    (assembly.linkAll attempts).InStep := by
  induction attempts generalizing assembly with
  | nil => exact inStep
  | cons attempt rest ih => exact ih (inStep.link attempt)

theorem InStep.reportAll (inStep : assembly.InStep) (diagnostics : List Diagnostic) :
    (assembly.reportAll diagnostics).InStep := by
  induction diagnostics generalizing assembly with
  | nil => exact inStep
  | cons diagnostic rest ih => exact ih (inStep.report diagnostic)

/-- The tables are in step with the model at the end of an assembly, and at every point before. -/
theorem inStep_throughout (scan : Scan) :
    (∀ count, (({} : Assembly).declareAll (scan.pairs.take count)).InStep) ∧
      (∀ attempts, ((({} : Assembly).declareAll scan.pairs).linkAll attempts).InStep) ∧
      (Assembly.ofScan scan).InStep :=
  ⟨fun _ => inStep_empty.declareAll _, fun _ => (inStep_empty.declareAll _).linkAll _,
    ((inStep_empty.declareAll _).linkAll _).reportAll _⟩

end Assembly

end FeatureAtlas
