import Mathlib.Logic.Function.Basic
import FeatureAtlas.Proofs.Model.Placement
import FeatureAtlas.Proofs.Model.Reporting

/-!
The numbers of elements are names and no more. An assembly whose elements have other numbers, no two
of them the same, goes through the same steps; and so does one that is spared blank declarations,
but for what it reports of them.
-/

namespace FeatureAtlas

variable {number : ElementId → ElementId} {quiet : Bool}

/-! Other numbers for the elements of a model. -/

def ElementRef.renumber (number : ElementId → ElementId) (element : ElementRef) : ElementRef :=
  { element with id := number element.id }

def FeatureNode.renumber (number : ElementId → ElementId) (node : FeatureNode) : FeatureNode :=
  { node with members := node.members.map (ElementRef.renumber number) }

def DeclaredFeature.renumber (number : ElementId → ElementId) (feature : DeclaredFeature) :
    DeclaredFeature :=
  { feature with element := feature.element.renumber number }

def Diagnostic.renumber (number : ElementId → ElementId) (diagnostic : Diagnostic) : Diagnostic :=
  { diagnostic with elements := diagnostic.elements.map (ElementRef.renumber number) }

def EdgeOrigin.renumber (number : ElementId → ElementId) (origin : EdgeOrigin) : EdgeOrigin :=
  { origin with
    ancestor := origin.ancestor.renumber number
    element := origin.element.renumber number }

theorem renumber_addElement (injective : Function.Injective number) (elements : List ElementRef)
    (element : ElementRef) :
    (addElement elements element).map (ElementRef.renumber number) =
      addElement (elements.map (ElementRef.renumber number)) (element.renumber number) := by
  have same : ((elements.map (ElementRef.renumber number)).any fun known =>
      known.id == (element.renumber number).id) =
        elements.any fun known => known.id == element.id := by
    rw [List.any_map]
    apply List.any_congr rfl
    intro known
    rw [Bool.eq_iff_iff]
    simp [ElementRef.renumber, injective.eq_iff]
  rw [addElement, addElement, same]
  split
  · rfl
  · rw [List.map_append, List.map_singleton]

theorem renumber_foldl_addElement (injective : Function.Injective number)
    (added known : List ElementRef) :
    (added.foldl addElement known).map (ElementRef.renumber number) =
      (added.map (ElementRef.renumber number)).foldl addElement
        (known.map (ElementRef.renumber number)) := by
  induction added generalizing known with
  | nil => rfl
  | cons element rest ih =>
      rw [List.foldl_cons, ih, renumber_addElement injective, List.map_cons, List.foldl_cons]

theorem get?_put_number {ν : Type} (injective : Function.Injective number)
    {table echo : Dictionary ElementId ν} (same : ∀ id, echo.get? (number id) = table.get? id)
    (id : ElementId) (value : ν) (other : ElementId) :
    (echo.put (number id) value).get? (number other) = (table.put id value).get? other := by
  rw [Dictionary.get?_put, Dictionary.get?_put, same]
  exact if_congr injective.eq_iff rfl rfl

theorem modify_map {α β : Type} {value : α → β} {change : α → α} {changed : β → β}
    (same : ∀ item, changed (value item) = value (change item)) (items : List α) (index : Nat) :
    (items.map value).modify index changed = (items.modify index change).map value := by
  apply List.ext_getElem?
  intro position
  simp only [List.getElem?_modify, List.getElem?_map]
  cases items[position]? with
  | none => rfl
  | some item =>
      by_cases here : index = position
      · simp [here, same]
      · simp [here]

/-- What is heard of the diagnostics when those of empty names are left out. -/
def Diagnostic.heard (quiet : Bool) (diagnostic : Diagnostic) : Bool :=
  !(quiet && diagnostic.kind == .emptyName)

theorem Diagnostic.heard_of_kind {diagnostic : Diagnostic} (other : diagnostic.kind ≠ .emptyName) :
    diagnostic.heard quiet = true := by
  simp [heard, other]

theorem Diagnostic.heard_of_isBlank {name : String} (named : quiet = true → isBlank name = false)
    (blank : isBlank name = true) (diagnostic : Diagnostic) : diagnostic.heard quiet = true := by
  cases quiet with
  | false => rfl
  | true => simp [named rfl] at blank

namespace FeatureModel

/-- The same model but for the numbers of its elements and, if it is quiet, the diagnostics of
empty names. -/
structure Echoes (number : ElementId → ElementId) (quiet : Bool) (model echo : FeatureModel) :
    Prop where
  nodes : echo.nodes = model.nodes.map (FeatureNode.renumber number)
  index : echo.index = model.index
  features : echo.features = model.features.map (DeclaredFeature.renumber number)
  diagnostics : echo.diagnostics =
    (model.diagnostics.filter (Diagnostic.heard quiet)).map (Diagnostic.renumber number)

variable {model echo : FeatureModel}

theorem Echoes.keys (echoes : model.Echoes number quiet echo) : echo.keys = model.keys := by
  rw [FeatureModel.keys, echoes.nodes, List.map_map]
  rfl

theorem Echoes.length (echoes : model.Echoes number quiet echo) :
    echo.nodes.length = model.nodes.length := by
  rw [echoes.nodes, List.length_map]

theorem Echoes.keyAt (echoes : model.Echoes number quiet echo) : echo.keyAt = model.keyAt := by
  funext index
  rw [keyAt_eq, keyAt_eq, echoes.keys]

theorem Echoes.children (echoes : model.Echoes number quiet echo) :
    echo.nodes.map FeatureNode.children = model.nodes.map FeatureNode.children := by
  rw [echoes.nodes, List.map_map]
  rfl

theorem Echoes.indexOf? (echoes : model.Echoes number quiet echo) (key : NodeKey) :
    echo.indexOf? key = model.indexOf? key := by
  rw [FeatureModel.indexOf?, FeatureModel.indexOf?, echoes.index]

theorem Echoes.addNode (echoes : model.Echoes number quiet echo) (key : NodeKey) :
    (model.addNode key).Echoes number quiet (echo.addNode key) := by
  refine ⟨?_, ?_, echoes.features, echoes.diagnostics⟩
  · rw [FeatureModel.addNode, FeatureModel.addNode, echoes.nodes, List.map_append]
    rfl
  · rw [FeatureModel.addNode, FeatureModel.addNode, echoes.index, echoes.length]

theorem Echoes.addMember (echoes : model.Echoes number quiet echo)
    (injective : Function.Injective number) (index : NodeIndex) (element : ElementRef) :
    (model.addMember index element).Echoes number quiet
      (echo.addMember index (element.renumber number)) := by
  refine ⟨?_, echoes.index, echoes.features, echoes.diagnostics⟩
  rw [FeatureModel.addMember, FeatureModel.addMember, echoes.nodes]
  apply modify_map
  intro node
  rw [FeatureNode.renumber, FeatureNode.renumber, renumber_addElement injective]

theorem Echoes.addEdge (echoes : model.Echoes number quiet echo) (parent child : NodeIndex) :
    (model.addEdge parent child).Echoes number quiet (echo.addEdge parent child) := by
  refine ⟨?_, echoes.index, echoes.features, echoes.diagnostics⟩
  rw [FeatureModel.addEdge, FeatureModel.addEdge, echoes.nodes, modify_map, modify_map]
  · intro node
    rfl
  · intro node
    rfl

theorem Echoes.addFeature (echoes : model.Echoes number quiet echo) (feature : DeclaredFeature) :
    (model.addFeature feature).Echoes number quiet
      (echo.addFeature (feature.renumber number)) := by
  refine ⟨echoes.nodes, echoes.index, ?_, echoes.diagnostics⟩
  rw [FeatureModel.addFeature, FeatureModel.addFeature, echoes.features, List.map_append,
    List.map_singleton]

theorem Echoes.addDiagnostic (echoes : model.Echoes number quiet echo) {diagnostic : Diagnostic}
    (heard : diagnostic.heard quiet = true) :
    (model.addDiagnostic diagnostic).Echoes number quiet
      (echo.addDiagnostic (diagnostic.renumber number)) := by
  refine ⟨echoes.nodes, echoes.index, echoes.features, ?_⟩
  simp [FeatureModel.addDiagnostic, echoes.diagnostics, heard]

theorem Echoes.unheard (echoes : model.Echoes number quiet echo) {diagnostic : Diagnostic}
    (unheard : diagnostic.heard quiet = false) :
    (model.addDiagnostic diagnostic).Echoes number quiet echo := by
  refine ⟨echoes.nodes, echoes.index, echoes.features, ?_⟩
  simp [FeatureModel.addDiagnostic, echoes.diagnostics, unheard]

/-! The cycles. -/

theorem originOf?_renumber (origins : List EdgeOrigin) (parent child : NodeIndex) :
    originOf? (origins.map (EdgeOrigin.renumber number)) parent child =
      (originOf? origins parent child).map (EdgeOrigin.renumber number) := by
  rw [originOf?, originOf?, ← List.map_reverse, List.find?_map]
  rfl

theorem elementsBehind_renumber (origins : List EdgeOrigin) (parent child : NodeIndex) :
    elementsBehind (origins.map (EdgeOrigin.renumber number)) parent child =
      (elementsBehind origins parent child).map (ElementRef.renumber number) := by
  rw [elementsBehind, elementsBehind, originOf?_renumber]
  cases originOf? origins parent child <;> rfl

theorem elementsAlong_renumber (injective : Function.Injective number) (origins : List EdgeOrigin)
    (path : List NodeIndex) :
    elementsAlong (origins.map (EdgeOrigin.renumber number)) path =
      (elementsAlong origins path).map (ElementRef.renumber number) := by
  rw [elementsAlong, elementsAlong, renumber_foldl_addElement injective, List.map_flatMap]
  simp only [elementsBehind_renumber, List.map_nil]

theorem Echoes.detectCycles (echoes : model.Echoes number quiet echo)
    (injective : Function.Injective number) (origins : List EdgeOrigin) :
    echo.detectCycles (origins.map (EdgeOrigin.renumber number)) =
      (model.detectCycles origins).map (Diagnostic.renumber number) := by
  rw [FeatureModel.detectCycles, FeatureModel.detectCycles, cyclePaths_congr echoes.children,
    List.map_map]
  apply List.map_congr_left
  intro path _
  rw [Function.comp_apply, cycleDiagnostic, cycleDiagnostic, echoes.keyAt,
    elementsAlong_renumber injective]
  rfl

end FeatureModel

/-! The declarations. -/

inductive EchoedPairs (number : ElementId → ElementId) (quiet : Bool) :
    List ScanPair → List ScanPair → Prop
  | none : EchoedPairs number quiet [] []
  | same {pair echo : ScanPair} {pairs echoes : List ScanPair} : echo.declared = pair.declared →
      echo.element.toRef = pair.element.toRef.renumber number →
      (quiet = true → pair.declared.isBlank = false) → EchoedPairs number quiet pairs echoes →
      EchoedPairs number quiet (pair :: pairs) (echo :: echoes)
  | blank {pair : ScanPair} {pairs echoes : List ScanPair} : quiet = true →
      pair.declared.isBlank = true → EchoedPairs number quiet pairs echoes →
      EchoedPairs number quiet (pair :: pairs) echoes

structure LinkAttempt.Echoes (number : ElementId → ElementId) (attempt echo : LinkAttempt) :
    Prop where
  parent : echo.parent = attempt.parent
  child : echo.child = attempt.child
  ancestor : echo.ancestor.toRef = attempt.ancestor.toRef.renumber number
  element : echo.element.toRef = attempt.element.toRef.renumber number

namespace Assembly

structure Echoes (number : ElementId → ElementId) (quiet : Bool) (assembly echo : Assembly) :
    Prop where
  model : assembly.model.Echoes number quiet echo.model
  declared : ∀ id, echo.declared.get? (number id) = assembly.declared.get? id
  mapped : ∀ id, echo.mapped.get? (number id) = assembly.mapped.get? id
  order : echo.mappedOrder = assembly.mappedOrder.map number
  origins : echo.origins = assembly.origins.map (EdgeOrigin.renumber number)

variable {assembly echo : Assembly}

theorem echoes_empty : Echoes number quiet {} {} :=
  ⟨⟨rfl, rfl, rfl, rfl⟩, fun _ => rfl, fun _ => rfl, rfl, rfl⟩

theorem Echoes.report (echoes : assembly.Echoes number quiet echo) {diagnostic : Diagnostic}
    (heard : diagnostic.heard quiet = true) :
    (assembly.report diagnostic).Echoes number quiet (echo.report (diagnostic.renumber number)) :=
  ⟨echoes.model.addDiagnostic heard, echoes.declared, echoes.mapped, echoes.order, echoes.origins⟩

theorem Echoes.unheard (echoes : assembly.Echoes number quiet echo) {diagnostic : Diagnostic}
    (unheard : diagnostic.heard quiet = false) :
    (assembly.report diagnostic).Echoes number quiet echo :=
  ⟨echoes.model.unheard unheard, echoes.declared, echoes.mapped, echoes.order, echoes.origins⟩

theorem Echoes.declareFeature (echoes : assembly.Echoes number quiet echo)
    (injective : Function.Injective number) {element image : Element}
    (isImage : image.toRef = element.toRef.renumber number) {declaration : FeatureDeclaration}
    (named : quiet = true → isBlank declaration.name = false) :
    (assembly.declareFeature element declaration).Echoes number quiet
      (echo.declareFeature image declaration) := by
  have isId : image.id = number element.id := congrArg ElementRef.id isImage
  rw [Assembly.declareFeature, Assembly.declareFeature]
  by_cases blank : isBlank declaration.name = true
  · rw [if_pos blank, if_pos blank, isImage]
    exact echoes.report (Diagnostic.heard_of_isBlank named blank _)
  · rw [if_neg blank, if_neg blank, isId, echoes.declared]
    cases assembly.declared.get? element.id with
    | some kept =>
        rw [isImage]
        exact echoes.report (Diagnostic.heard_of_kind (by simp [Diagnostic.duplicateFeature,
          Diagnostic.ofKind]))
    | none =>
        refine ⟨?_, ?_, echoes.mapped, echoes.order, echoes.origins⟩
        · simp only [isImage]
          exact echoes.model.addFeature { element := element.toRef, declaration }
        · exact get?_put_number injective echoes.declared element.id declaration.name

theorem Echoes.resolve (echoes : assembly.Echoes number quiet echo) (key : NodeKey) :
    (echo.resolve key).1 = (assembly.resolve key).1 ∧
      (assembly.resolve key).2.Echoes number quiet (echo.resolve key).2 := by
  rw [Assembly.resolve, Assembly.resolve, echoes.model.indexOf?]
  cases assembly.model.indexOf? key with
  | some index => exact ⟨rfl, echoes⟩
  | none =>
      exact ⟨echoes.model.length, echoes.model.addNode key, echoes.declared, echoes.mapped,
        echoes.order, echoes.origins⟩

theorem Echoes.join (echoes : assembly.Echoes number quiet echo)
    (injective : Function.Injective number) {element image : Element}
    (isImage : image.toRef = element.toRef.renumber number) (index : NodeIndex) :
    (assembly.join element index).Echoes number quiet (echo.join image index) := by
  have isId : image.id = number element.id := congrArg ElementRef.id isImage
  refine ⟨?_, echoes.declared, ?_, ?_, echoes.origins⟩
  · simp only [Assembly.join, isImage]
    exact echoes.model.addMember injective index element.toRef
  · simp only [Assembly.join, isId, echoes.mapped]
    exact get?_put_number injective echoes.mapped element.id _
  · have known : echo.mapped.contains (number element.id) = assembly.mapped.contains element.id :=
      congrArg Option.isSome (echoes.mapped element.id)
    simp only [Assembly.join, isId, known, echoes.order]
    split
    · rfl
    · rw [List.map_append, List.map_singleton]

theorem Echoes.declareMapping (echoes : assembly.Echoes number quiet echo)
    (injective : Function.Injective number) {element image : Element}
    (isImage : image.toRef = element.toRef.renumber number) {declaration : MappingDeclaration}
    (named : quiet = true → isBlank declaration.targetConcept = false) :
    (assembly.declareMapping element declaration).Echoes number quiet
      (echo.declareMapping image declaration) := by
  rw [Assembly.declareMapping, Assembly.declareMapping]
  by_cases blank : isBlank declaration.targetConcept = true
  · rw [if_pos blank, if_pos blank, isImage]
    exact echoes.report (Diagnostic.heard_of_isBlank named blank _)
  · rw [if_neg blank, if_neg blank]
    obtain ⟨index, resolved⟩ := echoes.resolve declaration.key
    simp only [index]
    exact resolved.join injective isImage _

theorem Echoes.declare (echoes : assembly.Echoes number quiet echo)
    (injective : Function.Injective number) {pair image : ScanPair}
    (declared : image.declared = pair.declared)
    (isImage : image.element.toRef = pair.element.toRef.renumber number)
    (named : quiet = true → pair.declared.isBlank = false) :
    (assembly.declare pair).Echoes number quiet (echo.declare image) := by
  rw [Assembly.declare, Assembly.declare, declared]
  cases which : pair.declared with
  | feature declaration =>
      rw [which] at named
      exact echoes.declareFeature injective isImage named
  | mapping declaration =>
      rw [which] at named
      exact echoes.declareMapping injective isImage named
  | other => exact echoes

theorem Echoes.declare_blank (echoes : assembly.Echoes number true echo) {pair : ScanPair}
    (blank : pair.declared.isBlank = true) :
    (assembly.declare pair).Echoes number true echo := by
  obtain ⟨element, declared⟩ := pair
  cases declared with
  | feature declaration =>
      simp only [Assembly.declare, Assembly.declareFeature, if_pos (show isBlank declaration.name =
        true from blank)]
      exact echoes.unheard rfl
  | mapping declaration =>
      simp only [Assembly.declare, Assembly.declareMapping, if_pos (show isBlank
        declaration.targetConcept = true from blank)]
      exact echoes.unheard rfl
  | other => cases blank

theorem Echoes.declareAll (injective : Function.Injective number) {pairs images : List ScanPair}
    (echoed : EchoedPairs number quiet pairs images) (echoes : assembly.Echoes number quiet echo) :
    (assembly.declareAll pairs).Echoes number quiet (echo.declareAll images) := by
  induction echoed generalizing assembly echo with
  | none => exact echoes
  | same declared isImage named _ ih =>
      exact ih (echoes.declare injective declared isImage named)
  | blank isQuiet isBlank _ ih =>
      subst isQuiet
      exact ih (echoes.declare_blank isBlank)

/-! The links. -/

theorem Echoes.connect (echoes : assembly.Echoes number quiet echo) {attempt image : LinkAttempt}
    (isImage : attempt.Echoes number image) :
    (assembly.connect attempt).Echoes number quiet (echo.connect image) := by
  have sameEdge : echo.model.hasEdge = assembly.model.hasEdge := by
    funext parent child
    rw [FeatureModel.hasEdge, FeatureModel.hasEdge,
      FeatureModel.childIndices_congr echoes.model.children]
  rw [Assembly.connect, Assembly.connect, isImage.parent, isImage.child, sameEdge]
  split
  · exact echoes
  · refine ⟨echoes.model.addEdge _ _, echoes.declared, echoes.mapped, echoes.order, ?_⟩
    simp only [echoes.origins, List.map_append, List.map_singleton, EdgeOrigin.renumber,
      isImage.ancestor, isImage.element]

theorem Echoes.link (echoes : assembly.Echoes number quiet echo) {attempt image : LinkAttempt}
    (isImage : attempt.Echoes number image) :
    (assembly.link attempt).Echoes number quiet (echo.link image) := by
  simp only [Assembly.link, echoes.model.keyAt, isImage.parent, isImage.child]
  split
  · exact echoes
  · split
    · exact echoes.connect isImage
    · rw [isImage.ancestor, isImage.element]
      exact echoes.report (Diagnostic.heard_of_kind (by simp [Diagnostic.unresolvedParent,
        Diagnostic.ofKind]))

theorem Echoes.linkAll {attempts images : List LinkAttempt}
    (isImage : List.Forall₂ (LinkAttempt.Echoes number) attempts images)
    (echoes : assembly.Echoes number quiet echo) :
    (assembly.linkAll attempts).Echoes number quiet (echo.linkAll images) := by
  induction isImage generalizing assembly echo with
  | nil => exact echoes
  | cons first _ ih => exact ih (echoes.link first)

theorem Echoes.reportCycles (echoes : assembly.Echoes number quiet echo)
    (injective : Function.Injective number) :
    assembly.reportCycles.model.Echoes number quiet echo.reportCycles.model := by
  have heard : (assembly.model.detectCycles assembly.origins).filter (Diagnostic.heard quiet) =
      assembly.model.detectCycles assembly.origins := by
    rw [List.filter_eq_self]
    intro diagnostic member
    obtain ⟨path, _, rfl⟩ := List.mem_map.mp member
    exact Diagnostic.heard_of_kind (by simp [FeatureModel.cycleDiagnostic, Diagnostic.cycle,
      Diagnostic.ofKind])
  rw [Assembly.reportCycles, Assembly.reportCycles, reportAll_model, reportAll_model,
    echoes.origins, echoes.model.detectCycles injective]
  refine ⟨echoes.model.nodes, echoes.model.index, echoes.model.features, ?_⟩
  rw [List.filter_append, List.map_append, heard, echoes.model.diagnostics]

end Assembly

end FeatureAtlas
