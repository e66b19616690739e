import FeatureAtlas.Proofs.Model.Attribution
import FeatureAtlas.Proofs.Model.Cleaning
import FeatureAtlas.Proofs.Model.FeatureNames

/-!
The nodes of a model and their members. Each key that is mapped to has one node and each element
with a mapping to it is a member once, both in the order of the first mapping. To repeat a mapping
that has a name adds nothing to the model.
-/

namespace FeatureAtlas

/-! What the declarations leave with a node. -/

theorem exists_mem_foldl_addElement {elements : List ElementRef} {element : ElementRef}
    (member : element ∈ elements) :
    ∃ known ∈ elements.foldl addElement [], known.id = element.id := by
  induction elements using List.reverseRecOn with
  | nil => simp at member
  | append_singleton elements last ih =>
      rw [List.foldl_append, List.foldl_cons, List.foldl_nil, addElement]
      rcases List.mem_append.mp member with earlier | here
      · obtain ⟨known, kept, same⟩ := ih earlier
        split
        · exact ⟨known, kept, same⟩
        · exact ⟨known, List.mem_append_left _ kept, same⟩
      · rw [List.mem_singleton.mp here]
        split
        · rename_i present
          obtain ⟨known, kept, same⟩ := List.any_eq_true.mp present
          exact ⟨known, kept, beq_iff_eq.mp same⟩
        · exact ⟨last, by simp, rfl⟩

theorem FeatureModel.addMember_of_mem {model : FeatureModel} {index : NodeIndex}
    {node : FeatureNode} (found : model.nodes[index]? = some node) {element : ElementRef}
    (known : ∃ member ∈ node.members, member.id = element.id) :
    model.addMember index element = model := by
  obtain ⟨member, inside, same⟩ := known
  have kept : addElement node.members element = node.members := by
    rw [addElement]
    exact if_pos (List.any_eq_true.mpr ⟨member, inside, by simpa using same⟩)
  have nodes : (model.nodes.modify index fun node =>
      { node with members := addElement node.members element }) = model.nodes := by
    apply List.ext_getElem?
    intro position
    rw [List.getElem?_modify]
    by_cases here : index = position
    · subst here
      simp [found, kept]
    · simp [here]
  rw [addMember, nodes]

theorem FeatureModel.Woven.membersOf_key {model : FeatureModel} (woven : model.Woven)
    {node : FeatureNode} (member : node ∈ model.nodes) :
    model.membersOf node.key = node.members := by
  obtain ⟨index, found⟩ := List.mem_iff_getElem?.mp member
  rw [membersOf, woven.inStep.node?_key found]
  rfl

theorem nodesOf?_again {mappings : List Mapping} {mapping : Mapping}
    (member : mapping ∈ mappings) : ∃ nodes, nodesOf? mappings mapping.element.id = some nodes ∧
      (nodeKeys mappings).idxOf mapping.key ∈ nodes := by
  have listed : mapping.element.id ∈ mappedIds mappings :=
    List.mem_eraseDups.mpr (List.mem_map.mpr ⟨mapping, member, rfl⟩)
  have known : mapping.key ∈ keysOf mappings mapping.element.id :=
    List.mem_eraseDups.mpr
      (List.mem_map_of_mem (List.mem_filter.mpr ⟨member, beq_self_eq_true _⟩))
  exact ⟨_, if_pos listed, List.mem_map_of_mem known⟩

namespace Assembly

theorem declare_again {pairs : List ScanPair} {pair : ScanPair} (member : pair ∈ pairs)
    {key : NodeKey} (asks : pair.declared.mappedKey? = some key) :
    (({} : Assembly).declareAll pairs).declare pair = ({} : Assembly).declareAll pairs := by
  -- its node is there, its element is a member of the node, and the tables know of both
  have declares := declareAll_declares pairs
  have mapped : { element := pair.element, key : Mapping } ∈ mappingsOf pairs :=
    List.mem_filterMap.mpr ⟨pair, member, by rw [ScanPair.mapping?, asks, Option.map_some]⟩
  have known : key ∈ nodeKeys (mappingsOf pairs) :=
    List.mem_eraseDups.mpr (List.mem_map.mpr ⟨_, mapped, rfl⟩)
  have place : (({} : Assembly).declareAll pairs).model.indexOf? key =
      some ((nodeKeys (mappingsOf pairs)).idxOf key) := by
    rw [declares.indexed.indexOf?_eq, declares.keys, if_pos known]
  obtain ⟨nodes, placed, inside⟩ := nodesOf?_again mapped
  rw [← declares.mapped] at placed
  have listed : (({} : Assembly).declareAll pairs).mapped.contains pair.element.id = true := by
    rw [Dictionary.contains, placed, Option.isSome_some]
  have joined : (({} : Assembly).declareAll pairs).model.addMember
      ((nodeKeys (mappingsOf pairs)).idxOf key) pair.element.toRef =
        (({} : Assembly).declareAll pairs).model := by
    obtain ⟨node, found, isKey⟩ := declares.indexed.indexOf?_eq_some_iff.mp place
    refine FeatureModel.addMember_of_mem found ?_
    rw [← (coherent_declareAll pairs).membersOf_key (List.mem_of_getElem? found), isKey,
      membersOf_declareAll]
    exact exists_mem_foldl_addElement
      (List.mem_map.mpr ⟨_, List.mem_filter.mpr ⟨mapped, beq_self_eq_true _⟩, rfl⟩)
  obtain ⟨declaration, declared, named, rfl⟩ := Annotation.mappedKey?_eq_some_iff.mp asks
  rw [declare, declared]
  simp only [declareMapping, named, Bool.false_eq_true, if_false, resolve, place, join, joined,
    placed, Option.getD_some, List.contains_iff_mem, if_pos inside, listed, if_true]
  rw [Dictionary.put_again placed]

end Assembly

/-! Repetitions. -/

inductive RepeatedPairs : List ScanPair → List ScanPair → Prop
  | none : RepeatedPairs [] []
  | keep {pairs repeated : List ScanPair} {pair image : ScanPair} :
      RepeatedPairs pairs repeated → image.declared = pair.declared →
      image.element.toRef = pair.element.toRef.renumber (fun id => id) →
      RepeatedPairs (pairs ++ [pair]) (repeated ++ [image])
  | again {pairs repeated : List ScanPair} {pair : ScanPair} {key : NodeKey} :
      RepeatedPairs pairs repeated → pair ∈ repeated → pair.declared.mappedKey? = some key →
      RepeatedPairs pairs (repeated ++ [pair])

theorem RepeatedPairs.append {first second firstRepeated secondRepeated : List ScanPair}
    (front : RepeatedPairs first firstRepeated) (back : RepeatedPairs second secondRepeated) :
    RepeatedPairs (first ++ second) (firstRepeated ++ secondRepeated) := by
  induction back with
  | none => simpa using front
  | keep _ declared ref ih =>
      rw [← List.append_assoc, ← List.append_assoc]
      exact ih.keep declared ref
  | again _ member asks ih =>
      rw [← List.append_assoc]
      exact ih.again (List.mem_append_right _ member) asks

theorem FeatureModel.Echoes.unnumbered {quiet : Bool} {model echo : FeatureModel}
    (echoes : model.Echoes (fun id => id) quiet echo) :
    echo = { model with diagnostics := model.diagnostics.filter (Diagnostic.heard quiet) } := by
  obtain ⟨nodes, index, features, diagnostics⟩ := echo
  have sameNodes : nodes = _ := echoes.nodes
  have sameIndex : index = _ := echoes.index
  have sameFeatures : features = _ := echoes.features
  have sameDiagnostics : diagnostics = _ := echoes.diagnostics
  rw [FeatureNode.renumber_id, List.map_id] at sameNodes
  rw [show DeclaredFeature.renumber (fun id => id) = id from rfl, List.map_id] at sameFeatures
  rw [Diagnostic.renumber_id, List.map_id] at sameDiagnostics
  rw [sameNodes, sameIndex, sameFeatures, sameDiagnostics]

theorem RepeatedPairs.echoes {pairs repeated : List ScanPair}
    (repeats : RepeatedPairs pairs repeated) :
    (({} : Assembly).declareAll pairs).Echoes (fun id => id) false
      (({} : Assembly).declareAll repeated) := by
  induction repeats with
  | none => exact Assembly.echoes_empty
  | keep _ declared ref ih =>
      rw [Assembly.declareAll_snoc, Assembly.declareAll_snoc]
      exact ih.declare (fun _ _ same => same) declared ref (fun quiet => by cases quiet)
  | again _ member asks ih =>
      rw [Assembly.declareAll_snoc, Assembly.declare_again member asks]
      exact ih

/-- The same annotations, among which mappings with a name are repeated behind the first of them. -/
inductive Annotation.Repeated : List Annotation → List Annotation → Prop
  | none : Repeated [] []
  | keep {annotations repeated : List Annotation} (declared : Annotation) :
      Repeated annotations repeated → Repeated (annotations ++ [declared]) (repeated ++ [declared])
  | again {annotations repeated : List Annotation} {declaration : MappingDeclaration} :
      Repeated annotations repeated → .mapping declaration ∈ repeated →
      FeatureAtlas.isBlank declaration.targetConcept = false →
      Repeated annotations (repeated ++ [.mapping declaration])

def SourceTree.Repeats (tree other : SourceTree) : Prop :=
  List.Forall₂ (Element.Reannotated Annotation.Repeated) tree.elements other.elements ∧
    other.roots = tree.roots

namespace Annotation.Repeated

variable {annotations repeated : List Annotation}

theorem append (repeats : Repeated annotations repeated) (later : List Annotation) :
    Repeated (annotations ++ later) (repeated ++ later) := by
  induction later using List.reverseRecOn with
  | nil => simpa using repeats
  | append_singleton later declared ih =>
      rw [← List.append_assoc, ← List.append_assoc]
      exact ih.keep declared

theorem refl (annotations : List Annotation) : Repeated annotations annotations := by
  simpa using Repeated.none.append annotations

theorem of_copy (before after : List Annotation) {declaration : MappingDeclaration}
    (first : .mapping declaration ∈ before)
    (named : FeatureAtlas.isBlank declaration.targetConcept = false) :
    Repeated (before ++ after) (before ++ [.mapping declaration] ++ after) :=
  ((refl before).again first named).append after

theorem mappedKeys (repeats : Repeated annotations repeated) :
    (repeated.filterMap mappedKey?).eraseDups = (annotations.filterMap mappedKey?).eraseDups := by
  induction repeats with
  | none => rfl
  | @keep annotations repeated declared _ ih =>
      have known (key : NodeKey) :
          key ∈ repeated.filterMap mappedKey? ↔ key ∈ annotations.filterMap mappedKey? := by
        rw [← List.mem_eraseDups, ih, List.mem_eraseDups]
      rw [List.filterMap_append, List.filterMap_append]
      cases asks : declared.mappedKey? with
      | none => simpa [asks] using ih
      | some key =>
          simp only [List.filterMap_cons, asks, List.filterMap_nil, eraseDups_snoc, ih, known]
  | @again annotations repeated declaration _ member named ih =>
      have key := mappedKey?_eq_some_iff.mpr ⟨declaration, rfl, named, rfl⟩
      have known : declaration.key ∈ repeated.filterMap mappedKey? :=
        List.mem_filterMap.mpr ⟨_, member, key⟩
      rw [List.filterMap_append, List.filterMap_cons, key]
      exact (eraseDups_snoc _ _).trans ((if_pos known).trans ih)

theorem pairs {element image : Element}
    (ref : image.toRef = element.toRef.renumber fun id => id)
    (repeats : Repeated annotations repeated) :
    RepeatedPairs
      ((annotations.filter isDeclaration).map fun declared => { element, declared })
      ((repeated.filter isDeclaration).map fun declared => { element := image, declared }) := by
  induction repeats with
  | none => exact .none
  | keep declared _ ih =>
      rw [List.filter_append, List.filter_append, List.map_append, List.map_append]
      cases declaration : declared.isDeclaration with
      | false => simpa [declaration] using ih
      | true =>
          simp only [List.filter_cons, declaration, if_true, List.filter_nil, List.map_cons,
            List.map_nil]
          exact ih.keep rfl ref
  | again _ member named ih =>
      rw [List.filter_append, List.map_append]
      exact ih.again (List.mem_map_of_mem (List.mem_filter.mpr ⟨member, rfl⟩))
        (mappedKey?_eq_some_iff.mpr ⟨_, rfl, named, rfl⟩)

end Annotation.Repeated

/-! The whole scan. -/

def Annotation.isUnnamedMapping : Annotation → Bool
  | mapping declaration => FeatureAtlas.isBlank declaration.targetConcept
  | feature _ | other => false

theorem emptyFeatureName_ne (element : ElementRef) :
    Diagnostic.emptyFeatureName element ≠ .emptyMappingName element := by
  intro same
  have messages := congrArg Diagnostic.message same
  simp only [Diagnostic.emptyFeatureName, Diagnostic.emptyMappingName, Diagnostic.ofKind,
    String.append_right_inj] at messages
  exact absurd messages (by decide)

theorem Annotation.count_emptyName? (element : ElementRef) (annotations : List Annotation) :
    (annotations.filterMap fun declared => declared.emptyName? element).count
        (.emptyMappingName element) =
      annotations.countP Annotation.isUnnamedMapping := by
  rw [List.count_filterMap]
  congr 1
  funext declared
  cases declared with
  | other => rfl
  | feature declaration =>
      simp [emptyFeatureName_ne, Annotation.emptyName?, Annotation.isUnnamedMapping]
  | mapping declaration =>
      rw [emptyName?, isUnnamedMapping]
      cases FeatureAtlas.isBlank declaration.targetConcept <;> simp

namespace Scan

variable {tree : SourceTree} {roots : List ElementId} {scan : Scan}

theorem count_emptyMappingName (accepted : tree.scanRoots roots = .ok scan) {element : Element}
    (scanned : element ∈ tree.elementsOf scan.visited) :
    scan.build.diagnostics.count (.emptyMappingName element.toRef) =
      element.annotations.countP Annotation.isUnnamedMapping := by
  have heard := (reportsOn_eq accepted scanned (.inl rfl)).trans element.filter_emptyName_problems
  rw [← Annotation.count_emptyName? element.toRef, ← heard, FeatureModel.reportsOn,
    List.count_filter]
  simp [Diagnostic.emptyMappingName, Diagnostic.ofKind]

theorem element_scanned (accepted : tree.scanRoots roots = .ok scan) {mapping : Mapping}
    (member : mapping ∈ scan.mappings) : mapping.element ∈ tree.elementsOf scan.visited := by
  rw [mappings_eq accepted, (scanned_eq accepted).1, SourceTree.mappings,
    List.mem_flatMap] at member
  obtain ⟨element, scanned, maps⟩ := member
  rwa [(mem_mappings.mp maps).1]

theorem members_eq (accepted : tree.scanRoots roots = .ok scan) {node : FeatureNode}
    (member : node ∈ scan.build.nodes) :
    node.members = ((scan.mappings.filter fun mapping => mapping.key == node.key).map
      Mapping.element).eraseDups.map Element.toRef := by
  obtain ⟨_, _, distinct⟩ := scanned_eq accepted
  -- numbers tell the elements of a scan apart, and so do the references to them
  have apart : ∀ first ∈ (scan.mappings.filter fun mapping => mapping.key == node.key).map
      Mapping.element, ∀ second ∈ (scan.mappings.filter fun mapping =>
        mapping.key == node.key).map Mapping.element, first.id = second.id → first = second := by
    intro first firstMember second secondMember
    obtain ⟨mapping, kept, rfl⟩ := List.mem_map.mp firstMember
    obtain ⟨other, otherKept, rfl⟩ := List.mem_map.mp secondMember
    exact List.inj_on_of_nodup_map distinct
      (element_scanned accepted (List.mem_filter.mp kept).1)
      (element_scanned accepted (List.mem_filter.mp otherKept).1)
  rw [← scan.build_coherent.membersOf_key member, scan.build_declared.members,
    Assembly.membersOf_declareAll, ← eraseDups_map fun first firstMember second secondMember same =>
      apart first firstMember second secondMember (congrArg ElementRef.id same),
    ← foldl_addElement, List.map_map]
  · rfl
  · intro first firstMember second secondMember same
    obtain ⟨element, inside, rfl⟩ := List.mem_map.mp firstMember
    obtain ⟨other, otherInside, rfl⟩ := List.mem_map.mp secondMember
    rw [apart element inside other otherInside same]

theorem isBlank_of_mem_mappings {mapping : Mapping} (member : mapping ∈ scan.mappings) :
    isBlank mapping.key.name = false := by
  obtain ⟨pair, _, found⟩ := List.mem_filterMap.mp member
  obtain ⟨key, asks, rfl⟩ := Option.map_eq_some_iff.mp found
  obtain ⟨declaration, _, named, rfl⟩ := Annotation.mappedKey?_eq_some_iff.mp asks
  exact named

theorem build_repeats (accepted : tree.scanRoots roots = .ok scan) {other : SourceTree}
    (repeats : tree.Repeats other) :
    ∃ again, other.scanRoots roots = .ok again ∧ again.build = scan.build := by
  have resembles : tree.Resembles (Element.Reannotated Annotation.Repeated) other :=
    ⟨repeats.1, Element.Reannotated.alike⟩
  obtain ⟨again, otherAccepted, visited⟩ := resembles.alike.scanRoots accepted
  obtain ⟨isTree, _, pairs⟩ := SourceTree.scanRoots_sound accepted
  obtain ⟨isOther, _, otherPairs⟩ := SourceTree.scanRoots_sound otherAccepted
  have mirrors : scan.tree.Mirrors (fun id => id) again.tree := by
    rw [isTree, isOther]
    exact resembles.mirrors fun same => same.mirrors same.annotations.mappedKeys
  have repeated : RepeatedPairs scan.pairs again.pairs := by
    rw [pairs, otherPairs, visited]
    exact related_flatMap .none .append ((resembles.elementsOf scan.visited).imp
      fun _ _ same => same.annotations.pairs same.ref)
  have same := (build_echoes_of_declared accepted otherAccepted mirrors
    repeated.echoes).unnumbered
  have all : scan.build.diagnostics.filter (Diagnostic.heard false) = scan.build.diagnostics :=
    List.filter_eq_self.mpr fun _ _ => rfl
  rw [all] at same
  exact ⟨again, otherAccepted, same⟩

/-- A node for each key that is mapped to, and in it the elements with a mapping to that key, each
once and where it came first. A mapping without a name leads to no node and is reported by itself,
and one with a name may stand again behind itself without a trace in the model. -/
theorem build_gathers_distinct_mappings (accepted : tree.scanRoots roots = .ok scan) :
    scan.build.nodes.map FeatureNode.key =
        ((tree.mappings scan.visited).map Mapping.key).eraseDups ∧
      (∀ node ∈ scan.build.nodes, isBlank node.key.name = false ∧
        node.members = (((tree.mappings scan.visited).filter fun mapping =>
          mapping.key == node.key).map Mapping.element).eraseDups.map Element.toRef) ∧
      (∀ element ∈ tree.elementsOf scan.visited,
        scan.build.diagnostics.count (.emptyMappingName element.toRef) =
          element.annotations.countP Annotation.isUnnamedMapping) ∧
      ∀ other, tree.Repeats other →
        ∃ again, other.scanRoots roots = .ok again ∧ again.build = scan.build := by
  have mappings : scan.mappings = tree.mappings scan.visited := by
    rw [mappings_eq accepted, (scanned_eq accepted).1]
  refine ⟨?_, ?_, fun element => count_emptyMappingName accepted,
    fun other => build_repeats accepted⟩
  · rw [← mappings]
    exact scan.build_keys
  · intro node member
    have key : node.key ∈ nodeKeys scan.mappings := by
      rw [← scan.build_keys]
      exact List.mem_map_of_mem member
    obtain ⟨mapping, mapped, isKey⟩ := List.mem_map.mp (List.mem_eraseDups.mp key)
    refine ⟨isKey ▸ isBlank_of_mem_mappings mapped, ?_⟩
    rw [← mappings]
    exact members_eq accepted member

def kiosk (annotations : List Annotation) : SourceTree :=
  .ofOutlines [{
    name := "Kiosk"
    annotations
    children := [{
      kind := .method
      name := "sell"
      annotations := [.mapping { targetConcept := "sales" },
        .mapping { targetConcept := "Sales" }] }] }]

def kioskScan (annotations : List Annotation) : Scan :=
  { tree := kiosk annotations, visited := [0, 1]
    pairs := (kiosk annotations).elements.flatMap Element.pairs }

theorem kiosk_accepted (annotations : List Annotation) :
    (kiosk annotations).scanRoots [0] = .ok (kioskScan annotations) :=
  SourceTree.scanRoots_of_runWithin (kioskScan annotations) 5 rfl

theorem kiosk_scanned (annotations : List Annotation) :
    (kiosk annotations).elements.getD 0 default ∈
      (kiosk annotations).elementsOf (kioskScan annotations).visited :=
  List.mem_filterMap.mpr ⟨0, by simp [kioskScan], rfl⟩

theorem kiosk_repeats {annotations repeated : List Annotation}
    (repeats : Annotation.Repeated annotations repeated) :
    (kiosk annotations).Repeats (kiosk repeated) :=
  ⟨.cons ⟨repeats, rfl⟩ (.cons ⟨.refl _, rfl⟩ .nil), rfl⟩

def sales : List Annotation :=
  [.mapping { targetConcept := "Sales" }, .mapping {},
    .mapping { targetConcept := "Sales", granularity := .module }]

def repeatedSales : List Annotation :=
  [.mapping { targetConcept := "Sales" }, .mapping {}, .mapping { targetConcept := "Sales" },
    .mapping { targetConcept := "Sales", granularity := .module }]

theorem kiosk_gathers_sales :
    (kiosk sales).scanRoots [0] = .ok (kioskScan sales) ∧
      (kioskScan sales).build.nodes.map (fun node => node.key.display) =
        ["Sales [CONCEPT]", "Sales [MODULE]", "sales [CONCEPT]"] ∧
      (∀ node ∈ (kioskScan sales).build.nodes, node.key = { name := "Sales" } →
        node.members.map ElementRef.qualifiedName = ["Kiosk", "Kiosk.sell"]) ∧
      (kiosk sales).elements.getD 0 default ∈ (kiosk sales).elementsOf (kioskScan sales).visited ∧
      (kioskScan sales).build.diagnostics.count
        (.emptyMappingName ((kiosk sales).elements.getD 0 default).toRef) = 1 ∧
      (kiosk sales).Repeats (kiosk repeatedSales) ∧
      ∃ again, (kiosk repeatedSales).scanRoots [0] = .ok again ∧
        again.build = (kioskScan sales).build := by
  have repeats : (kiosk sales).Repeats (kiosk repeatedSales) :=
    kiosk_repeats (.of_copy (sales.take 2) (sales.drop 2) (by decide) (by decide))
  obtain ⟨keys, nodes, unnamed, again⟩ := build_gathers_distinct_mappings (kiosk_accepted sales)
  refine ⟨kiosk_accepted sales, ?_, ?_, kiosk_scanned sales, ?_, repeats, again _ repeats⟩
  · have displayed := congrArg (List.map NodeKey.display) keys
    rw [List.map_map] at displayed
    exact displayed.trans (by decide)
  · intro node member isKey
    rw [(nodes node member).2, isKey]
    decide
  · exact (unnamed _ (kiosk_scanned sales)).trans (by decide)

/-- A mapping without a name is reported again when it stands again. -/
theorem kiosk_unnamed_copy_reported :
    ∃ scan again, (kiosk [.mapping {}]).scanRoots [0] = .ok scan ∧
      (kiosk [.mapping {}, .mapping {}]).scanRoots [0] = .ok again ∧
      again.build ≠ scan.build := by
  refine ⟨_, _, kiosk_accepted _, kiosk_accepted _, ?_⟩
  intro same
  have once := count_emptyMappingName (kiosk_accepted [.mapping {}]) (kiosk_scanned _)
  have twice := count_emptyMappingName (kiosk_accepted [.mapping {}, .mapping {}])
    (kiosk_scanned _)
  rw [same] at twice
  exact absurd (once.symm.trans twice) (by decide)

end Scan

end FeatureAtlas
