import FeatureAtlas.Proofs.Model.RootOrder

/-!
The features that elements declare. Each element has the first one with a name; the others with a
name are reported as duplicates of it, in their order, and every annotation that lacks a name is
reported by itself.
-/

namespace FeatureAtlas

namespace Annotation

def namedFeature? : Annotation → Option FeatureDeclaration
  | feature declaration =>
      if FeatureAtlas.isBlank declaration.name then none else some declaration
  | mapping _ | other => none

def emptyName? (element : ElementRef) : Annotation → Option Diagnostic
  | feature declaration =>
      if FeatureAtlas.isBlank declaration.name then some (.emptyFeatureName element) else none
  | mapping declaration =>
      if FeatureAtlas.isBlank declaration.targetConcept then some (.emptyMappingName element)
      else none
  | other => none

end Annotation

namespace Element

def namedFeatures (element : Element) : List FeatureDeclaration :=
  element.annotations.filterMap Annotation.namedFeature?

def firstFeature? (element : Element) : Option DeclaredFeature :=
  element.namedFeatures.head?.map fun declaration => { element := element.toRef, declaration }

end Element

/-- The first of the named features is kept, and the others are reported. -/
def duplicatesOf (element : ElementRef) : List FeatureDeclaration → List Diagnostic
  | [] => []
  | kept :: others =>
      others.map fun ignored => .duplicateFeature element kept.name ignored.name

def FeatureModel.reportsOn (model : FeatureModel) (kind : DiagnosticKind) (element : Element) :
    List Diagnostic :=
  model.diagnostics.filter fun diagnostic =>
    diagnostic.kind == kind && diagnostic.elements == [element.toRef]

/-! The pairs of one element. -/

theorem ScanPair.feature?_eq (pair : ScanPair) :
    pair.feature? = pair.declared.namedFeature?.map fun declaration =>
      { element := pair.element.toRef, declaration } := by
  obtain ⟨element, declared⟩ := pair
  cases declared with
  | other => rfl
  | mapping _ => rfl
  | feature declaration =>
      simp only [feature?, Annotation.namedFeature?]
      split <;> rfl

theorem Element.filterMap_pairs {β : Type} (element : Element) {value : Annotation → Option β}
    (silent : value .other = none) :
    element.pairs.filterMap (fun pair => value pair.declared) =
      element.annotations.filterMap value := by
  -- annotations of other tools are not among the pairs
  rw [pairs, List.filterMap_map, List.filterMap_filter]
  apply List.filterMap_congr
  intro declared _
  cases declared with
  | other => exact silent.symm
  | feature _ => rfl
  | mapping _ => rfl

theorem Element.feature?_eq (element : Element) : element.feature? = element.firstFeature? := by
  have each : element.pairs.filterMap ScanPair.feature? =
      element.pairs.filterMap fun pair => pair.declared.namedFeature?.map fun declaration =>
        { element := element.toRef, declaration } := by
    apply List.filterMap_congr
    intro pair member
    rw [pair.feature?_eq, element_of_mem_pairs member]
  rw [feature?, ← List.head?_filterMap, each, ← List.map_filterMap,
    element.filterMap_pairs rfl, List.head?_map, firstFeature?, namedFeatures]

theorem filter_duplicate_reportsOf {element : Element} {pairs : List ScanPair}
    (own : ∀ pair ∈ pairs, pair.element = element) (kept : Option DeclaredFeature) :
    (reportsOf kept pairs).filter (fun diagnostic => diagnostic.kind == .duplicateFeature) =
      duplicatesOf element.toRef ((kept.map DeclaredFeature.declaration).toList ++
        pairs.filterMap fun pair => pair.declared.namedFeature?) := by
  induction pairs generalizing kept with
  | nil => cases kept <;> rfl
  | cons pair rest ih =>
      have later := ih (fun other member => own other (List.mem_cons_of_mem pair member))
        (kept.or pair.feature?)
      have here := own pair (by simp)
      obtain ⟨_, declared⟩ := pair
      subst here
      rw [reportsOf, List.filter_append, later, List.filterMap_cons]
      cases declared with
      | other => simp [ScanPair.problems, ScanPair.feature?, Annotation.namedFeature?]
      | mapping declaration =>
          simp only [ScanPair.problems, ScanPair.feature?, Annotation.namedFeature?,
            Option.or_none]
          split <;> rfl
      | feature declaration =>
          by_cases blank : isBlank declaration.name = true
          · simp [ScanPair.problems, ScanPair.feature?, Annotation.namedFeature?, blank,
              Diagnostic.emptyFeatureName, Diagnostic.ofKind]
          · cases kept with
            | none => simp [ScanPair.problems, ScanPair.feature?, Annotation.namedFeature?, blank]
            | some feature =>
                simp [ScanPair.problems, ScanPair.feature?, Annotation.namedFeature?, blank,
                  Diagnostic.duplicateFeature, Diagnostic.ofKind, duplicatesOf]

theorem filter_emptyName_reportsOf {element : Element} {pairs : List ScanPair}
    (own : ∀ pair ∈ pairs, pair.element = element) (kept : Option DeclaredFeature) :
    (reportsOf kept pairs).filter (fun diagnostic => diagnostic.kind == .emptyName) =
      pairs.filterMap fun pair => pair.declared.emptyName? element.toRef := by
  induction pairs generalizing kept with
  | nil => rfl
  | cons pair rest ih =>
      have later := ih (fun other member => own other (List.mem_cons_of_mem pair member))
        (kept.or pair.feature?)
      have here := own pair (by simp)
      obtain ⟨_, declared⟩ := pair
      subst here
      rw [reportsOf, List.filter_append, later, List.filterMap_cons]
      cases declared with
      | other => rfl
      | mapping declaration =>
          simp only [ScanPair.problems, Annotation.emptyName?]
          split <;> rfl
      | feature declaration =>
          simp only [ScanPair.problems, Annotation.emptyName?]
          by_cases blank : isBlank declaration.name = true
          · simp [blank, Diagnostic.emptyFeatureName, Diagnostic.ofKind]
          · cases kept with
            | none => simp [blank]
            | some feature => simp [blank, Diagnostic.duplicateFeature, Diagnostic.ofKind]

namespace Element

theorem filter_duplicate_problems (element : Element) :
    element.problems.filter (fun diagnostic => diagnostic.kind == .duplicateFeature) =
      duplicatesOf element.toRef element.namedFeatures := by
  rw [problems, filter_duplicate_reportsOf fun _ => element_of_mem_pairs,
    element.filterMap_pairs rfl]
  rfl

theorem filter_emptyName_problems (element : Element) :
    element.problems.filter (fun diagnostic => diagnostic.kind == .emptyName) =
      element.annotations.filterMap fun declared => declared.emptyName? element.toRef := by
  rw [problems, filter_emptyName_reportsOf fun _ => element_of_mem_pairs,
    element.filterMap_pairs rfl]

theorem declarationProblem_of_mem {element : Element} {diagnostic : Diagnostic}
    (member : diagnostic ∈ element.problems) : DeclarationProblem element.toRef diagnostic := by
  have alone : (({} : Assembly).declareAll element.pairs).model.diagnostics = _ :=
    Assembly.diagnostics_declareAll Assembly.inStep_empty element.id_of_mem_pairs
  rw [problems] at member
  have reported : diagnostic ∈ (({} : Assembly).declareAll element.pairs).model.diagnostics := by
    rw [alone]
    exact List.mem_append_right _ member
  obtain ⟨pair, own, problem⟩ := Assembly.mem_declareAll reported
  rwa [element_of_mem_pairs own] at problem

end Element

theorem DeclarationProblem.elements {element : ElementRef} {diagnostic : Diagnostic}
    (problem : DeclarationProblem element diagnostic) : diagnostic.elements = [element] := by
  cases problem <;> rfl

/-! The whole scan. -/

namespace Assembly

variable {assembly : Assembly}

theorem features_declare (inStep : assembly.InStep) (pair : ScanPair) :
    (assembly.declare pair).model.features = assembly.model.features ++
      if (assembly.model.featureFor? pair.element.id).isSome then [] else pair.feature?.toList := by
  obtain ⟨element, declared⟩ := pair
  cases declared with
  | other => simp [declare, ScanPair.feature?]
  | mapping declaration =>
      simp only [declare, declareMapping, ScanPair.feature?, Option.toList_none, ite_self,
        List.append_nil]
      split
      · rfl
      · exact features_resolve declaration.key
  | feature declaration =>
      simp only [declare, declareFeature, ScanPair.feature?]
      by_cases blank : isBlank declaration.name = true
      · simp only [if_pos blank, Option.toList_none, ite_self, List.append_nil]
        rfl
      · simp only [if_neg blank, inStep.declared]
        cases assembly.model.featureFor? element.id with
        | some kept => simp [report, note, FeatureModel.addDiagnostic]
        | none => rfl

theorem features_declareAll (inStep : assembly.InStep) {pairs : List ScanPair} {id : ElementId}
    (own : ∀ pair ∈ pairs, pair.element.id = id) :
    (assembly.declareAll pairs).model.features = assembly.model.features ++
      if (assembly.model.featureFor? id).isSome then []
      else (pairs.findSome? ScanPair.feature?).toList := by
  induction pairs generalizing assembly with
  | nil => simp [declareAll]
  | cons pair rest ih =>
      have here := own pair (by simp)
      have later := fun other member => own other (List.mem_cons_of_mem pair member)
      rw [declareAll, List.foldl_cons, ← declareAll, ih (inStep.declare pair) later,
        features_declare inStep, featureFor?_declare inStep, here, if_pos rfl, List.append_assoc,
        List.findSome?_cons]
      cases assembly.model.featureFor? id with
      | some kept => simp
      | none => cases pair.feature? <;> simp

theorem features_elements (inStep : assembly.InStep) {elements : List Element}
    (distinct : (elements.map Element.id).Nodup)
    (fresh : ∀ element ∈ elements, assembly.model.featureFor? element.id = none) :
    (assembly.declareAll (elements.flatMap Element.pairs)).model.features =
      assembly.model.features ++ elements.filterMap Element.feature? := by
  rw [List.filterMap_eq_flatMap_toList]
  refine declareAll_elements (fun inStep element new => ?_) inStep distinct fresh
  rw [features_declareAll inStep element.id_of_mem_pairs, new]
  rfl

end Assembly

namespace Scan

variable {tree : SourceTree} {roots : List ElementId} {scan : Scan}

theorem build_features (accepted : tree.scanRoots roots = .ok scan) :
    scan.build.features = (tree.elementsOf scan.visited).filterMap Element.firstFeature? := by
  obtain ⟨_, declared, distinct⟩ := scanned_eq accepted
  have features : (({} : Assembly).declareAll
      ((tree.elementsOf scan.visited).flatMap Element.pairs)).model.features = _ :=
    Assembly.features_elements Assembly.inStep_empty distinct fun _ _ => rfl
  rw [scan.build_declared.features, declared, features]
  exact List.filterMap_congr fun element _ => element.feature?_eq

theorem reportsOn_eq (accepted : tree.scanRoots roots = .ok scan) {element : Element}
    (scanned : element ∈ tree.elementsOf scan.visited) {kind : DiagnosticKind}
    (early : kind = .emptyName ∨ kind = .duplicateFeature) :
    scan.build.reportsOn kind element =
      element.problems.filter fun diagnostic => diagnostic.kind == kind := by
  obtain ⟨_, _, distinct⟩ := scanned_eq accepted
  -- a refusal lists two elements, and what is reported of other elements lists those
  have others : scan.build.reportsOn kind element =
      ((tree.elementsOf scan.visited).flatMap Element.problems ++
        scan.refusedNestings.map Nesting.refusal).filter fun diagnostic =>
          diagnostic.kind == kind && diagnostic.elements == [element.toRef] := by
    rw [← filter_not_cycle accepted, List.filter_filter, FeatureModel.reportsOn]
    apply List.filter_congr
    intro diagnostic _
    rcases early with rfl | rfl <;> cases diagnostic.kind <;> simp
  have refusals : ((scan.refusedNestings.map Nesting.refusal).filter fun diagnostic =>
      diagnostic.kind == kind && diagnostic.elements == [element.toRef]) = [] := by
    rw [List.filter_eq_nil_iff]
    intro diagnostic member
    obtain ⟨nesting, _, rfl⟩ := List.mem_map.mp member
    simp [Nesting.refusal, Diagnostic.unresolvedParent, Diagnostic.ofKind]
  rw [others, List.filter_append, refusals, List.append_nil, List.filter_flatMap,
    flatMap_eq_of_nodup distinct.of_map scanned]
  · apply List.filter_congr
    intro diagnostic member
    rw [(Element.declarationProblem_of_mem member).elements, beq_self_eq_true, Bool.and_true]
  · intro other otherScanned different
    rw [List.filter_eq_nil_iff]
    intro diagnostic member
    have elements := (Element.declarationProblem_of_mem member).elements
    have apart : other.toRef ≠ element.toRef := fun same =>
      different (List.inj_on_of_nodup_map distinct otherScanned scanned
        (congrArg ElementRef.id same))
    simp [elements, apart]

theorem exists_element_of_early (accepted : tree.scanRoots roots = .ok scan)
    {diagnostic : Diagnostic} (member : diagnostic ∈ scan.build.diagnostics)
    (early : diagnostic.kind = .emptyName ∨ diagnostic.kind = .duplicateFeature) :
    ∃ element ∈ tree.elementsOf scan.visited, diagnostic ∈ element.problems := by
  have kept : diagnostic ∈ scan.build.diagnostics.filter fun other => other.kind != .cycle := by
    rw [List.mem_filter]
    rcases early with kind | kind <;> simp [member, kind]
  rw [filter_not_cycle accepted] at kept
  rcases List.mem_append.mp kept with declared | refused
  · exact List.mem_flatMap.mp declared
  · obtain ⟨nesting, _, rfl⟩ := List.mem_map.mp refused
    rcases early with kind | kind <;> cases kind

/-- The features of a model are those that its elements declare first with a name, in the order of
the scan. The others with a name are reported one by one as duplicates of the first, and those
without a name as empty; no element but a scanned one is reported for its declarations. -/
theorem build_keeps_first_features (accepted : tree.scanRoots roots = .ok scan) :
    scan.build.features = (tree.elementsOf scan.visited).filterMap Element.firstFeature? ∧
      (∀ element ∈ tree.elementsOf scan.visited,
        scan.build.reportsOn .duplicateFeature element =
            duplicatesOf element.toRef element.namedFeatures ∧
          (scan.build.reportsOn .duplicateFeature element).length =
            element.namedFeatures.length - 1 ∧
          scan.build.reportsOn .emptyName element =
            element.annotations.filterMap fun declared => declared.emptyName? element.toRef) ∧
      (∀ diagnostic ∈ scan.build.diagnostics,
        diagnostic.kind = .emptyName ∨ diagnostic.kind = .duplicateFeature →
          ∃ element ∈ tree.elementsOf scan.visited, diagnostic.elements = [element.toRef]) ∧
      ∀ id feature, scan.build.featureFor? id = some feature ↔
        ∃ element ∈ tree.elementsOf scan.visited,
          element.id = id ∧ element.firstFeature? = some feature := by
  refine ⟨build_features accepted, ?_, ?_, ?_⟩
  · intro element scanned
    have duplicates := (reportsOn_eq accepted scanned (.inr rfl)).trans
      element.filter_duplicate_problems
    refine ⟨duplicates, ?_, (reportsOn_eq accepted scanned (.inl rfl)).trans
      element.filter_emptyName_problems⟩
    rw [duplicates]
    cases element.namedFeatures <;> simp [duplicatesOf]
  · intro diagnostic member early
    obtain ⟨element, scanned, problem⟩ := exists_element_of_early accepted member early
    exact ⟨element, scanned, (Element.declarationProblem_of_mem problem).elements⟩
  · intro id feature
    rw [featureFor?_eq_some_iff accepted]
    refine exists_congr fun element => ?_
    rw [← SourceTree.mem_scanned_iff accepted, element.feature?_eq]

def desk : SourceTree :=
  .ofOutlines [{
    name := "Desk"
    annotations := [.feature {}, .mapping { targetConcept := " " }, .feature { name := "Pay" },
      .feature { name := "\t" }, .feature { name := "Refund" }, .feature { name := "Pay" }]
    children := [{ kind := .method, name := "pay", annotations := [.feature { name := "Pay" }] }] }]

def deskScan : Scan :=
  { tree := desk, visited := [0, 1], pairs := desk.elements.flatMap Element.pairs }

theorem desk_keeps_pay :
    desk.scanRoots desk.roots = .ok deskScan ∧
      desk.elements.getD 0 default ∈ desk.elementsOf deskScan.visited ∧
      deskScan.build.features.map (fun feature => feature.element.qualifiedName) =
        ["Desk", "Desk.pay"] ∧
      (deskScan.build.reportsOn .duplicateFeature (desk.elements.getD 0 default)).map
          Diagnostic.message =
        ["Desk declares feature 'Refund' but already declares 'Pay'; keeping the first",
          "Desk declares feature 'Pay' but already declares 'Pay'; keeping the first"] ∧
      (deskScan.build.reportsOn .emptyName (desk.elements.getD 0 default)).map
          Diagnostic.message =
        ["Desk declares a feature with an empty name; declaration ignored",
          "Desk maps to a concept with an empty name; no node created",
          "Desk declares a feature with an empty name; declaration ignored"] := by
  have accepted : desk.scanRoots desk.roots = .ok deskScan :=
    SourceTree.scanRoots_of_runWithin deskScan 5 rfl
  have scanned : desk.elements.getD 0 default ∈ desk.elementsOf deskScan.visited :=
    List.mem_filterMap.mpr ⟨0, by decide, rfl⟩
  obtain ⟨features, each, _⟩ := build_keeps_first_features accepted
  obtain ⟨duplicates, _, empty⟩ := each _ scanned
  refine ⟨accepted, scanned, ?_, ?_, ?_⟩
  · rw [features]
    decide
  · rw [duplicates]
    decide
  · rw [empty]
    decide

end Scan

end FeatureAtlas
