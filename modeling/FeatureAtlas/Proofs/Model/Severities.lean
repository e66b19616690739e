import FeatureAtlas.Proofs.Model.RootOrder

/-!
How severe the diagnostics of a model are, told from what was scanned. There is an error where a
declaration has a blank name or nodes contain each other, and a warning where an element has two
features or a level is nested in a finer one.
-/

namespace FeatureAtlas

def Annotation.isNamedFeature : Annotation → Bool
  | .feature declaration => !FeatureAtlas.isBlank declaration.name
  | .mapping _ | .other => false

theorem Annotation.isDeclaration_of_isNamedFeature {declared : Annotation}
    (named : declared.isNamedFeature = true) : declared.isDeclaration = true := by
  cases declared with
  | feature _ => rfl
  | mapping _ => cases named
  | other => cases named

/-! One element. -/

def Diagnostic.isWarning (diagnostic : Diagnostic) : Bool := diagnostic.severity == .warning

theorem ScanPair.exists_error_iff (pair : ScanPair) (kept : Option DeclaredFeature) :
    (∃ diagnostic ∈ pair.problems kept, diagnostic.severity = .error) ↔
      pair.declared.isBlank = true := by
  obtain ⟨element, declared⟩ := pair
  cases declared with
  | other => simp [problems, Annotation.isBlank]
  | mapping declaration =>
      simp only [problems, Annotation.isBlank]
      split
      · simp [*, Diagnostic.emptyMappingName, Diagnostic.ofKind, DiagnosticKind.severity]
      · simp [*]
  | feature declaration =>
      simp only [problems, Annotation.isBlank]
      split
      · simp [*, Diagnostic.emptyFeatureName, Diagnostic.ofKind, DiagnosticKind.severity]
      · cases kept with
        | none => simp [*]
        | some feature =>
            simp [*, Diagnostic.duplicateFeature, Diagnostic.ofKind, DiagnosticKind.severity]

theorem exists_error_reportsOf_iff (kept : Option DeclaredFeature) (pairs : List ScanPair) :
    (∃ diagnostic ∈ reportsOf kept pairs, diagnostic.severity = .error) ↔
      ∃ pair ∈ pairs, pair.declared.isBlank = true := by
  induction pairs generalizing kept with
  | nil => simp [reportsOf]
  | cons pair rest ih =>
      simp only [reportsOf, List.mem_append, or_and_right, exists_or, pair.exists_error_iff, ih,
        List.mem_cons, exists_eq_left]

theorem countP_reportsOf (kept : Option DeclaredFeature) (pairs : List ScanPair) :
    (reportsOf kept pairs).countP Diagnostic.isWarning =
      kept.toList.length + pairs.countP (fun pair => pair.declared.isNamedFeature) - 1 := by
  induction pairs generalizing kept with
  | nil => cases kept <;> rfl
  | cons pair rest ih =>
      obtain ⟨element, declared⟩ := pair
      rw [reportsOf, List.countP_append, ih, List.countP_cons]
      cases declared with
      | other => simp [ScanPair.problems, ScanPair.feature?, Annotation.isNamedFeature]
      | mapping declaration =>
          simp only [ScanPair.problems, ScanPair.feature?, Annotation.isNamedFeature,
            Option.or_none]
          split
          · simp [Diagnostic.isWarning, Diagnostic.emptyMappingName, Diagnostic.ofKind,
              DiagnosticKind.severity]
          · simp
      | feature declaration =>
          by_cases blank : isBlank declaration.name = true
          · simp [ScanPair.problems, ScanPair.feature?, Annotation.isNamedFeature, blank,
              Diagnostic.isWarning, Diagnostic.emptyFeatureName, Diagnostic.ofKind,
              DiagnosticKind.severity]
          · cases kept with
            | none => simp [ScanPair.problems, ScanPair.feature?, Annotation.isNamedFeature, blank]
            | some feature =>
                simp [ScanPair.problems, ScanPair.feature?, Annotation.isNamedFeature, blank,
                  Diagnostic.isWarning, Diagnostic.duplicateFeature, Diagnostic.ofKind,
                  DiagnosticKind.severity]
                omega

namespace Element

theorem exists_error_iff (element : Element) :
    (∃ diagnostic ∈ element.problems, diagnostic.severity = .error) ↔
      ∃ declared ∈ element.annotations, declared.isBlank = true := by
  rw [problems, exists_error_reportsOf_iff]
  constructor
  · rintro ⟨pair, member, blank⟩
    obtain ⟨declared, kept, rfl⟩ := List.mem_map.mp member
    exact ⟨declared, (List.mem_filter.mp kept).1, blank⟩
  · rintro ⟨declared, member, blank⟩
    have isDeclaration : declared.isDeclaration = true := by
      cases declared with
      | other => cases blank
      | feature _ => rfl
      | mapping _ => rfl
    exact ⟨_, List.mem_map_of_mem (List.mem_filter.mpr ⟨member, isDeclaration⟩), blank⟩

theorem exists_warning_iff (element : Element) :
    (∃ diagnostic ∈ element.problems, diagnostic.severity = .warning) ↔
      2 ≤ element.annotations.countP Annotation.isNamedFeature := by
  have count : element.pairs.countP (fun pair => pair.declared.isNamedFeature) =
      element.annotations.countP Annotation.isNamedFeature := by
    rw [pairs, List.countP_map, List.countP_filter]
    apply List.countP_congr
    intro declared _
    simpa using Annotation.isDeclaration_of_isNamedFeature
  have warned : (∃ diagnostic ∈ element.problems, diagnostic.severity = .warning) ↔
      0 < element.problems.countP Diagnostic.isWarning := by
    simp [List.countP_pos_iff, Diagnostic.isWarning]
  rw [warned, problems, countP_reportsOf, count, Option.toList_none, List.length_nil]
  omega

end Element

/-! A whole scan. -/

namespace Scan

variable {tree : SourceTree} {roots : List ElementId} {scan : Scan}

theorem mem_severities_iff (accepted : tree.scanRoots roots = .ok scan) (severity : Severity) :
    scan.build.HasSeverity severity ↔
      (∃ element ∈ tree.elementsOf scan.visited, ∃ diagnostic ∈ element.problems,
        diagnostic.severity = severity) ∨
      (severity = .warning ∧ ∃ nesting, scan.Nests nesting ∧
        nesting.child.granularity.rank < nesting.parent.granularity.rank) ∨
      severity = .error ∧ ∃ key, Relation.TransGen scan.build.HasChild key key := by
  have refused : severity ∈ (scan.refusedNestings.map Nesting.refusal).map Diagnostic.severity ↔
      severity = .warning ∧ ∃ nesting, scan.Nests nesting ∧
        nesting.child.granularity.rank < nesting.parent.granularity.rank := by
    rw [List.map_map, List.mem_map]
    constructor
    · rintro ⟨nesting, member, rfl⟩
      exact ⟨rfl, nesting, (mem_refusedNestings accepted).mp member⟩
    · rintro ⟨rfl, nesting, facts⟩
      exact ⟨nesting, (mem_refusedNestings accepted).mpr facts, rfl⟩
  have declared : severity ∈ ((tree.elementsOf scan.visited).flatMap Element.problems).map
        Diagnostic.severity ↔ ∃ element ∈ tree.elementsOf scan.visited,
          ∃ diagnostic ∈ element.problems, diagnostic.severity = severity := by
    rw [List.map_flatMap, List.mem_flatMap]
    simp only [List.mem_map]
  rw [hasSeverity_iff, filter_not_cycle accepted, List.map_append, List.mem_append, declared,
    refused, hasCycle_iff, or_assoc]

theorem hasSeverity_error_iff (accepted : tree.scanRoots roots = .ok scan) :
    scan.build.HasSeverity .error ↔
      (∃ element ∈ tree.elementsOf scan.visited,
        ∃ declared ∈ element.annotations, declared.isBlank = true) ∨
      ∃ key, Relation.TransGen scan.build.HasChild key key := by
  simp [mem_severities_iff accepted, Element.exists_error_iff]

theorem hasSeverity_warning_iff (accepted : tree.scanRoots roots = .ok scan) :
    scan.build.HasSeverity .warning ↔
      (∃ element ∈ tree.elementsOf scan.visited,
        2 ≤ element.annotations.countP Annotation.isNamedFeature) ∨
      ∃ nesting, scan.Nests nesting ∧
        nesting.child.granularity.rank < nesting.parent.granularity.rank := by
  simp [mem_severities_iff accepted, Element.exists_warning_iff]

end Scan

/-! Policies. -/

namespace FeatureModel

variable (model : FeatureModel)

theorem isFailure_error_iff :
    FailurePolicy.isFailure .error model.diagnostics = true ↔ model.HasSeverity .error := by
  rw [FailurePolicy.isFailure, HasSeverity, List.mem_map]
  simp only [FailurePolicy.threshold?, List.any_eq_true]
  refine exists_congr fun diagnostic => and_congr_right fun _ => ?_
  cases diagnostic.severity <;> simp [Severity.reaches, Severity.rank]

theorem isFailure_warning_iff :
    FailurePolicy.isFailure .warning model.diagnostics = true ↔
      model.HasSeverity .error ∨ model.HasSeverity .warning := by
  rw [FailurePolicy.isFailure, HasSeverity, HasSeverity, List.mem_map, List.mem_map, ← exists_or]
  simp only [FailurePolicy.threshold?, List.any_eq_true, ← and_or_left]
  refine exists_congr fun diagnostic => and_congr_right fun _ => ?_
  cases diagnostic.severity <;> simp [Severity.reaches, Severity.rank]

theorem isFailure_never : FailurePolicy.isFailure .never model.diagnostics = false := rfl

end FeatureModel

end FeatureAtlas
