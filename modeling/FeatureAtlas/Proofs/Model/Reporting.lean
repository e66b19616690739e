import FeatureAtlas.Proofs.Model.Descent
import FeatureAtlas.Proofs.Model.Linking

/-!
What assembling a model reports: problems of declarations, then problems of link attempts, then the
cycles of the finished model.
-/

namespace FeatureAtlas

inductive DeclarationProblem (element : ElementRef) : Diagnostic → Prop
  | emptyFeature : DeclarationProblem element (.emptyFeatureName element)
  | emptyMapping : DeclarationProblem element (.emptyMappingName element)
  | duplicate (kept ignored : String) :
      DeclarationProblem element (.duplicateFeature element kept ignored)

inductive LinkProblem (attempt : LinkAttempt) : Diagnostic → Prop
  | levels (container content : NodeKey) :
      LinkProblem attempt
        (.unresolvedParent attempt.ancestor.toRef attempt.element.toRef container content)

theorem DeclarationProblem.kind {element : ElementRef} {diagnostic : Diagnostic}
    (problem : DeclarationProblem element diagnostic) : diagnostic.kind ≠ .cycle := by
  cases problem <;> simp [Diagnostic.emptyFeatureName, Diagnostic.emptyMappingName,
    Diagnostic.duplicateFeature, Diagnostic.ofKind]

theorem LinkProblem.kind {attempt : LinkAttempt} {diagnostic : Diagnostic}
    (problem : LinkProblem attempt diagnostic) : diagnostic.kind ≠ .cycle := by
  cases problem
  simp [Diagnostic.unresolvedParent, Diagnostic.ofKind]

namespace Assembly

theorem mem_report {assembly : Assembly} {diagnostic other : Diagnostic}
    {problem : Diagnostic → Prop} (reported : problem diagnostic)
    (member : other ∈ (assembly.report diagnostic).model.diagnostics) :
    other ∈ assembly.model.diagnostics ∨ problem other := by
  rcases List.mem_append.mp member with old | new
  · exact .inl old
  · exact .inr (List.mem_singleton.mp new ▸ reported)

theorem mem_declare {assembly : Assembly} {pair : ScanPair} {diagnostic : Diagnostic}
    (member : diagnostic ∈ (assembly.declare pair).model.diagnostics) :
    diagnostic ∈ assembly.model.diagnostics ∨ DeclarationProblem pair.element.toRef diagnostic := by
  obtain ⟨element, declared⟩ := pair
  cases declared with
  | other => exact .inl member
  | feature declaration =>
      simp only [declare, declareFeature] at member
      split at member
      · exact mem_report .emptyFeature member
      · split at member
        · exact mem_report (.duplicate _ _) member
        · exact .inl member
  | mapping declaration =>
      simp only [declare, declareMapping] at member
      split at member
      · exact mem_report .emptyMapping member
      · rw [resolve] at member
        split at member
        · exact .inl member
        · exact .inl member

theorem mem_declareAll {pairs : List ScanPair} {diagnostic : Diagnostic}
    (member : diagnostic ∈ (({} : Assembly).declareAll pairs).model.diagnostics) :
    ∃ pair ∈ pairs, DeclarationProblem pair.element.toRef diagnostic := by
  induction pairs using List.reverseRecOn with
  | nil => simp [declareAll] at member
  | append_singleton pairs pair ih =>
      rw [declareAll, List.foldl_append] at member
      rcases mem_declare member with old | new
      · obtain ⟨earlier, earlierMember, problem⟩ := ih old
        exact ⟨earlier, List.mem_append_left _ earlierMember, problem⟩
      · exact ⟨pair, by simp, new⟩

theorem mem_link {assembly : Assembly} {attempt : LinkAttempt} {diagnostic : Diagnostic}
    (member : diagnostic ∈ (assembly.link attempt).model.diagnostics) :
    diagnostic ∈ assembly.model.diagnostics ∨ LinkProblem attempt diagnostic := by
  simp only [link] at member
  split at member
  · exact .inl member
  · split at member
    · rw [connect] at member
      split at member
      · exact .inl member
      · exact .inl member
    · exact mem_report (.levels _ _) member

theorem mem_linkAll {assembly : Assembly} {attempts : List LinkAttempt} {diagnostic : Diagnostic}
    (member : diagnostic ∈ (assembly.linkAll attempts).model.diagnostics) :
    diagnostic ∈ assembly.model.diagnostics ∨
      ∃ attempt ∈ attempts, LinkProblem attempt diagnostic := by
  induction attempts using List.reverseRecOn with
  | nil => exact .inl member
  | append_singleton attempts attempt ih =>
      rw [linkAll, List.foldl_append] at member
      rcases mem_link member with old | new
      · refine (ih old).imp id ?_
        rintro ⟨earlier, earlierMember, problem⟩
        exact ⟨earlier, List.mem_append_left _ earlierMember, problem⟩
      · exact .inr ⟨attempt, by simp, new⟩

end Assembly

/-! The search depends on the children alone. -/

theorem FeatureModel.childIndices_congr {model other : FeatureModel}
    (same : other.nodes.map FeatureNode.children = model.nodes.map FeatureNode.children) :
    other.childIndices = model.childIndices := by
  funext index
  rw [childIndices, childIndices, ← List.getElem?_map, ← List.getElem?_map, same]

theorem CycleSearch.step?_congr {model other : FeatureModel}
    (same : other.childIndices = model.childIndices) (search : CycleSearch) :
    search.step? other = search.step? model := by
  cases agenda : search.agenda with
  | nil => simp [step?, agenda]
  | cons task rest => cases task <;> simp [step?, agenda, perform, enter, same]

theorem CycleSearch.run_congr {model other : FeatureModel}
    (same : other.childIndices = model.childIndices) (search : CycleSearch) :
    search.run other = search.run model := by
  induction search using run.induct model with
  | case1 search ended =>
      have otherEnded := (step?_congr same search).trans ended
      rw [run, run]
      split
      · split <;> simp_all
      · simp_all
  | case2 search next stepped ih =>
      have otherStepped := (step?_congr same search).trans stepped
      rw [run_of_step otherStepped, run_of_step stepped, ih]

theorem FeatureModel.cyclePaths_congr {model other : FeatureModel}
    (same : other.nodes.map FeatureNode.children = model.nodes.map FeatureNode.children) :
    other.cyclePaths = model.cyclePaths := by
  have length : other.nodes.length = model.nodes.length := by
    simpa using congrArg List.length same
  rw [cyclePaths, CycleSearch.run_congr (childIndices_congr same), CycleSearch.begin, length]
  rfl

theorem FeatureModel.detectCycles_congr {model other : FeatureModel}
    (same : other.nodes = model.nodes) (origins : List EdgeOrigin) :
    other.detectCycles origins = model.detectCycles origins := by
  have keys : other.keyAt = model.keyAt := by
    funext index
    rw [keyAt, same, keyAt]
  rw [detectCycles, detectCycles, cyclePaths_congr (congrArg _ same)]
  apply List.map_congr_left
  intro path _
  rw [cycleDiagnostic, cycleDiagnostic, keys]

namespace Scan

theorem build_nodes (scan : Scan) :
    scan.build.nodes =
      ((({} : Assembly).declareAll scan.pairs).contain scan.tree).model.nodes := by
  rw [build, Assembly.ofScan, Assembly.reportCycles, Assembly.reportAll_model]

theorem build_diagnostics (scan : Scan) :
    ∃ problems, scan.build.diagnostics =
        problems ++ scan.build.detectCycles (Assembly.ofScan scan).origins ∧
      ∀ diagnostic ∈ problems,
        (∃ pair ∈ scan.pairs, DeclarationProblem pair.element.toRef diagnostic) ∨
          ∃ attempt ∈ scan.attempts, LinkProblem attempt diagnostic := by
  refine ⟨((({} : Assembly).declareAll scan.pairs).contain scan.tree).model.diagnostics, ?_, ?_⟩
  · rw [FeatureModel.detectCycles_congr scan.build_nodes, build, Assembly.ofScan,
      Assembly.reportCycles, Assembly.reportAll_model, Assembly.reportAll_origins]
  · intro diagnostic member
    rcases Assembly.mem_linkAll member with declared | attempted
    · exact .inl (Assembly.mem_declareAll declared)
    · rw [scan.declared_attempts] at attempted
      exact .inr attempted

theorem build_cycle_diagnostics (scan : Scan) :
    scan.build.diagnostics.filter (fun diagnostic => diagnostic.kind == .cycle) =
      scan.build.detectCycles (Assembly.ofScan scan).origins := by
  obtain ⟨problems, diagnostics, origin⟩ := scan.build_diagnostics
  have others : problems.filter (fun diagnostic => diagnostic.kind == .cycle) = [] := by
    rw [List.filter_eq_nil_iff]
    intro diagnostic member isCycle
    rcases origin diagnostic member with ⟨_, _, problem⟩ | ⟨_, _, problem⟩
    · exact problem.kind (beq_iff_eq.mp isCycle)
    · exact problem.kind (beq_iff_eq.mp isCycle)
  rw [diagnostics, List.filter_append, others, List.nil_append, List.filter_eq_self]
  intro diagnostic member
  obtain ⟨path, _, rfl⟩ := List.mem_map.mp member
  rfl

theorem exists_cyclePath {scan : Scan} {diagnostic : Diagnostic}
    (member : diagnostic ∈ scan.build.diagnostics) (isCycle : diagnostic.kind = .cycle) :
    ∃ path ∈ scan.build.cyclePaths,
      scan.build.cycleDiagnostic (Assembly.ofScan scan).origins path = diagnostic := by
  have kept : diagnostic ∈ scan.build.diagnostics.filter fun other => other.kind == .cycle :=
    List.mem_filter.mpr ⟨member, by simpa using isCycle⟩
  rw [build_cycle_diagnostics] at kept
  exact List.mem_map.mp kept

end Scan

end FeatureAtlas
