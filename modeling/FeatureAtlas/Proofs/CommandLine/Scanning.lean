import FeatureAtlas.CommandLine.Run
import FeatureAtlas.Proofs.Source.Preorder

/-!
Scans of what was read from documents. The tree laid out from outlines is always accepted, and its
slots are visited one after the other, so that no command ends with an error of the scan.
-/

namespace FeatureAtlas

def Scanned {α : Type} (result : Except RunError α) : Prop :=
  ∀ error, result ≠ .error (.scan error)

section

variable {α β : Type}

theorem scanned_ok (value : α) : Scanned (.ok value : Except RunError α) := by
  intro error same
  cases same

theorem scanned_error {problem : RunError} (other : ∀ error, problem ≠ .scan error) :
    Scanned (.error problem : Except RunError α) := by
  intro error same
  exact other error (Except.error.inj same)

theorem scanned_mapError {ε : Type} {wrap : ε → RunError}
    (wraps : ∀ cause error, wrap cause ≠ .scan error) (result : Except ε α) :
    Scanned (result.mapError wrap) := by
  cases result with
  | ok value => exact scanned_ok value
  | error cause => exact scanned_error (wraps cause)

theorem Scanned.bind {result : Except RunError α} {next : α → Except RunError β}
    (first : Scanned result) (later : ∀ value, result = .ok value → Scanned (next value)) :
    Scanned (result >>= next) := by
  cases result with
  | ok value => exact later value rfl
  | error cause =>
      intro error same
      exact first error (congrArg Except.error (Except.error.inj same))

end

theorem scanned_ofOutlines (outlines : List Outline) :
    Scanned ((SourceTree.ofOutlines outlines).scan.mapError .scan) := by
  rw [SourceTree.scan_ofOutlines]
  exact scanned_ok _

theorem scanned_scanFile (disk : Disk) (path : String) : Scanned (scanFile disk path) := by
  refine (scanned_mapError (by simp) _).bind fun text _ => ?_
  refine (scanned_mapError (by simp) _).bind fun document _ => ?_
  exact scanned_ofOutlines document.roots

theorem StoreCommand.scanned_run (environment : Environment) (disk : Disk) (database : Database)
    (command : StoreCommand) : Scanned (command.run environment disk database) := by
  cases command with
  | save input label =>
      refine (scanned_scanFile disk input).bind fun scan _ => ?_
      dsimp only
      split
      · exact scanned_error (by simp)
      · exact scanned_ok _
  | list => exact (scanned_mapError (by simp) _).bind fun snapshots _ => scanned_ok _
  | «show» id =>
      refine (scanned_mapError (by simp) _).bind fun found _ => ?_
      cases found with
      | none => exact scanned_error (by simp)
      | some document => exact scanned_ok _
  | delete id =>
      refine (scanned_mapError (by simp) _).bind fun (deleted, changed) _ => ?_
      cases deleted with
      | false => exact scanned_error (by simp)
      | true => exact scanned_ok _

def Outcome.Scanned (outcome : Outcome) : Prop :=
  ∀ error, outcome.problem ≠ some (.scan error)

theorem Outcome.scanned_finished (disk : Disk) (output : String) (journal : List JournalEvent) :
    (Outcome.finished disk output journal).Scanned := by
  intro error same
  cases same

theorem Outcome.scanned_failed {problem : RunError} (other : ∀ error, problem ≠ .scan error)
    (disk : Disk) (journal : List JournalEvent) :
    (Outcome.failed disk problem journal).Scanned := by
  intro error same
  exact other error (Option.some.inj same)

theorem Scanned.failed {α : Type} {result : Except RunError α} (scanned : Scanned result)
    {problem : RunError} (isError : result = .error problem) (disk : Disk)
    (journal : List JournalEvent) : (Outcome.failed disk problem journal).Scanned := by
  apply Outcome.scanned_failed
  intro error same
  exact scanned error (isError.trans (congrArg Except.error same))

theorem Outcome.Scanned.finishBuild {outcome : Outcome} (scanned : outcome.Scanned)
    (policy : FailurePolicy) (model : FeatureModel) :
    (FeatureAtlas.finishBuild policy model outcome).Scanned := by
  rw [FeatureAtlas.finishBuild]
  split
  · exact scanned
  · exact scanned

theorem scanned_runBuild (settings : Settings) (disk : Disk) (input : String)
    (format : Option ExportFormat) (output : Option String) (failOn : Option FailurePolicy) :
    (runBuild settings disk input format output failOn).Scanned := by
  rw [runBuild]
  split
  · rename_i problem isError
    exact (scanned_scanFile disk input).failed isError disk []
  · dsimp only
    split
    · exact (Outcome.scanned_finished _ _ _).finishBuild _ _
    · split
      · exact Outcome.scanned_failed (by simp) _ _
      · exact (Outcome.scanned_finished _ _ _).finishBuild _ _

theorem scanned_runScan (disk : Disk) (input : String) : (runScan disk input).Scanned := by
  rw [runScan]
  split
  · rename_i problem isError
    exact (scanned_scanFile disk input).failed isError disk []
  · exact Outcome.scanned_finished _ _ _

theorem scanned_runStore (environment : Environment) (settings : Settings) (disk : Disk)
    (path : Option String) (command : StoreCommand) :
    (runStore environment settings disk path command).Scanned := by
  rw [runStore]
  dsimp only
  split
  · exact Outcome.scanned_failed (by simp) _ _
  · split
    · exact Outcome.scanned_failed (by simp) _ _
    · split
      · exact Outcome.scanned_failed (by simp) _ _
      · split
        · rename_i problem isError
          exact (command.scanned_run _ _ _).failed isError _ _
        · exact Outcome.scanned_finished _ _ _

theorem scanned_settingsFor (environment : Environment) (explicit : Option String) (disk : Disk) :
    Scanned (settingsFor environment explicit disk) := by
  unfold settingsFor
  split
  · exact scanned_mapError (by simp) _
  · split
    · exact scanned_ok _
    · exact scanned_ok _

theorem scanned_runArguments (environment : Environment) (arguments : List String) (disk : Disk) :
    (runArguments environment arguments disk).Scanned := by
  rw [runArguments]
  split
  · exact Outcome.scanned_failed (by simp) _ _
  · rename_i invocation _
    rw [Invocation.run]
    split
    · rename_i problem isError
      exact (scanned_settingsFor environment _ disk).failed isError disk []
    · split
      · exact scanned_runBuild _ _ _ _ _ _
      · exact scanned_runScan _ _
      · exact scanned_runStore _ _ _ _ _

theorem SourceTree.map_declared_pairs {tree : SourceTree} {number : Outline.Route → ElementId}
    {elements : List Element} {sites : List (Outline.Route × Outline)}
    (shown : List.Forall₂ (tree.Shows number) elements sites) :
    (elements.flatMap Element.pairs).map ScanPair.declared =
      sites.flatMap fun site => site.2.annotations.filter Annotation.isDeclaration := by
  induction shown with
  | nil => rfl
  | cons shows _ ih =>
      rw [List.flatMap_cons, List.map_append, ih, List.flatMap_cons, Element.pairs,
        shows.annotations, List.map_map]
      exact congrArg (· ++ _) (List.map_id _)

/-- A tree laid out from outlines has them in preorder and is scanned slot by slot, and what the
scan finds are the declarations of the outlines in preorder. So no document gives an error of the
scan, and no command ends with one. -/
theorem outlines_always_scanned :
    (∀ outlines : List Outline,
      (SourceTree.ofOutlines outlines).LaidOut outlines ∧
      ∃ scan, (SourceTree.ofOutlines outlines).scan = .ok scan ∧
        scan.tree = SourceTree.ofOutlines outlines ∧
        scan.visited = List.range (SourceTree.ofOutlines outlines).size ∧
        scan.elementCount = (SourceTree.ofOutlines outlines).size ∧
        (scan.pairs = (SourceTree.ofOutlines outlines).elements.flatMap fun element =>
          (element.annotations.filter (· ≠ .other)).map fun declared => { element, declared }) ∧
        scan.pairs.map ScanPair.declared = (Outline.preorderAll [] 0 outlines).flatMap
          fun site => site.2.annotations.filter (· ≠ .other)) ∧
    (∀ document : SourceDocument, ∃ scan, (SourceTree.ofDocument document).scan = .ok scan) ∧
    ∀ environment arguments disk error,
      (runArguments environment arguments disk).problem ≠ some (.scan error) := by
  refine ⟨fun outlines => ?_, fun document => ?_, scanned_runArguments⟩
  · refine ⟨SourceTree.ofOutlines_laidOut outlines, _, SourceTree.scan_ofOutlines outlines, rfl,
      ?_, ?_, ?_, ?_⟩
    · rw [SourceTree.size_ofOutlines]
    · rw [SourceTree.size_ofOutlines, Scan.elementCount, List.length_range]
    · rw [← Annotation.isDeclaration_eq, SourceTree.elements_ofOutlines]
      rfl
    · rw [← Annotation.isDeclaration_eq]
      exact SourceTree.map_declared_pairs (SourceTree.ofOutlines_shows outlines)
  · exact ⟨_, SourceTree.scan_ofOutlines document.roots⟩

end FeatureAtlas
