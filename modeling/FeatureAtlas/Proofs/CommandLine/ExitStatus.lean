import FeatureAtlas.CommandLine.Run
import FeatureAtlas.Proofs.Files.Writing
import FeatureAtlas.Proofs.Model.Severities
import FeatureAtlas.Proofs.Source.OutlineText
import FeatureAtlas.Proofs.Source.Preorder

/-!
What the exit status of a build says of the document that it read. The conditions are on the
outlines of the document, each told by its route, and on the nodes that contain each other.
-/

namespace FeatureAtlas

namespace Outline

def mappedKeys (outline : Outline) : List NodeKey :=
  (outline.annotations.filterMap Annotation.mappedKey?).eraseDups

/-- The nearest outline around the one at a route that takes part in a node. -/
inductive NearestMapped (outlines : List Outline) : Route → Outline → Prop
  | here {route above : Route} {holder : Outline} : holder? route = some above →
      find? outlines above = some holder → holder.mappedKeys ≠ [] →
      NearestMapped outlines route holder
  | beyond {route above : Route} {holder ancestor : Outline} : holder? route = some above →
      find? outlines above = some holder → holder.mappedKeys = [] →
      NearestMapped outlines above ancestor → NearestMapped outlines route ancestor

end Outline

namespace SourceTree

open Outline (Route number)

variable {tree : SourceTree} {outlines : List Outline}

theorem Shows.mappedKeys {number : Route → ElementId} {element : Element} {route : Route}
    {outline : Outline} (shows : tree.Shows number element (route, outline)) :
    element.mappedKeys = outline.mappedKeys := by
  rw [Element.mappedKeys, shows.annotations, Outline.mappedKeys]

theorem LaidOut.shows_of_get? (laid : tree.LaidOut outlines) {route : Route} {element : Element}
    (found : tree.get? (number outlines route) = some element) :
    ∃ outline, Outline.find? outlines route = some outline ∧
      tree.Shows (number outlines) element (route, outline) := by
  have bound : number outlines route < (Outline.routes outlines).length := by
    rw [← laid.size]
    exact (get?_id found).2
  have member := List.idxOf_lt_length_iff.mp bound
  obtain ⟨outline, reached⟩ := Option.isSome_iff_exists.mp ((laid.reached route).mp member)
  obtain ⟨other, otherFound, shows⟩ := laid.shows route outline reached
  rw [found, Option.some.injEq] at otherFound
  exact ⟨outline, reached, otherFound ▸ shows⟩

theorem LaidOut.parentOf?_eq_some_iff (laid : tree.LaidOut outlines) {element : Element}
    {site : Route × Outline} (shows : tree.Shows (number outlines) element site)
    (parent : Element) :
    tree.parentOf? element = some parent ↔ ∃ above holder,
      Outline.holder? site.1 = some above ∧ Outline.find? outlines above = some holder ∧
        tree.get? (number outlines above) = some parent ∧
        tree.Shows (number outlines) parent (above, holder) := by
  rw [parentOf?, shows.parent]
  constructor
  · intro isParent
    obtain ⟨id, named, found⟩ := Option.bind_eq_some_iff.mp isParent
    obtain ⟨above, isAbove, rfl⟩ := Option.map_eq_some_iff.mp named
    obtain ⟨holder, reached, parentShows⟩ := laid.shows_of_get? found
    exact ⟨above, holder, isAbove, reached, found, parentShows⟩
  · rintro ⟨above, holder, isAbove, _, found, _⟩
    rw [isAbove, Option.map_some, Option.bind_some, found]

theorem LaidOut.exists_nearestMapped_iff (laid : tree.LaidOut outlines) {element : Element}
    {site : Route × Outline} (shows : tree.Shows (number outlines) element site)
    (keys : List NodeKey) :
    (∃ other, tree.NearestMapped element other ∧ other.mappedKeys = keys) ↔
      ∃ ancestor, Outline.NearestMapped outlines site.1 ancestor ∧ ancestor.mappedKeys = keys := by
  constructor
  · rintro ⟨other, nearest, isKeys⟩
    induction nearest generalizing site with
    | here isParent mapped =>
        obtain ⟨_, holder, isAbove, reached, _, parentShows⟩ :=
          (laid.parentOf?_eq_some_iff shows _).mp isParent
        rw [parentShows.mappedKeys] at mapped isKeys
        exact ⟨holder, .here isAbove reached mapped, isKeys⟩
    | beyond isParent unmapped _ ih =>
        obtain ⟨_, _, isAbove, reached, _, parentShows⟩ :=
          (laid.parentOf?_eq_some_iff shows _).mp isParent
        obtain ⟨ancestor, further, same⟩ := ih parentShows isKeys
        rw [parentShows.mappedKeys] at unmapped
        exact ⟨ancestor, .beyond isAbove reached unmapped further, same⟩
  · rintro ⟨ancestor, nearest, isKeys⟩
    obtain ⟨route, outline⟩ := site
    dsimp only at nearest
    induction nearest generalizing element outline with
    | here isAbove reached mapped =>
        obtain ⟨parent, found, parentShows⟩ := laid.shows _ _ reached
        have isParent := (laid.parentOf?_eq_some_iff shows parent).mpr
          ⟨_, _, isAbove, reached, found, parentShows⟩
        rw [← parentShows.mappedKeys] at mapped isKeys
        exact ⟨parent, .here isParent mapped, isKeys⟩
    | beyond isAbove reached unmapped _ ih =>
        obtain ⟨parent, found, parentShows⟩ := laid.shows _ _ reached
        have isParent := (laid.parentOf?_eq_some_iff shows parent).mpr
          ⟨_, _, isAbove, reached, found, parentShows⟩
        obtain ⟨other, further, same⟩ := ih isKeys _ parentShows
        rw [← parentShows.mappedKeys] at unmapped
        exact ⟨other, .beyond isParent unmapped further, same⟩

theorem LaidOut.mem_elementsOf_iff (laid : tree.LaidOut outlines) (element : Element) :
    element ∈ tree.elementsOf (List.range tree.size) ↔ ∃ site : Route × Outline,
      Outline.find? outlines site.1 = some site.2 ∧
        tree.get? (number outlines site.1) = some element ∧
        tree.Shows (number outlines) element site := by
  rw [mem_elementsOf, List.mem_range]
  constructor
  · rintro ⟨bound, found⟩
    rw [laid.size] at bound
    have isNumber : number outlines (Outline.routes outlines)[element.id] = element.id :=
      (Outline.nodup_routes outlines).idxOf_getElem element.id bound
    rw [← isNumber] at found
    obtain ⟨outline, reached, shows⟩ := laid.shows_of_get? found
    exact ⟨(_, outline), reached, found, shows⟩
  · rintro ⟨site, _, found, _⟩
    obtain ⟨isId, bound⟩ := get?_id found
    rw [isId]
    exact ⟨bound, found⟩

end SourceTree

/-! Conditions on documents. -/

namespace SourceDocument

def DeclaresBlank (document : SourceDocument) : Prop :=
  ∃ route outline, Outline.find? document.roots route = some outline ∧
    ∃ declared ∈ outline.annotations, declared.isBlank = true

def RepeatsFeature (document : SourceDocument) : Prop :=
  ∃ route outline, Outline.find? document.roots route = some outline ∧
    2 ≤ outline.annotations.countP Annotation.isNamedFeature

/-- The nearest mapped element around some element has a node of a finer level than one of its own
nodes. -/
def NestsInFiner (document : SourceDocument) : Prop :=
  ∃ route outline ancestor, Outline.find? document.roots route = some outline ∧
    Outline.NearestMapped document.roots route ancestor ∧
    ∃ content ∈ outline.mappedKeys, ∃ container ∈ ancestor.mappedKeys,
      content.granularity.rank < container.granularity.rank

/-- What makes a build of a document fail under each policy. -/
def Fails (document : SourceDocument) (model : FeatureModel) : FailurePolicy → Prop
  | .error => document.DeclaresBlank ∨ ∃ key, Relation.TransGen model.HasChild key key
  | .warning => (document.DeclaresBlank ∨ ∃ key, Relation.TransGen model.HasChild key key) ∨
      document.RepeatsFeature ∨ document.NestsInFiner
  | .never => False

variable {document : SourceDocument} {scan : Scan}

theorem scan_laidOut (accepted : (SourceTree.ofDocument document).scan = .ok scan) :
    (SourceTree.ofDocument document).LaidOut document.roots ∧
      scan.tree = SourceTree.ofDocument document ∧
      scan.visited = List.range (SourceTree.ofDocument document).size := by
  have whole := accepted.symm.trans (SourceTree.scan_ofOutlines document.roots)
  rw [Except.ok.inj whole, SourceTree.ofDocument, SourceTree.size_ofOutlines]
  exact ⟨SourceTree.ofOutlines_laidOut document.roots, rfl, rfl⟩

theorem exists_annotations_iff (accepted : (SourceTree.ofDocument document).scan = .ok scan)
    (holds : List Annotation → Prop) :
    (∃ element ∈ (SourceTree.ofDocument document).elementsOf scan.visited,
        holds element.annotations) ↔
      ∃ route outline, Outline.find? document.roots route = some outline ∧
        holds outline.annotations := by
  obtain ⟨laid, _, visited⟩ := scan_laidOut accepted
  rw [visited]
  constructor
  · rintro ⟨element, member, holding⟩
    obtain ⟨⟨route, outline⟩, reached, _, shows⟩ := (laid.mem_elementsOf_iff element).mp member
    exact ⟨route, outline, reached, shows.annotations ▸ holding⟩
  · rintro ⟨route, outline, reached, holding⟩
    obtain ⟨element, found, shows⟩ := laid.shows route outline reached
    refine ⟨element, (laid.mem_elementsOf_iff element).mpr ⟨_, reached, found, shows⟩, ?_⟩
    rwa [shows.annotations]

theorem exists_nests_iff (accepted : (SourceTree.ofDocument document).scan = .ok scan) :
    (∃ nesting, scan.Nests nesting ∧
        nesting.child.granularity.rank < nesting.parent.granularity.rank) ↔
      document.NestsInFiner := by
  obtain ⟨laid, isTree, visited⟩ := scan_laidOut accepted
  constructor
  · rintro ⟨nesting, nests, finer⟩
    have scanned := nests.scanned
    have nearest := nests.nearest
    rw [isTree, visited] at scanned
    rw [isTree] at nearest
    obtain ⟨⟨route, outline⟩, reached, _, shows⟩ := (laid.mem_elementsOf_iff _).mp scanned
    obtain ⟨ancestor, around, same⟩ :=
      (laid.exists_nearestMapped_iff shows _).mp ⟨_, nearest, rfl⟩
    exact ⟨route, outline, ancestor, reached, around, nesting.child,
      shows.mappedKeys ▸ nests.maps, nesting.parent, same ▸ nests.holds, finer⟩
  · rintro ⟨route, outline, ancestor, reached, around, content, maps, container, holds, finer⟩
    obtain ⟨element, found, shows⟩ := laid.shows route outline reached
    have scanned := (laid.mem_elementsOf_iff element).mpr ⟨_, reached, found, shows⟩
    obtain ⟨other, nearest, same⟩ :=
      (laid.exists_nearestMapped_iff shows ancestor.mappedKeys).mpr ⟨ancestor, around, rfl⟩
    refine ⟨{ element, ancestor := other, child := content, parent := container }, ?_, finer⟩
    refine ⟨?_, ?_, ?_, ?_⟩
    · rwa [isTree, visited]
    · rwa [isTree]
    · rwa [shows.mappedKeys]
    · rwa [same]

theorem isFailure_iff_fails (accepted : (SourceTree.ofDocument document).scan = .ok scan)
    (policy : FailurePolicy) :
    policy.isFailure scan.build.diagnostics = true ↔ document.Fails scan.build policy := by
  have error : scan.build.HasSeverity .error ↔ document.Fails scan.build .error := by
    rw [Scan.hasSeverity_error_iff accepted]
    exact or_congr_left (exists_annotations_iff accepted
      fun annotations => ∃ declared ∈ annotations, declared.isBlank = true)
  cases policy with
  | error => exact (FeatureModel.isFailure_error_iff _).trans error
  | warning =>
      rw [FeatureModel.isFailure_warning_iff, error, Scan.hasSeverity_warning_iff accepted,
        exists_nests_iff accepted]
      exact or_congr_right (or_congr_left (exists_annotations_iff accepted
        fun annotations => 2 ≤ annotations.countP Annotation.isNamedFeature))
  | never => simp [FeatureModel.isFailure_never, Fails]

end SourceDocument

/-! Builds. -/

/-- The whole text of an export has been printed or has been written into a file. -/
def Outcome.Delivers (outcome : Outcome) (disk : Disk) (text : String) : Option String → Prop
  | none => outcome.output = text ∧ outcome.disk = disk
  | some path => outcome.output = "" ∧ outcome.disk.readText (.ofText path) = .ok text

theorem scanFile_ok {disk : Disk} {path text : String} {document : SourceDocument} {scan : Scan}
    (readable : disk.readText (.ofText path) = .ok text)
    (decoded : SourceDocument.parse text = .ok document)
    (accepted : (SourceTree.ofDocument document).scan = .ok scan) :
    scanFile disk path = .ok scan := by
  simp only [scanFile, readable, decoded, accepted, Except.mapError, bind, Except.bind]

theorem finishBuild_finished (policy : FailurePolicy) (model : FeatureModel) (disk : Disk)
    (output : String) (journal : List JournalEvent) :
    finishBuild policy model (.finished disk output journal) =
      { disk, output, journal, problem := none
        status := if policy.isFailure model.diagnostics then .diagnostics else .success } := by
  rw [finishBuild]
  split
  · rfl
  · rfl

theorem runBuild_ok {settings : Settings} {disk : Disk} {input : String} {scan : Scan}
    (scanned : scanFile disk input = .ok scan) (format : Option ExportFormat)
    (output : Option String) (failOn : Option FailurePolicy)
    (exported : ∀ path, (output <|> settings.output) = some path →
      (scan.build.exportToFile (format.getD settings.format) (.ofText path) disk).2 = .ok ()) :
    (runBuild settings disk input format output failOn).Delivers disk
        (scan.build.exportText (format.getD settings.format)) (output <|> settings.output) ∧
      (runBuild settings disk input format output failOn).problem = none ∧
      (runBuild settings disk input format output failOn).status =
        if (failOn.getD settings.failOn).isFailure scan.build.diagnostics then .diagnostics
        else .success := by
  rw [runBuild, scanned]
  dsimp only
  cases target : output <|> settings.output with
  | none =>
      dsimp only
      rw [finishBuild_finished]
      exact ⟨⟨rfl, rfl⟩, rfl, rfl⟩
  | some path =>
      have succeeded := exported path target
      dsimp only
      cases wrote : scan.build.exportToFile (format.getD settings.format) (.ofText path) disk with
      | mk written result =>
          rw [wrote] at succeeded
          subst succeeded
          dsimp only
          rw [finishBuild_finished]
          exact ⟨⟨rfl, FeatureModel.readText_exportToFile wrote⟩, rfl, rfl⟩

/-- A build of a document that can be read delivers the whole export, unless the file cannot be
written, and ends with one of two codes, which tells whether the document fails under the policy
that is given or else set. -/
theorem build_exit_status {environment : Environment} {arguments : List String} {disk : Disk}
    {settingsPath output : Option String} {input text : String} {format : Option ExportFormat}
    {failOn : Option FailurePolicy} {settings : Settings} {document : SourceDocument}
    (given : Invocation.ofArguments arguments =
      .ok { settingsPath, command := .build input format output failOn })
    (configured : settingsFor environment settingsPath disk = .ok settings)
    (readable : disk.readText (.ofText input) = .ok text)
    (decoded : SourceDocument.parse text = .ok document) :
    ∃ scan, (SourceTree.ofDocument document).scan = .ok scan ∧
      ((∀ path, (output <|> settings.output) = some path →
          (scan.build.exportToFile (format.getD settings.format) (.ofText path) disk).2 = .ok ()) →
        (runArguments environment arguments disk).Delivers disk
            (scan.build.exportText (format.getD settings.format)) (output <|> settings.output) ∧
          (runArguments environment arguments disk).problem = none ∧
          ((runArguments environment arguments disk).status.code = 1 ↔
            document.Fails scan.build (failOn.getD settings.failOn)) ∧
          ((runArguments environment arguments disk).status.code = 0 ↔
            ¬document.Fails scan.build (failOn.getD settings.failOn))) := by
  have accepted := SourceTree.scan_ofOutlines document.roots
  refine ⟨_, accepted, fun exported => ?_⟩
  have ran : runArguments environment arguments disk =
      runBuild settings disk input format output failOn := by
    rw [runArguments, given]
    dsimp only
    rw [Invocation.run, configured]
  have built := runBuild_ok (scanFile_ok readable decoded accepted) format output failOn exported
  rw [ran, built.2.2, ← SourceDocument.isFailure_iff_fails accepted]
  refine ⟨built.1, built.2.1, ?_⟩
  split
  · rename_i fails
    simp [ExitStatus.code, fails]
  · rename_i passes
    simp [ExitStatus.code, passes]

def stallDocument : SourceDocument :=
  { roots := [{
      name := "Stall"
      annotations := [.feature { name := "Selling" }, .feature { name := "Paying" }]
      children := [{ kind := .method, name := "pay", annotations := [.mapping {}] }] }] }

def stallDisk (text : String) : Disk :=
  { entries := [((1, ["stall.json"]), .file (.text text))], workingDirectory := [] }

def stallEnvironment : Environment :=
  { settingsPath := "/settings.json", storePath := "/models.db", freshId := "", time := "" }

theorem stall_build_fails :
    (runArguments stallEnvironment ["build", "-i", "stall.json"]
        (stallDisk stallDocument.write)).status.code = 1 ∧
      (runArguments stallEnvironment ["build", "--fail-on", "never", "-i", "stall.json"]
        (stallDisk stallDocument.write)).status.code = 0 := by
  have configured (text : String) :
      settingsFor stallEnvironment none (stallDisk text) = .ok {} := by
    have path : stallEnvironment.settingsPath = "/settings.json" := rfl
    have located : (stallDisk text).locate (.ofText "/settings.json") = .ok ["settings.json"] :=
      Disk.locate_single _ (by decide +kernel)
    rw [settingsFor, Settings.load, Disk.readText, Disk.read, path, located]
    rfl
  have readable (text : String) : (stallDisk text).readText (.ofText "stall.json") = .ok text := by
    have located : (stallDisk text).locate (.ofText "stall.json") = .ok ["stall.json"] :=
      Disk.locate_single _ (by decide +kernel)
    rw [Disk.readText, Disk.read, located]
    rfl
  have decoded : SourceDocument.parse stallDocument.write = .ok stallDocument := by
    rw [SourceDocument.parse_write_eq]
    exact if_pos (by decide)
  have given : Invocation.ofArguments ["build", "-i", "stall.json"] =
      .ok { settingsPath := none, command := .build "stall.json" none none none } := by
    decide +kernel
  have never : Invocation.ofArguments ["build", "--fail-on", "never", "-i", "stall.json"] =
      .ok { settingsPath := none, command := .build "stall.json" none none (some .never) } := by
    decide +kernel
  obtain ⟨_, _, built⟩ := build_exit_status given (configured _) (readable _) decoded
  obtain ⟨_, _, fails, _⟩ := built fun path target => by cases target
  obtain ⟨_, _, builtNever⟩ := build_exit_status never (configured _) (readable _) decoded
  obtain ⟨_, _, _, passes⟩ := builtNever fun path target => by cases target
  refine ⟨fails.mpr (.inl ⟨[0, 0], _, rfl, .mapping {}, by simp, ?_⟩), passes.mpr id⟩
  decide

end FeatureAtlas
