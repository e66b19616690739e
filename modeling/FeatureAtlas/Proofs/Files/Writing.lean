import FeatureAtlas.Export.File

/-!
What changes on a disk, and reading back what was written. A write changes the entry of one place,
which is no directory, so every path through directories still leads where it did.
-/

namespace FeatureAtlas

namespace Disk

variable {disk changed written : Disk} {path : Path} {content : FileContent}

theorem keyOf_inj {place other : Place} : keyOf place = keyOf other ↔ place = other := by
  constructor
  · exact fun same => (Prod.mk.inj same).2
  · exact fun same => congrArg keyOf same

theorem lookup_replaced (entries : List ((Nat × Place) × DiskEntry)) (key other : Nat × Place)
    (entry : DiskEntry) :
    (entries.map fun (known, old) => (known, if known = key then entry else old)).lookup other =
      if other = key then (entries.lookup other).map fun _ => entry else entries.lookup other := by
  induction entries with
  | nil => simp
  | cons first rest ih =>
      obtain ⟨known, old⟩ := first
      rw [List.map_cons, List.lookup_cons, List.lookup_cons, ih]
      by_cases here : other = known
      · subst here
        by_cases replaced : other = key
        · simp [replaced]
        · simp [replaced]
      · have elsewhere : (other == known) = false := beq_eq_false_iff_ne.mpr here
        simp [elsewhere]

theorem lookup_filter_ne (entries : List ((Nat × Place) × DiskEntry)) (key other : Nat × Place) :
    (entries.filter fun (known, _) => known ≠ key).lookup other =
      if other = key then none else entries.lookup other := by
  induction entries with
  | nil => simp
  | cons first rest ih =>
      obtain ⟨known, old⟩ := first
      rw [List.filter_cons, List.lookup_cons]
      by_cases removed : known = key
      · subst removed
        by_cases here : other = known
        · simpa [here] using ih
        · have elsewhere : (other == known) = false := beq_eq_false_iff_ne.mpr here
          simpa [here, elsewhere] using ih
      · by_cases here : other = known
        · subst here
          simp [removed]
        · have elsewhere : (other == known) = false := beq_eq_false_iff_ne.mpr here
          simpa [removed, List.lookup_cons, elsewhere] using ih

theorem entry?_setEntry {place : Place} (named : place ≠ []) (entry : DiskEntry) (other : Place) :
    Disk.entry? (disk.setEntry place entry) other =
      if other = place then some entry else disk.entry? other := by
  by_cases top : other = []
  · subst top
    unfold entry?
    rw [if_pos rfl, if_pos rfl, if_neg (Ne.symm named)]
  · unfold entry?
    rw [if_neg top, if_neg top, setEntry]
    dsimp only
    by_cases known : (disk.entries.lookup (keyOf place)).isSome = true
    · rw [if_pos known, lookup_replaced]
      by_cases here : other = place
      · obtain ⟨old, found⟩ := Option.isSome_iff_exists.mp known
        rw [here, if_pos rfl, if_pos rfl, found, Option.map_some]
      · rw [if_neg (here ∘ keyOf_inj.mp), if_neg here]
    · rw [if_neg known]
      have absent : disk.entries.lookup (keyOf place) = none :=
        Option.not_isSome_iff_eq_none.mp known
      by_cases here : other = place
      · subst here
        simp [List.lookup_append, absent]
      · have elsewhere : (keyOf other == keyOf place) = false :=
          beq_eq_false_iff_ne.mpr (here ∘ keyOf_inj.mp)
        simp [List.lookup_append, List.lookup_cons, here, elsewhere]

theorem workingDirectory_setEntry (place : Place) (entry : DiskEntry) :
    (disk.setEntry place entry).workingDirectory = disk.workingDirectory := by
  rw [setEntry]
  dsimp only
  split <;> rfl

theorem removeFile_absent {place : Place} (absent : disk.entry? place = none) :
    disk.removeFile place = disk := by
  rw [removeFile, absent]

theorem entry?_removeFile {place : Place} (file : disk.entry? place ≠ some .directory)
    (other : Place) :
    Disk.entry? (disk.removeFile place) other =
      if other = place then none else disk.entry? other := by
  cases found : disk.entry? place with
  | none =>
      rw [removeFile_absent found]
      split
      · rename_i here
        rw [here, found]
      · rfl
  | some entry =>
      cases entry with
      | directory => exact absurd found file
      | file content =>
          have named : place ≠ [] := by
            rintro rfl
            cases found
          by_cases top : other = []
          · subst top
            unfold entry?
            rw [if_pos rfl, if_pos rfl, if_neg (Ne.symm named)]
          · rw [removeFile, found]
            unfold entry?
            rw [if_neg top, if_neg top, lookup_filter_ne]
            by_cases here : other = place
            · rw [if_pos (congrArg keyOf here), if_pos here]
            · rw [if_neg (here ∘ keyOf_inj.mp), if_neg here]

/-- What was on a disk still is, and paths start where they did. -/
structure Extends (changed disk : Disk) : Prop where
  kept : ∀ place entry, disk.entry? place = some entry → changed.entry? place = some entry
  start : changed.workingDirectory = disk.workingDirectory

theorem Extends.refl (disk : Disk) : disk.Extends disk := ⟨fun _ _ found => found, rfl⟩

theorem makeAlong_extends (disk : Disk) (here : Place) (names : List String) :
    (disk.makeAlong here names).1.Extends disk := by
  fun_induction makeAlong disk here names with
  | case1 disk here => exact .refl disk
  | case2 disk here rest ih => exact ih
  | case3 disk here name rest up long => exact .refl disk
  | case4 disk here name rest up next short absent ih =>
      refine ⟨fun place entry found => ih.kept place entry ?_,
        ih.start.trans (workingDirectory_setEntry _ _)⟩
      have different : place ≠ next := by
        rintro rfl
        rw [absent] at found
        cases found
      rw [entry?_setEntry (List.concat_ne_nil _ _), if_neg different, found]
  | case5 disk here name rest up next short isDirectory ih => exact ih
  | case6 disk here name rest up next short content isFile => exact .refl disk

theorem makeDirectories_extends (disk : Disk) (path : Path) :
    (disk.makeDirectories path).1.Extends disk := by
  rw [makeDirectories]
  split
  · exact .refl disk
  · split
    · exact .refl disk
    · exact makeAlong_extends ..

theorem walk_of_directories
    (kept : ∀ place, disk.entry? place = some .directory → changed.entry? place = some .directory)
    {here place : Place} {names : List String} (walked : disk.walk here names = .ok place) :
    changed.walk here names = .ok place := by
  induction names generalizing here with
  | nil => exact walked
  | cons name rest ih =>
      by_cases up : name = ".."
      · subst up
        rw [walk] at walked ⊢
        exact ih walked
      · rw [walk] at walked ⊢
        · split at walked
          · cases walked
          · rename_i short
            rw [if_neg short]
            split at walked
            · cases walked
            · rename_i found
              rw [kept _ found]
              exact ih walked
            · cases walked
        · exact up
        · exact up

theorem container_of_directories
    (kept : ∀ place, disk.entry? place = some .directory → changed.entry? place = some .directory)
    (start : changed.workingDirectory = disk.workingDirectory) {directory : Place}
    (contained : disk.container path = .ok directory) : changed.container path = .ok directory := by
  have same : changed.startOf path = disk.startOf path := by rw [startOf, startOf, start]
  rw [container] at contained ⊢
  cases checked : checkPath path with
  | error cause => simp [checked, bind, Except.bind] at contained
  | ok _ =>
      simp only [checked, bind, Except.bind] at contained ⊢
      rw [same]
      exact walk_of_directories kept contained

theorem locate_of_directories
    (kept : ∀ place, disk.entry? place = some .directory → changed.entry? place = some .directory)
    (start : changed.workingDirectory = disk.workingDirectory) {place : Place}
    (located : disk.locate path = .ok place) : changed.locate path = .ok place := by
  rw [locate] at located ⊢
  cases contained : disk.container path with
  | error cause => simp [contained, bind, Except.bind] at located
  | ok directory =>
      rw [contained] at located
      rw [container_of_directories kept start contained]
      exact located

theorem readText_eq_ok_iff {text : String} : disk.readText path = .ok text ↔
    ∃ place, disk.locate path = .ok place ∧ disk.entry? place = some (.file (.text text)) ∧
      path.ending = .name := by
  constructor
  · intro readable
    rw [readText, read] at readable
    cases located : disk.locate path with
    | error cause => simp [located, bind, Except.bind] at readable
    | ok place =>
        simp only [located, bind, Except.bind] at readable
        refine ⟨place, rfl, ?_⟩
        cases found : disk.entry? place with
        | none => simp [found] at readable
        | some entry =>
            cases entry with
            | directory => simp [found] at readable
            | file content =>
                by_cases named : path.ending = .name
                · cases content <;> simp_all [pure, Except.pure]
                · simp [found, named] at readable
  · rintro ⟨place, located, found, named⟩
    rw [readText, read, located]
    simp only [bind, Except.bind, found, named, if_true]
    rfl

theorem readText_of_kept
    (directories : ∀ place, disk.entry? place = some .directory →
      changed.entry? place = some .directory)
    (texts : ∀ place text, disk.entry? place = some (.file (.text text)) →
      changed.entry? place = some (.file (.text text)))
    (start : changed.workingDirectory = disk.workingDirectory) {text : String}
    (readable : disk.readText path = .ok text) : changed.readText path = .ok text := by
  obtain ⟨place, located, found, named⟩ := readText_eq_ok_iff.mp readable
  exact readText_eq_ok_iff.mpr
    ⟨place, locate_of_directories directories start located, texts place text found, named⟩

theorem locate_single (disk : Disk) {path : Path} {name : String}
    (single : path.names = [name] ∧ '\x00' ∉ name.toList ∧ name ≠ ".." ∧ isTooLong name = false ∧
      path.isEmpty = false ∧ path.length ≤ greatestPathLength) :
    disk.locate path = .ok (disk.startOf path ++ [name]) := by
  obtain ⟨names, plain, down, bound, filled, short⟩ := single
  have checked : checkPath path = .ok () := by
    simp [checkPath, names, plain, filled, short]
  have contained : disk.container path = .ok (disk.startOf path) := by
    rw [container, checked, names]
    rfl
  have placed : placeIn (disk.startOf path) path = .ok (disk.startOf path ++ [name]) := by
    rw [placeIn, names]
    simp [bound]
  rw [locate, contained]
  exact placed

structure Wrote (disk : Disk) (path : Path) (content : FileContent) (written : Disk)
    (directory place : Place) : Prop where
  contained : disk.container path = .ok directory
  placed : placeIn directory path = .ok place
  file : disk.entry? place ≠ some .directory
  ending : path.ending = .name
  written : written = disk.setEntry place (.file content)

theorem exists_wrote (succeeded : disk.write path content = .ok written) :
    ∃ directory place, disk.Wrote path content written directory place := by
  rw [write] at succeeded
  cases contained : disk.container path with
  | error cause => simp [contained, bind, Except.bind] at succeeded
  | ok directory =>
      simp only [contained, bind, Except.bind] at succeeded
      split at succeeded
      · cases succeeded
      · cases placed : placeIn directory path with
        | error cause => simp [placed] at succeeded
        | ok place =>
            simp only [placed] at succeeded
            split at succeeded
            · cases succeeded
            · rename_i ending file
              exact ⟨directory, place, contained, placed, file, ending,
                (Except.ok.inj succeeded).symm⟩
            · cases succeeded
            · cases succeeded

theorem read_write (succeeded : disk.write path content = .ok written) :
    written.read path = .ok content := by
  obtain ⟨directory, place, contained, placed, file, ending, rfl⟩ := exists_wrote succeeded
  have named : place ≠ [] := by
    rintro rfl
    exact file rfl
  have kept : ∀ other, disk.entry? other = some .directory →
      Disk.entry? (disk.setEntry place (.file content)) other = some .directory := by
    intro other found
    rw [entry?_setEntry named, if_neg]
    · exact found
    · rintro rfl
      exact file found
  have stillContained : (disk.setEntry place (.file content)).container path = .ok directory :=
    container_of_directories kept (workingDirectory_setEntry place _) contained
  rw [read, locate, stillContained]
  simp only [bind, Except.bind, placed, entry?_setEntry named, if_true, ending]
  rfl

theorem readText_write {text : String} (succeeded : disk.write path (.text text) = .ok written) :
    written.readText path = .ok text := by
  rw [readText, read_write succeeded]
  rfl

end Disk

theorem FeatureModel.readText_exportToFile {model : FeatureModel} {format : ExportFormat}
    {path : Path} {disk written : Disk}
    (exported : model.exportToFile format path disk = (written, .ok ())) :
    written.readText path = .ok (model.exportText format) := by
  rw [exportToFile] at exported
  split at exported
  · cases exported
  · split at exported
    · cases exported
    · rename_i succeeded
      obtain ⟨rfl, _⟩ := Prod.mk.inj exported
      exact Disk.readText_write succeeded

end FeatureAtlas
