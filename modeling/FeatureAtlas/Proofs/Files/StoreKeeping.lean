import FeatureAtlas.Files.StoreFile
import FeatureAtlas.Proofs.Files.Writing

/-!
A store in a file is kept from one run to the next. Opening, keeping and closing change the file of
the store and the files beside it alone, and at the end no file is left beside it.
-/

namespace FeatureAtlas

/-! Actions that succeed. -/

namespace StoreAction

variable {α β : Type} {disk between after : Disk}

/-- An action succeeds on a disk, with a value, and leaves a disk. -/
def Does (action : StoreAction α) (disk : Disk) (value : α) (after : Disk) : Prop :=
  action.run disk = (.ok value, after)

theorem Does.bind {first : StoreAction α} {rest : α → StoreAction β} {value : α} {result : β}
    (does : Does first disk value between) (following : Does (rest value) between result after) :
    Does (first >>= rest) disk result after := by
  have unfolded : (first >>= rest).run disk =
      ExceptT.bindCont rest (first.run disk).1 (first.run disk).2 := rfl
  rw [Does, unfolded, does]
  exact following

theorem exists_does_bind {first : StoreAction α} {rest : α → StoreAction β} {value : α} {result : β}
    {holds : Disk → Prop} (does : Does first disk value between)
    (following : ∃ after, Does (rest value) between result after ∧ holds after) :
    ∃ after, Does (first >>= rest) disk result after ∧ holds after := by
  obtain ⟨after, follows, holding⟩ := following
  exact ⟨after, does.bind follows, holding⟩

theorem Does.pure (value : α) (disk : Disk) : Does (Pure.pure value) disk value disk := rfl

theorem Does.require {condition : Bool} (holds : condition = true) (disk : Disk) :
    Does (StoreAction.require condition) disk () disk := by
  rw [StoreAction.require, if_pos holds]
  rfl

theorem Does.setFile (disk : Disk) (place : Place) (content : FileContent) :
    Does (StoreAction.setFile place content) disk () (disk.setEntry place (.file content)) := rfl

theorem Does.removeFile (disk : Disk) (place : Place) :
    Does (StoreAction.removeFile place) disk () (disk.removeFile place) := rfl

theorem Does.entryAt (disk : Disk) (place : Place) :
    Does (StoreAction.entryAt place) disk (disk.entry? place) disk := rfl

end StoreAction

/-! The files of a store. -/

namespace StoreAccess

open StoreAction

variable {access : StoreAccess} {disk before after : Disk} {database : Database}

def ownPlaces (access : StoreAccess) : List Place :=
  access.place :: endings.filterMap access.beside?

/-- A store that can be created and changed. Its name leaves room for the files beside it, and the
index of a log that is shared can be changed. -/
structure Lasting (access : StoreAccess) : Prop where
  creating : access.mode = .creating
  changing : access.isFixed = false
  indexed : access.canLog = true → access.use = .shared → access.keepsIndex = false
  beside : ∀ ending ∈ endings, ∃ place, access.beside? ending = some place

theorem beside?_eq_some {ending : String} {place : Place}
    (isBeside : access.beside? ending = some place) :
    ∃ name, access.place = access.place.dropLast ++ [name] ∧
      place = access.place.dropLast ++ [name ++ ending] := by
  obtain ⟨name, last, isPlace⟩ := Option.bind_eq_some_iff.mp isBeside
  obtain ⟨directory, whole⟩ := List.getLast?_eq_some_iff.mp last
  refine ⟨name, by simp [whole], ?_⟩
  dsimp only at isPlace
  split at isPlace
  · cases isPlace
  · exact (Option.some.inj isPlace).symm

theorem beside?_inj {ending other : String} {place : Place}
    (here : access.beside? ending = some place) (there : access.beside? other = some place) :
    ending = other := by
  obtain ⟨name, isPlace, rfl⟩ := beside?_eq_some here
  obtain ⟨again, isAgain, same⟩ := beside?_eq_some there
  have names := List.append_cancel_left (isPlace.symm.trans isAgain)
  rw [List.singleton_inj.mp names] at same
  exact (String.append_right_inj _).mp (List.singleton_inj.mp (List.append_cancel_left same))

theorem beside?_ne_place {ending : String} (isEnding : ending ∈ endings) {place : Place}
    (isBeside : access.beside? ending = some place) : place ≠ access.place := by
  obtain ⟨name, isPlace, rfl⟩ := beside?_eq_some isBeside
  intro same
  have names := List.singleton_inj.mp (List.append_cancel_left (same.trans isPlace))
  have empty : ending = "" := String.append_eq_left_iff.mp names
  subst empty
  exact absurd isEnding (by decide)

theorem Lasting.place_ne_nil (lasting : access.Lasting) : access.place ≠ [] := by
  obtain ⟨place, isBeside⟩ := lasting.beside journalEnding (by decide)
  obtain ⟨name, isPlace, _⟩ := beside?_eq_some isBeside
  rw [isPlace]
  simp

theorem beside?_ne_nil {ending : String} {place : Place}
    (isBeside : access.beside? ending = some place) : place ≠ [] := by
  obtain ⟨name, _, rfl⟩ := beside?_eq_some isBeside
  simp

theorem Lasting.mayChange (lasting : access.Lasting) : access.mayChange = true := by
  rw [StoreAccess.mayChange, lasting.creating, lasting.changing]
  rfl

theorem mem_ownPlaces_of_beside {ending : String} (isEnding : ending ∈ endings) {place : Place}
    (isBeside : access.beside? ending = some place) : place ∈ access.ownPlaces :=
  List.mem_cons_of_mem _ (List.mem_filterMap.mpr ⟨ending, isEnding, isBeside⟩)

/-! A store at rest, and one that is in use. -/

def Alone (access : StoreAccess) (disk : Disk) : Prop :=
  ∀ ending ∈ endings, ∀ place, access.beside? ending = some place → disk.entry? place = none

/-- Between two runs the file of a store holds what it keeps, and stands alone. Before the first run
there is no file. -/
structure AtRest (access : StoreAccess) (disk : Disk) (database : Database) : Prop where
  file : disk.entry? access.place = some (.file (.store database access.canLog)) ∨
    database = .empty ∧ disk.entry? access.place = none
  alone : access.Alone disk

def Leaves (access : StoreAccess) (left : List String) (disk : Disk) : Prop :=
  ∀ ending ∈ endings, ∀ place, access.beside? ending = some place →
    disk.entry? place = none ∨ ending ∈ left ∧ ∃ content, disk.entry? place = some (.file content)

def closing (access : StoreAccess) : List String :=
  if access.canLog then if access.use == .shared then [logEnding, indexEnding] else [logEnding]
  else []

/-- Nothing but the files of a store has changed on a disk, and those that stand beside it are
removed in the end. -/
structure Touches (access : StoreAccess) (before disk : Disk) : Prop where
  beside : access.Leaves access.closing disk
  elsewhere : ∀ place ∉ access.ownPlaces, disk.entry? place = before.entry? place
  directory : disk.workingDirectory = before.workingDirectory

/-- During a run the file of a store holds what it keeps. Before something is kept it may be
empty. -/
structure InUse (access : StoreAccess) (before : Disk) (database : Database) (disk : Disk) : Prop
    extends access.Touches before disk where
  file : disk.entry? access.place = some (.file (.store database access.canLog)) ∨
    database = .empty ∧ disk.entry? access.place = some (.file (.text ""))

theorem Touches.setFile (touches : access.Touches before disk) (lasting : access.Lasting)
    (content : FileContent) :
    access.Touches before (disk.setEntry access.place (.file content)) := by
  constructor
  · intro ending isEnding place isBeside
    rw [Disk.entry?_setEntry lasting.place_ne_nil, if_neg (beside?_ne_place isEnding isBeside)]
    exact touches.beside ending isEnding place isBeside
  · intro place elsewhere
    have different : place ≠ access.place := by
      rintro rfl
      exact elsewhere List.mem_cons_self
    rw [Disk.entry?_setEntry lasting.place_ne_nil, if_neg different]
    exact touches.elsewhere place elsewhere
  · rw [Disk.workingDirectory_setEntry]
    exact touches.directory

theorem Touches.setBeside (touches : access.Touches before disk) {ending : String}
    (isEnding : ending ∈ endings) (closes : ending ∈ access.closing) {place : Place}
    (isBeside : access.beside? ending = some place) (content : FileContent) :
    access.Touches before (disk.setEntry place (.file content)) := by
  have named : place ≠ [] := beside?_ne_nil isBeside
  constructor
  · intro other isOther otherPlace otherBeside
    rw [Disk.entry?_setEntry named]
    split
    · rename_i same
      exact .inr ⟨beside?_inj isBeside (same ▸ otherBeside) ▸ closes, content, rfl⟩
    · exact touches.beside other isOther otherPlace otherBeside
  · intro other elsewhere
    have different : other ≠ place := by
      rintro rfl
      exact elsewhere (mem_ownPlaces_of_beside isEnding isBeside)
    rw [Disk.entry?_setEntry named, if_neg different]
    exact touches.elsewhere other elsewhere
  · rw [Disk.workingDirectory_setEntry]
    exact touches.directory

theorem InUse.setFile (inUse : access.InUse before database disk) (lasting : access.Lasting)
    (kept : Database) : access.InUse before kept
      (disk.setEntry access.place (.file (.store kept access.canLog))) where
  toTouches := inUse.toTouches.setFile lasting _
  file := .inl (by rw [Disk.entry?_setEntry lasting.place_ne_nil, if_pos rfl])

theorem InUse.setBeside (inUse : access.InUse before database disk) {ending : String}
    (isEnding : ending ∈ endings) (closes : ending ∈ access.closing) {place : Place}
    (isBeside : access.beside? ending = some place) (content : FileContent) :
    access.InUse before database (disk.setEntry place (.file content)) where
  toTouches := inUse.toTouches.setBeside isEnding closes isBeside content
  file := by
    rw [Disk.entry?_setEntry (beside?_ne_nil isBeside),
      if_neg (beside?_ne_place isEnding isBeside).symm]
    exact inUse.file

theorem Alone.touches (alone : access.Alone disk) : access.Touches disk disk where
  beside ending isEnding place isBeside := .inl (alone ending isEnding place isBeside)
  elsewhere _ _ := rfl
  directory := rfl

theorem Alone.setFile (alone : access.Alone disk) (lasting : access.Lasting)
    (content : FileContent) : access.Alone (disk.setEntry access.place (.file content)) := by
  intro ending isEnding place isBeside
  rw [Disk.entry?_setEntry lasting.place_ne_nil, if_neg (beside?_ne_place isEnding isBeside)]
  exact alone ending isEnding place isBeside

/-! The actions on a store that stands alone. -/

theorem does_found (alone : access.Alone disk) {ending : String} (isEnding : ending ∈ endings) :
    Does (access.found ending) disk none disk := by
  rw [found]
  cases isBeside : access.beside? ending with
  | none => exact .pure none disk
  | some place =>
      refine .bind (.entryAt disk place) ?_
      rw [alone ending isEnding place isBeside]
      exact .pure none disk

theorem does_removeBeside (alone : access.Alone disk) {ending : String}
    (isEnding : ending ∈ endings) : Does (access.removeBeside ending) disk () disk := by
  rw [removeBeside]
  cases isBeside : access.beside? ending with
  | none => exact .pure () disk
  | some place =>
      have absent := alone ending isEnding place isBeside
      have removed := Does.removeFile disk place
      rwa [Disk.removeFile_absent absent] at removed

theorem does_content {content : FileContent}
    (file : disk.entry? access.place = some (.file content)) :
    Does access.content disk (.ofFile content) disk := by
  refine .bind (.entryAt disk access.place) ?_
  rw [file]
  exact .pure _ disk

theorem does_respectMark (alone : access.Alone disk) (lasting : access.Lasting) :
    Does access.respectMark disk () disk := by
  rw [respectMark]
  obtain ⟨mark, isBeside⟩ := lasting.beside markEnding (by decide)
  split
  · rw [isBeside]
    refine .bind (.pure mark disk) (.bind (.entryAt disk mark) (.require ?_ disk))
    rw [alone markEnding (by decide) mark isBeside]
    rfl
  · exact .pure () disk

theorem does_takeBack (alone : access.Alone disk) (content : StoreContent) :
    Does (access.takeBack content) disk () disk :=
  .bind (does_found alone (by decide)) (.pure () disk)

theorem does_openPendingLog (alone : access.Alone disk) (content : StoreContent) :
    Does (access.openPendingLog content) disk .unused disk :=
  .bind (does_found alone (by decide)) (.pure _ disk)

theorem does_canKeepJournal (alone : access.Alone disk) (lasting : access.Lasting) :
    Does access.canKeepJournal disk true disk := by
  obtain ⟨journal, isBeside⟩ := lasting.beside journalEnding (by decide)
  refine .bind (does_found alone (by decide)) ?_
  rw [isBeside]
  exact .pure true disk

theorem does_changeByJournal (alone : access.Alone disk) (lasting : access.Lasting)
    (database : Database) (logged : Bool) :
    Does (access.changeByJournal database logged) disk ()
      (disk.setEntry access.place (.file (.store database logged))) := by
  refine .bind (.require lasting.mayChange disk) ?_
  refine .bind (does_canKeepJournal alone lasting) ?_
  refine .bind (.require rfl disk) ?_
  exact .bind (does_removeBeside alone (by decide)) rfl

theorem exists_does_openLog (alone : access.Alone disk) (lasting : access.Lasting)
    (logs : access.canLog = true) (inUse : access.InUse before database disk) :
    ∃ after, Does access.openLog disk .entered after ∧ access.InUse before database after := by
  obtain ⟨log, logBeside⟩ := lasting.beside logEnding (by decide)
  have closesLog : logEnding ∈ access.closing := by
    rw [closing, if_pos logs]
    split <;> simp
  have withLog := inUse.setBeside (by decide) closesLog logBeside (.text "")
  have absent := alone logEnding (by decide) log logBeside
  by_cases exclusive : (access.use == .exclusive) = true
  · refine ⟨_, ?_, withLog⟩
    rw [openLog, logBeside]
    refine .bind (.require logs disk) (.bind (.pure log disk) (.bind (.entryAt disk log) ?_))
    rw [absent]
    simp only [exclusive, if_true]
    exact .bind (.setFile disk log _) (.bind (.pure true _) (.pure _ _))
  · obtain ⟨index, indexBeside⟩ := lasting.beside indexEnding (by decide)
    have shared : (access.use == .shared) = true := by
      cases use : access.use <;> simp_all [canLog]
    have closesIndex : indexEnding ∈ access.closing := by
      rw [closing, if_pos logs, if_pos shared]
      simp
    have noIndex : Disk.entry? (disk.setEntry log (.file (.text ""))) index = none := by
      have different : index ≠ log := by
        rintro rfl
        exact absurd (beside?_inj indexBeside logBeside) (by decide)
      rw [Disk.entry?_setEntry (beside?_ne_nil logBeside), if_neg different]
      exact alone indexEnding (by decide) index indexBeside
    refine ⟨_, ?_, withLog.setBeside (by decide) closesIndex indexBeside .index⟩
    rw [openLog, logBeside, indexBeside]
    refine .bind (.require logs disk) (.bind (.pure log disk) (.bind (.entryAt disk log) ?_))
    rw [absent]
    simp only [exclusive]
    refine .bind (.setFile disk log _) (.bind (.pure true _) (.bind (.pure index _) ?_))
    refine .bind (.entryAt _ index) ?_
    rw [noIndex, lasting.indexed logs (eq_of_beq shared)]
    exact .bind (.setFile _ index .index) (.pure _ _)

theorem exists_does_openFile (rest : access.AtRest disk database) (lasting : access.Lasting)
    (liked : (access.likeFile.all fun other => disk.isThere (.ofText other)) = true)
    (holder : disk.entry? access.place.dropLast = some .directory) :
    ∃ after, Does access.openFile disk () after ∧ access.Alone after ∧
      access.InUse disk database after := by
  rcases rest.file with stored | ⟨rfl, absent⟩
  · refine ⟨disk, ?_, rest.alone, ⟨rest.alone.touches, .inl stored⟩⟩
    refine .bind rfl (.bind (.require liked disk) (.bind (.entryAt disk _) ?_))
    rw [stored]
    exact .pure () disk
  · refine ⟨disk.setEntry access.place (.file (.text "")), ?_, rest.alone.setFile lasting _, ?_⟩
    · refine .bind rfl (.bind (.require liked disk) (.bind (.entryAt disk _) ?_))
      rw [absent]
      refine .bind (.require ?_ disk) (.bind (.entryAt disk _) (.bind (.require ?_ disk) ?_))
      · rw [lasting.creating]
        rfl
      · rw [holder]
        rfl
      · exact .setFile disk access.place _
    · refine ⟨rest.alone.touches.setFile lasting _, .inr ⟨rfl, ?_⟩⟩
      rw [Disk.entry?_setEntry lasting.place_ne_nil, if_pos rfl]

def openedStore (access : StoreAccess) (database : Database) : OpenStore where
  database := database
  writable := true
  file := some { access, logged := access.canLog
                 log := if access.canLog then .entered else .unused }

theorem exists_does_enter (alone : access.Alone disk) (lasting : access.Lasting)
    (inUse : access.InUse before database disk) :
    ∃ after, Does access.enter disk (access.openedStore database) after ∧
      access.InUse before database after := by
  have changing := lasting.mayChange
  have keepsJournal := does_canKeepJournal alone lasting
  obtain ⟨content, file, holds⟩ : ∃ content, disk.entry? access.place = some (.file content) ∧
      (content = .store database access.canLog ∨ database = .empty ∧ content = .text "") := by
    rcases inUse.file with stored | ⟨isEmpty, blank⟩
    · exact ⟨_, stored, .inl rfl⟩
    · exact ⟨_, blank, .inr ⟨isEmpty, rfl⟩⟩
  rw [enter]
  refine exists_does_bind (does_content file) ?_
  rw [lasting.changing]
  refine exists_does_bind (does_respectMark alone lasting) ?_
  refine exists_does_bind (does_takeBack alone _) ?_
  refine exists_does_bind (does_openPendingLog alone _) ?_
  rcases holds with rfl | ⟨rfl, rfl⟩
  · refine exists_does_bind (.pure (database, access.canLog) disk) ?_
    rw [openedStore, changing]
    cases logs : access.canLog with
    | true =>
        obtain ⟨after, logged, used⟩ := exists_does_openLog alone lasting logs inUse
        exact ⟨after, logged.bind (.bind (.pure true after) (.pure _ after)), used⟩
    | false =>
        exact ⟨disk, .bind (.pure LogUse.unused disk) (keepsJournal.bind (.pure _ disk)), inUse⟩
  · refine exists_does_bind (.pure (Database.empty, false) disk) ?_
    rw [openedStore, changing]
    cases logs : access.canLog with
    | true =>
        have journaled := does_changeByJournal alone lasting .empty true
        obtain ⟨after, logged, used⟩ := exists_does_openLog (alone.setFile lasting _) lasting logs
          (inUse.setFile lasting .empty)
        rw [logs] at logged
        exact ⟨after, journaled.bind (logged.bind (.bind (.pure true after) (.pure _ after))), used⟩
    | false =>
        exact ⟨disk, .bind (.pure LogUse.unused disk) (keepsJournal.bind (.pure _ disk)), inUse⟩

/-! Whole runs. -/

theorem InUse.keepStore (inUse : access.InUse before database disk) (lasting : access.Lasting)
    (opened kept : Database) :
    access.InUse before kept (disk.keepStore (access.openedStore opened) kept) := by
  have changed := inUse.setFile lasting kept
  obtain ⟨journal, isBeside⟩ := lasting.beside journalEnding (by decide)
  rw [Disk.keepStore, openedStore]
  dsimp only
  cases logs : access.canLog with
  | true =>
      rw [logs] at changed
      exact changed
  | false =>
      have absent := (changed.beside journalEnding (by decide) journal isBeside).resolve_right <| by
        rw [closing, logs]
        simp
      rw [logs] at changed absent
      rw [isBeside, if_neg (by simp)]
      dsimp only
      rwa [Disk.removeFile_absent absent]

theorem InUse.keepChanges (inUse : access.InUse before database disk) (lasting : access.Lasting)
    (changed : Database) : access.InUse before changed
      (if changed != database then disk.keepStore (access.openedStore database) changed
        else disk) := by
  by_cases same : changed = database
  · subst same
    simpa using inUse
  · rw [if_pos (by simpa using same)]
    exact inUse.keepStore lasting database changed

theorem Leaves.removeFile {ending : String} {left : List String} {place : Place}
    (leaves : access.Leaves (ending :: left) disk) (isEnding : ending ∈ endings)
    (isBeside : access.beside? ending = some place) :
    access.Leaves left (disk.removeFile place) ∧
      Disk.entry? (disk.removeFile place) access.place = disk.entry? access.place := by
  have file : disk.entry? place ≠ some .directory := by
    rcases leaves ending isEnding place isBeside with absent | ⟨_, content, found⟩
    · simp [absent]
    · simp [found]
  constructor
  · intro other isOther otherPlace otherBeside
    rw [Disk.entry?_removeFile file]
    split
    · exact .inl rfl
    · rename_i different
      refine (leaves other isOther otherPlace otherBeside).imp_right fun ⟨among, found⟩ =>
        ⟨(List.mem_cons.mp among).resolve_left fun same => different ?_, found⟩
      exact Option.some.inj (otherBeside.symm.trans (same ▸ isBeside))
  · rw [Disk.entry?_removeFile file, if_neg (beside?_ne_place isEnding isBeside).symm]

theorem Leaves.alone (leaves : access.Leaves [] disk) : access.Alone disk :=
  fun ending isEnding place isBeside =>
    (leaves ending isEnding place isBeside).resolve_right fun among => nomatch among.1

theorem does_removeBeside_beside {ending : String} {place : Place}
    (isBeside : access.beside? ending = some place) (disk : Disk) :
    Does (access.removeBeside ending) disk () (disk.removeFile place) := by
  rw [removeBeside, isBeside]
  exact .removeFile disk place

theorem exists_does_closeLog (leaves : access.Leaves access.closing disk)
    (lasting : access.Lasting) :
    ∃ after, Does (access.closeLog (if access.canLog then .entered else .unused)) disk () after ∧
      access.Alone after ∧ after.entry? access.place = disk.entry? access.place := by
  obtain ⟨log, logBeside⟩ := lasting.beside logEnding (by decide)
  obtain ⟨index, indexBeside⟩ := lasting.beside indexEnding (by decide)
  rw [closing] at leaves
  rw [closeLog, lasting.mayChange]
  cases logs : access.canLog with
  | false =>
      rw [logs] at leaves
      exact ⟨disk, .pure () disk, leaves.alone, rfl⟩
  | true =>
      rw [logs, if_pos rfl] at leaves
      refine exists_does_bind (does_removeBeside_beside logBeside disk) ?_
      cases shared : access.use == .shared with
      | false =>
          rw [shared] at leaves
          obtain ⟨alone, same⟩ := Leaves.removeFile leaves (by decide) logBeside
          exact ⟨_, .pure () _, alone.alone, same⟩
      | true =>
          rw [shared, if_pos rfl] at leaves
          obtain ⟨withIndex, same⟩ := Leaves.removeFile leaves (by decide) logBeside
          obtain ⟨alone, still⟩ := Leaves.removeFile withIndex (by decide) indexBeside
          exact ⟨_, does_removeBeside_beside indexBeside _, alone.alone, still.trans same⟩

theorem InUse.closeStore (inUse : access.InUse before database disk) (lasting : access.Lasting)
    (opened : Database) (filled : database ≠ .empty) :
    access.AtRest (disk.closeStore (access.openedStore opened)) database := by
  have stored := inUse.file.resolve_right fun blank => filled blank.1
  obtain ⟨after, closes, alone, same⟩ := exists_does_closeLog inUse.beside lasting
  have closed : disk.closeStore (access.openedStore opened) = after := congrArg Prod.snd closes
  rw [closed]
  exact ⟨.inl (same.trans stored), alone⟩

end StoreAccess

/-- A text names the store in a file: the directory that it leads into can be made, and then its
address leads to the file, whose directory is there. What is made is in no place of the store. -/
structure Disk.Names (disk : Disk) (text : String) (access : StoreAccess) (prepared : Disk) :
    Prop where
  made : ∃ parent, (Path.ofText text).parent? = some parent ∧
    disk.makeDirectories parent = (prepared, .ok ())
  plain : text.contains '\x00' = false
  site : (Address.ofText? text).bind (·.site? prepared) = some (.file access)
  liked : (access.likeFile.all fun other => prepared.isThere (.ofText other)) = true
  holder : prepared.entry? access.place.dropLast = some .directory
  apart : ∀ place ∈ access.ownPlaces, prepared.entry? place = disk.entry? place

namespace StoreAccess

variable {access : StoreAccess} {disk prepared opened : Disk} {database : Database} {text : String}

theorem AtRest.of_same (rest : access.AtRest disk database)
    (same : ∀ place ∈ access.ownPlaces, prepared.entry? place = disk.entry? place) :
    access.AtRest prepared database where
  file := by
    rw [same _ List.mem_cons_self]
    exact rest.file
  alone ending isEnding place isBeside := by
    rw [same place (mem_ownPlaces_of_beside isEnding isBeside)]
    exact rest.alone ending isEnding place isBeside

theorem exists_openStore (names : disk.Names text access prepared) (lasting : access.Lasting)
    (rest : access.AtRest disk database) :
    ∃ opened, disk.openStore text = (opened, .ok (access.openedStore database)) ∧
      access.InUse prepared database opened := by
  obtain ⟨parent, isParent, made⟩ := names.made
  obtain ⟨created, does, alone, inUse⟩ :=
    exists_does_openFile (rest.of_same names.apart) lasting names.liked names.holder
  obtain ⟨opened, enters, used⟩ := exists_does_enter alone lasting inUse
  have opens : (Disk.openSite (.file access)).run prepared =
      (.ok (access.openedStore database), opened) := does.bind enters
  refine ⟨opened, ?_, used⟩
  simp only [Disk.openStore, isParent, made, names.plain, names.site, Bool.false_eq_true,
    if_false, opens]

theorem AtRest.elsewhere (rest : access.AtRest disk database) {place : Place} {entry : DiskEntry}
    (found : disk.entry? place = some entry)
    (other : ∀ kept logged, entry ≠ .file (.store kept logged)) : place ∉ access.ownPlaces := by
  intro own
  rcases List.mem_cons.mp own with rfl | isBeside
  · rcases rest.file with stored | ⟨_, absent⟩
    · exact other _ _ (Option.some.inj (found.symm.trans stored))
    · cases found.symm.trans absent
  · obtain ⟨ending, isEnding, named⟩ := List.mem_filterMap.mp isBeside
    cases found.symm.trans (rest.alone ending isEnding place named)

theorem readText_inUse (names : disk.Names text access prepared)
    (rest : access.AtRest disk database) {kept : Database}
    (inUse : access.InUse prepared kept opened) {path : Path} {written : String}
    (readable : disk.readText path = .ok written) : opened.readText path = .ok written := by
  obtain ⟨parent, _, made⟩ := names.made
  have extended := disk.makeDirectories_extends parent
  rw [made] at extended
  have stays {place : Place} {entry : DiskEntry} (found : disk.entry? place = some entry)
      (other : ∀ kept logged, entry ≠ .file (.store kept logged)) :
      opened.entry? place = some entry :=
    (inUse.elsewhere place (rest.elsewhere found other)).trans (extended.kept place entry found)
  exact Disk.readText_of_kept (fun _ found => stays found (by simp))
    (fun _ _ found => stays found (by simp)) (inUse.directory.trans extended.start) readable

end StoreAccess

end FeatureAtlas
