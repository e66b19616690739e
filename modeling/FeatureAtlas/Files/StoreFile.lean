import FeatureAtlas.Files.StoreAccess

/-!
Opening, keeping and closing a store. A store in a file is changed by way of a journal, from which
a change that was broken off is taken back, or by way of a log, from which changes are carried over
later. Both stand beside the file, and what is left of them decides what can be done.
-/

namespace FeatureAtlas

/-- What a file is as a store: a file of no more than a single byte is an empty one. -/
inductive StoreContent where
  | blank
  | foreign
  | kept (database : Database) (logged : Bool)
deriving DecidableEq, Repr

def StoreContent.ofFile : FileContent → StoreContent
  | .store database logged => .kept database logged
  | content => if content.isShorterThan 2 then .blank else .foreign

/-- How far a log is used. Changes have to be entered into its index, so that with an index that
cannot be changed the log can only be read. -/
inductive LogUse where
  | unused
  | entered
  | readOnly
deriving DecidableEq, Repr

structure StoreFile where
  access : StoreAccess
  logged : Bool
  log : LogUse
deriving DecidableEq, Repr

structure OpenStore where
  database : Database
  writable : Bool
  file : Option StoreFile
deriving DecidableEq, Repr

inductive StoreFileError where
  | noDirectory
  | notAStore
deriving DecidableEq, Repr

abbrev StoreAction := ExceptT StoreFileError (StateM Disk)

namespace StoreAction

def fail {α : Type} : StoreAction α := throw .notAStore

def demand {α : Type} : Option α → StoreAction α
  | some value => return value
  | none => fail

def require (condition : Bool) : StoreAction Unit := if condition then return () else fail

def entryAt (place : Place) : StoreAction (Option DiskEntry) :=
  return Disk.entry? (← get) place

def setFile (place : Place) (content : FileContent) : StoreAction Unit :=
  modify fun disk => disk.setEntry place (.file content)

def removeFile (place : Place) : StoreAction Unit := modify fun disk => disk.removeFile place

end StoreAction

namespace StoreAccess

open StoreAction

def found (access : StoreAccess) (ending : String) : StoreAction (Option (Place × DiskEntry)) := do
  match access.beside? ending with
  | none => return none
  | some place => return (← entryAt place).map fun entry => (place, entry)

def removeBeside (access : StoreAccess) (ending : String) : StoreAction Unit :=
  match access.beside? ending with
  | some place => removeFile place
  | none => return ()

def openFile (access : StoreAccess) : StoreAction Unit := do
  let disk ← get
  require <| access.likeFile.all fun other => disk.isThere (.ofText other)
  match ← entryAt access.place with
  | some (.file _) => return ()
  | some .directory => fail
  | none =>
      require (access.mode == .creating)
      require ((← entryAt access.place.dropLast) == some .directory)
      setFile access.place (.text "")

def content (access : StoreAccess) : StoreAction StoreContent := do
  match ← entryAt access.place with
  | some (.file content) => return .ofFile content
  | _ => fail

def respectMark (access : StoreAccess) : StoreAction Unit := do
  if access.use == .marked && !access.withoutLocks then
    let mark ← demand (access.beside? markEnding)
    require (← entryAt mark).isNone

def isHot : FileContent → Bool
  | .text text => text != "" && text.toList.head? != some '\x00'
  | _ => true

/-- Takes back the change that a journal tells of. There is none that a journal with a foreign text
tells of, so that it is only removed. To an empty store nothing was changed. -/
def takeBack (access : StoreAccess) (content : StoreContent) : StoreAction Unit := do
  match ← access.found journalEnding with
  | none => return ()
  | some (_, .directory) => require (content == .blank)
  | some (place, .file journal) =>
      if content == .blank then
        if access.mayChange && !journal.isShorterThan 1 then removeFile place
      else if isHot journal then
        require access.mayChange
        removeFile place

def canKeepJournal (access : StoreAccess) : StoreAction Bool := do
  match access.beside? journalEnding, ← access.found journalEnding with
  | none, _ | _, some (_, .directory) => return false
  | _, _ => return true

def leastLogLength : Nat := 32

/-- Opens a log, which is made where there is none. What is no log counts as an empty one, except
where the index that would tell so cannot be changed. -/
def openLog (access : StoreAccess) : StoreAction LogUse := do
  require access.canLog
  let place ← demand (access.beside? logEnding)
  let holdsNothing ← match ← entryAt place with
    | some .directory => fail
    | some (.file log) => pure (log.isShorterThan leastLogLength)
    | none => do
        setFile place (.text "")
        pure true
  if access.use == .exclusive then return .entered
  else
    let index ← demand (access.beside? indexEnding)
    match ← entryAt index, access.keepsIndex with
    | none, true => fail
    | some .directory, _ | some (.file _), true =>
        require holdsNothing
        return .readOnly
    | _, false =>
        setFile index .index
        return .entered

def openPendingLog (access : StoreAccess) (content : StoreContent) : StoreAction LogUse := do
  match ← access.found logEnding with
  | none => return .unused
  | some (place, entry) =>
      if entry == .file (.text "") then return .unused
      else if content == .blank then
        require (entry != .directory)
        removeFile place
        return .unused
      else access.openLog

/-- Closes a log. What has been entered is carried over, so that the log is no longer needed; this
takes the right to change the store. -/
def closeLog (access : StoreAccess) (log : LogUse) : StoreAction Unit := do
  if log == .entered && access.mayChange then
    access.removeBeside logEnding
    if access.use == .shared then access.removeBeside indexEnding

def changeByJournal (access : StoreAccess) (database : Database) (logged : Bool) :
    StoreAction Unit := do
  require access.mayChange
  require (← access.canKeepJournal)
  access.removeBeside journalEnding
  setFile access.place (.store database logged)

def enter (access : StoreAccess) : StoreAction OpenStore := do
  let content ← access.content
  if access.isFixed then
    match content with
    | .foreign => fail
    | .blank => return { database := .empty, writable := false, file := none }
    | .kept database _ => return { database, writable := false, file := none }
  else
    access.respectMark
    access.takeBack content
    let pending ← access.openPendingLog content
    let (database, logged) ← match content with
      | .foreign => do
          access.closeLog pending
          fail
      | .blank => pure (Database.empty, false)
      | .kept database logged => pure (database, logged)
    let getsLog := pending == .unused && access.canLog && !logged
    if getsLog then access.changeByJournal database true
    let logged := logged || getsLog
    let log ← if pending == .unused && logged then access.openLog else pure pending
    let writable ← match log with
      | .unused => access.canKeepJournal
      | .entered => pure true
      | .readOnly => pure false
    return { database, writable := writable && access.mayChange
             file := some { access, logged, log } }

end StoreAccess

namespace Disk

def openSite (site : StoreSite) : StoreAction OpenStore :=
  match site with
  | .memory writable => do
      StoreAction.require writable
      return { database := .empty, writable, file := none }
  | .file access => do
      access.openFile
      access.enter

def openStore (disk : Disk) (text : String) : Disk × Except StoreFileError OpenStore :=
  match (Path.ofText text).parent? with
  | none => (disk, .error .noDirectory)
  | some parent =>
      match disk.makeDirectories parent with
      | (prepared, .error _) => (prepared, .error .noDirectory)
      | (prepared, .ok ()) =>
          let site := if text.contains '\x00' then none
            else (Address.ofText? text).bind fun address => address.site? prepared
          match site with
          | none => (prepared, .error .notAStore)
          | some site =>
              let (result, opened) := (openSite site).run prepared
              (opened, result)

def keepStore (disk : Disk) (store : OpenStore) (database : Database) : Disk :=
  match store.file with
  | none => disk
  | some file =>
      let kept := disk.setEntry file.access.place (.file (.store database file.logged))
      match file.log, file.access.beside? StoreAccess.journalEnding with
      | .unused, some journal => kept.removeFile journal
      | _, _ => kept

def closeStore (disk : Disk) (store : OpenStore) : Disk :=
  match store.file with
  | none => disk
  | some file => ((file.access.closeLog file.log).run disk).2

end Disk

end FeatureAtlas
