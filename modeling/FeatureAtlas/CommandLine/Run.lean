import FeatureAtlas.Model.Assembly
import FeatureAtlas.Export.File
import FeatureAtlas.Files.StoreFile
import FeatureAtlas.Store.Load
import FeatureAtlas.Settings
import FeatureAtlas.CommandLine.Arguments

/-!
Running a command on a disk: what it prints, what it leaves on the disk and how it ends. A run that
has done its work ends in failure when its diagnostics reach the threshold.
-/

namespace FeatureAtlas

inductive RunError where
  | usage (cause : UsageError)
  | settings (cause : SettingsError)
  | unreadableSource (path : String) (cause : FileError)
  | unparsableSource (path : String) (cause : DecodeError)
  | scan (cause : ScanError)
  | export (cause : ExportError)
  | storeFile (path : String) (cause : StoreFileError)
  | readOnlyStore (path : String)
  | store (cause : StoreError)
  | unknownSnapshot (id : SnapshotId)
deriving DecidableEq, Repr

namespace RunError

def message : RunError → String
  | usage cause => cause.message
  | settings cause => cause.context
  | unreadableSource path cause => "Failed to open source tree " ++ path ++ ": " ++ cause.message
  | unparsableSource path cause =>
      "Failed to parse source tree " ++ path ++ ": " ++ cause.message?.getD "malformed text"
  | scan cause => cause.message
  | .export cause => cause.message
  | storeFile path .noDirectory => "No directory for the model store " ++ path
  | storeFile path .notAStore => path ++ " is not a model store"
  | readOnlyStore path => "The model store " ++ path ++ " cannot be changed"
  | store cause => cause.message?.getD "the model store cannot be read"
  | unknownSnapshot id => "Snapshot " ++ id ++ " not found"

end RunError

/-- What a run finds around it: where settings and models are kept by default, an identifier that is
in no store yet, and the time. -/
structure Environment where
  settingsPath : String
  storePath : String
  freshId : SnapshotId
  time : String
deriving Repr

inductive ExitStatus where
  | success
  | diagnostics
  | fatal
deriving DecidableEq, Repr

def ExitStatus.code : ExitStatus → Nat
  | success => 0
  | diagnostics => 1
  | fatal => 2

structure Outcome where
  disk : Disk
  status : ExitStatus
  output : String
  journal : List JournalEvent
  problem : Option RunError
deriving Repr

namespace Outcome

def finished (disk : Disk) (output : String) (journal : List JournalEvent) : Outcome :=
  { disk, status := .success, output, journal, problem := none }

def failed (disk : Disk) (problem : RunError) (journal : List JournalEvent) : Outcome :=
  { disk, status := .fatal, output := "", journal, problem := some problem }

end Outcome

/-- The settings for a run. Without an explicit file, settings that cannot be loaded are the default
ones. -/
def settingsFor (environment : Environment) (explicit : Option String) (disk : Disk) :
    Except RunError Settings :=
  match explicit with
  | some path => (Settings.load disk path).mapError .settings
  | none =>
      match Settings.load disk environment.settingsPath with
      | .ok settings => .ok settings
      | .error _ => .ok {}

def scanFile (disk : Disk) (path : String) : Except RunError Scan := do
  let text ← (disk.readText (.ofText path)).mapError (.unreadableSource path)
  let document ← (SourceDocument.parse text).mapError (.unparsableSource path)
  (SourceTree.ofDocument document).scan.mapError .scan

def Scan.fullJournal (scan : Scan) : List JournalEvent := scan.journal ++ scan.buildJournal

/-! The commands. -/

def finishBuild (policy : FailurePolicy) (model : FeatureModel) (outcome : Outcome) : Outcome :=
  if policy.isFailure model.diagnostics then { outcome with status := .diagnostics } else outcome

def runBuild (settings : Settings) (disk : Disk) (input : String) (format : Option ExportFormat)
    (output : Option String) (failOn : Option FailurePolicy) : Outcome :=
  match scanFile disk input with
  | .error error => .failed disk error []
  | .ok scan =>
      let model := scan.build
      let format := format.getD settings.format
      let policy := failOn.getD settings.failOn
      match output <|> settings.output with
      | none =>
          finishBuild policy model
            (.finished disk (model.exportText format) scan.fullJournal)
      | some path =>
          match model.exportToFile format (.ofText path) disk with
          | (disk, .error error) => .failed disk (.export (.file error)) scan.fullJournal
          | (disk, .ok ()) =>
              finishBuild policy model
                (.finished disk "" (scan.fullJournal ++ [exportedEvent path]))

def runScan (disk : Disk) (input : String) : Outcome :=
  match scanFile disk input with
  | .error error => .failed disk error []
  | .ok scan => .finished disk (scan.toJson.pretty ++ "\n") scan.journal

def Snapshot.line (snapshot : Snapshot) : String :=
  snapshot.id ++ "  " ++ snapshot.createdAt ++ "  " ++ toString snapshot.nodeCount ++
    " nodes  " ++ toString snapshot.diagnosticCount ++ " diagnostics  " ++ snapshot.label

def defaultLabel (input : String) : String := (Path.ofText input).stem?.getD "model"

structure StoreOutcome where
  database : Database
  output : String
  journal : List JournalEvent

def StoreCommand.run (environment : Environment) (disk : Disk) (database : Database) :
    StoreCommand → Except RunError StoreOutcome
  | .save input label => do
      let scan ← scanFile disk input
      let header : SnapshotHeader :=
        { id := environment.freshId, createdAt := environment.time
          label := label.getD (defaultLabel input), source := some input }
      match database.save header scan.build none with
      | (_, .error error) => .error (.store (.database error))
      | (changed, .ok snapshot) =>
          return { database := changed, output := snapshot.id ++ "\n"
                   journal := scan.fullJournal ++ [header.savedEvent] }
  | .list => do
      let snapshots ← database.listSnapshots.mapError fun error => .store (.database error)
      return { database, output := joinLines (snapshots.map Snapshot.line), journal := [] }
  | .show id => do
      match ← (database.loadDocument id).mapError .store with
      | none => .error (.unknownSnapshot id)
      | some document => return { database, output := document.write ++ "\n", journal := [] }
  | .delete id => do
      match ← (database.deleteSnapshot id).mapError fun error => .store (.database error) with
      | (false, _) => .error (.unknownSnapshot id)
      | (true, changed) =>
          return { database := changed, output := ""
                   journal := [.info ("Deleted snapshot " ++ id)] }

def StoreCommand.writes : StoreCommand → Bool
  | .save _ _ | .delete _ => true
  | .list | .show _ => false

def runStore (environment : Environment) (settings : Settings) (disk : Disk)
    (path : Option String) (command : StoreCommand) : Outcome :=
  let path := (path <|> settings.storePath).getD environment.storePath
  match disk.openStore path with
  | (disk, .error error) => .failed disk (.storeFile path error) []
  | (disk, .ok store) =>
      match store.database.migrate environment.time with
      | (migrated, journal, .error error) =>
          .failed ((disk.keepStore store migrated).closeStore store) (.store (.database error))
            journal
      | (migrated, journal, .ok ()) =>
          let changes := migrated != store.database
          if !store.writable && (command.writes || changes) then
            .failed (disk.closeStore store) (.readOnlyStore path) []
          else
            let opened := if changes then disk.keepStore store migrated else disk
            match command.run environment opened migrated with
            | .error error => .failed (opened.closeStore store) error journal
            | .ok outcome =>
                let changed :=
                  if command.writes then opened.keepStore store outcome.database else opened
                .finished (changed.closeStore store) outcome.output (journal ++ outcome.journal)

def Invocation.run (environment : Environment) (invocation : Invocation) (disk : Disk) : Outcome :=
  match settingsFor environment invocation.settingsPath disk with
  | .error error => .failed disk error []
  | .ok settings =>
      match invocation.command with
      | .build input format output failOn => runBuild settings disk input format output failOn
      | .scan input => runScan disk input
      | .store path command => runStore environment settings disk path command

def runArguments (environment : Environment) (arguments : List String) (disk : Disk) : Outcome :=
  match Invocation.ofArguments arguments with
  | .error error => .failed disk (.usage error) []
  | .ok invocation => invocation.run environment disk

end FeatureAtlas
