import FeatureAtlas.Proofs.CommandLine.ExitStatus
import FeatureAtlas.Proofs.Files.StoreKeeping
import FeatureAtlas.Proofs.Store.Shelf

/-!
Showing a snapshot prints what a build prints. Sessions use a store in a file in turn, and each of
them finds it as the one before has left it. What one of them saves is there until another one
deletes it, and it is printed as the model that was saved.
-/

namespace FeatureAtlas

/-! Commands on a store. -/

/-- A store that has not been migrated yet, or one with the documents of a shelf. -/
def Database.Shelved (database : Database) (shelf : Shelf) : Prop :=
  database = .empty ∧ shelf = [] ∨ ∃ ledger, database = .holding ledger ∧ ledger.Stocks shelf

theorem Database.Shelved.exists_migrate {database : Database} {shelf : Shelf}
    (shelved : database.Shelved shelf) (time : String) :
    ∃ ledger journal, database.migrate time = (.holding ledger, journal, .ok ()) ∧
      ledger.Stocks shelf := by
  rcases shelved with ⟨rfl, rfl⟩ | ⟨ledger, rfl, stocks⟩
  · obtain ⟨ledger, journal, migrated, stocks, _⟩ := exists_migrated_empty time
    exact ⟨ledger, journal, migrated, stocks⟩
  · exact ⟨ledger, [], migrate_stocked stocks time, stocks⟩

theorem Database.holding_ne_empty (ledger : Ledger) : holding ledger ≠ .empty := by
  intro same
  have tables := congrArg (fun database => database.tables.length) same
  cases tables

/-- What a command may do to a shelf: it takes out no document but the one that it deletes, and puts
in none but under the new identifier. -/
structure Shelf.Passes (before after : Shelf) (environment : Environment)
    (command : StoreCommand) : Prop where
  kept : ∀ {id deposit}, before.find id = some deposit → command ≠ .delete id →
    after.find id = some deposit
  absent : ∀ {id}, before.find id = none → id ≠ environment.freshId → after.find id = none

theorem Shelf.Passes.add (shelf : Shelf) {environment : Environment} {deposit : Deposit}
    (isNew : deposit.header.id = environment.freshId) (command : StoreCommand) :
    shelf.Passes (shelf ++ [deposit]) environment command where
  kept present _ := find_append_some present _
  absent absent different := find_append_none absent (isNew ▸ Ne.symm different)

theorem Shelf.Passes.delete (shelf : Shelf) (id : SnapshotId) (environment : Environment) :
    shelf.Passes (shelf.filter fun deposit => deposit.header.id != id) environment
      (.delete id) where
  kept present kept := (find_filter shelf fun same => kept (congrArg _ same.symm)).trans present
  absent absent _ := find_filter_none _ absent

namespace StoreCommand

def leaves (command : StoreCommand) (environment : Environment) (disk : Disk)
    (database : Database) : Database :=
  match command.run environment disk database with
  | .ok outcome => outcome.database
  | .error _ => database

variable {environment : Environment} {disk : Disk} {ledger : Ledger} {shelf : Shelf}
  {id : SnapshotId} {input : String} {scan : Scan}

def savedHeader (environment : Environment) (input : String) (label : Option String) :
    SnapshotHeader where
  id := environment.freshId
  createdAt := environment.time
  label := label.getD (defaultLabel input)
  source := some input

theorem exists_run_save (stocks : ledger.Stocks shelf) (scanned : scanFile disk input = .ok scan)
    (fresh : shelf.find environment.freshId = none) (label : Option String) :
    ∃ later journal, (save input label).run environment disk (.holding ledger) =
        .ok { database := .holding later, output := environment.freshId ++ "\n", journal } ∧
      later.Stocks (shelf ++
        [{ header := savedHeader environment input label, document := scan.build.document }]) := by
  obtain ⟨number, later, saved, _, grown⟩ := Database.exists_save_holding stocks
    (savedHeader environment input label) fresh scan.document_sound
  have stocked := stocks.add
    { header := savedHeader environment input label, document := scan.build.document }
    fresh scan.document_sound grown.cons
  refine ⟨later, scan.fullJournal ++ [(savedHeader environment input label).savedEvent], ?_,
    stocked⟩
  rw [savedHeader] at saved
  rw [run, scanned]
  simp only [bind, Except.bind, saved]
  rfl

theorem exists_run_save_ok (stocks : ledger.Stocks shelf) {label : Option String}
    {outcome : StoreOutcome}
    (saved : (save input label).run environment disk (.holding ledger) = .ok outcome) :
    ∃ scan, scanFile disk input = .ok scan ∧ shelf.find environment.freshId = none := by
  cases scanned : scanFile disk input with
  | error error =>
      rw [run, scanned] at saved
      cases saved
  | ok scan =>
      refine ⟨scan, rfl, Option.eq_none_iff_forall_ne_some.mpr fun other taken => ?_⟩
      have refused := Database.save_taken stocks (savedHeader environment input label) taken
        scan.build
      rw [savedHeader] at refused
      rw [run, scanned] at saved
      simp only [bind, Except.bind, refused] at saved
      cases saved

theorem run_list_database {outcome : StoreOutcome} {database : Database}
    (listed : list.run environment disk database = .ok outcome) : outcome.database = database := by
  rw [run] at listed
  cases snapshots : database.listSnapshots with
  | error error => simp [snapshots, Except.mapError, bind, Except.bind] at listed
  | ok found =>
      simp only [snapshots, Except.mapError, bind, Except.bind, pure, Except.pure,
        Except.ok.injEq] at listed
      rw [← listed]

theorem run_show_stocked (stocks : ledger.Stocks shelf) (id : SnapshotId) :
    (StoreCommand.show id).run environment disk (.holding ledger) =
      match shelf.find id with
      | none => .error (.unknownSnapshot id)
      | some deposit =>
          .ok { database := .holding ledger, output := deposit.document.write ++ "\n"
                journal := [] } := by
  rw [run, Database.loadDocument_holding stocks]
  cases shelf.find id <;> rfl

theorem run_delete_stocked (stocks : ledger.Stocks shelf) (id : SnapshotId) :
    (delete id).run environment disk (.holding ledger) =
      if (shelf.find id).isSome then
        .ok { database := .holding (ledger.without id), output := ""
              journal := [.info ("Deleted snapshot " ++ id)] }
      else .error (.unknownSnapshot id) := by
  rw [run, Database.deleteSnapshot_holding stocks]
  cases shelf.find id <;> rfl

theorem exists_leaves (stocks : ledger.Stocks shelf) (command : StoreCommand)
    (environment : Environment) (disk : Disk) :
    ∃ later after, command.leaves environment disk (.holding ledger) = .holding later ∧
      later.Stocks after ∧ shelf.Passes after environment command := by
  have unchanged : shelf.Passes shelf environment command :=
    ⟨fun present _ => present, fun absent _ => absent⟩
  rw [leaves]
  match command with
  | .save input label =>
      cases saved : (save input label).run environment disk (.holding ledger) with
      | error error => exact ⟨ledger, shelf, rfl, stocks, unchanged⟩
      | ok outcome =>
          obtain ⟨scan, scanned, fresh⟩ := exists_run_save_ok stocks saved
          obtain ⟨later, journal, ran, stocked⟩ := exists_run_save stocks scanned fresh label
          cases saved.symm.trans ran
          exact ⟨later, _, rfl, stocked, .add shelf rfl _⟩
  | .list =>
      cases listed : list.run environment disk (.holding ledger) with
      | error error => exact ⟨ledger, shelf, rfl, stocks, unchanged⟩
      | ok outcome => exact ⟨ledger, shelf, run_list_database listed, stocks, unchanged⟩
  | .show id =>
      refine ⟨ledger, shelf, ?_, stocks, unchanged⟩
      rw [run_show_stocked stocks]
      cases shelf.find id <;> rfl
  | .delete id =>
      rw [run_delete_stocked stocks]
      cases (shelf.find id).isSome with
      | true => exact ⟨ledger.without id, _, rfl, stocks.delete id, .delete shelf id environment⟩
      | false => exact ⟨ledger, shelf, rfl, stocks, unchanged⟩

theorem database_of_not_writes {command : StoreCommand} (stocks : ledger.Stocks shelf)
    {outcome : StoreOutcome} (reads : command.writes = false)
    (ran : command.run environment disk (.holding ledger) = .ok outcome) :
    outcome.database = .holding ledger := by
  match command with
  | .save _ _ | .delete _ => cases reads
  | .list => exact run_list_database ran
  | .show id =>
      rw [run_show_stocked stocks] at ran
      split at ran
      · cases ran
      · cases ran
        rfl

end StoreCommand

/-! Runs on a store in a file. -/

section Runs

variable {environment : Environment} {access : StoreAccess} {disk prepared : Disk}
  {database : Database} {shelf : Shelf}

/-- What is known of a run: it carries out its command on the migrated store, where every text is
read as before, and leaves the store at rest as the command has left it. -/
structure Outcome.CarriesOut (outcome : Outcome) (environment : Environment) (disk : Disk)
    (access : StoreAccess) (ledger : Ledger) (command : StoreCommand) (opened : Disk) : Prop where
  reads : ∀ {path text}, disk.readText path = .ok text → opened.readText path = .ok text
  rest : access.AtRest outcome.disk (command.leaves environment opened (.holding ledger))
  succeeds : ∀ {result}, command.run environment opened (.holding ledger) = .ok result →
    outcome.status = .success ∧ outcome.output = result.output
  fails : ∀ {error}, command.run environment opened (.holding ledger) = .error error →
    outcome.status = .fatal

theorem exists_runStore {settings : Settings} {path : Option String} {command : StoreCommand}
    (names : disk.Names ((path <|> settings.storePath).getD environment.storePath) access prepared)
    (lasting : access.Lasting) (rest : access.AtRest disk database)
    (shelved : database.Shelved shelf) :
    ∃ ledger opened, ledger.Stocks shelf ∧
      (runStore environment settings disk path command).CarriesOut environment disk access ledger
        command opened := by
  obtain ⟨ledger, journal, migrated, stocks⟩ := shelved.exists_migrate environment.time
  obtain ⟨opened, opens, inUse⟩ := StoreAccess.exists_openStore names lasting rest
  have keptInUse := inUse.keepChanges lasting (.holding ledger)
  set store := access.openedStore database
  have writable : store.writable = true := rfl
  have same : store.database = database := rfl
  generalize keeps : (if Database.holding ledger != database then
    opened.keepStore store (.holding ledger) else opened) = kept at keptInUse
  have refuses {error : RunError}
      (failed : command.run environment kept (.holding ledger) = .error error) :
      runStore environment settings disk path command =
        .failed (kept.closeStore store) error journal := by
    rw [runStore, opens]
    simp only [same, migrated, writable, keeps, failed, Bool.not_true, Bool.false_and,
      Bool.false_eq_true, if_false]
  have finishes {outcome : StoreOutcome}
      (succeeded : command.run environment kept (.holding ledger) = .ok outcome) :
      runStore environment settings disk path command =
        .finished ((if command.writes then kept.keepStore store outcome.database
          else kept).closeStore store) outcome.output (journal ++ outcome.journal) := by
    rw [runStore, opens]
    simp only [same, migrated, writable, keeps, succeeded, Bool.not_true, Bool.false_and,
      Bool.false_eq_true, if_false]
  refine ⟨ledger, kept, stocks, StoreAccess.readText_inUse names rest keptInUse, ?_, ?_, ?_⟩
  · obtain ⟨later, _, left, _, _⟩ := command.exists_leaves stocks environment kept
    rw [StoreCommand.leaves] at left ⊢
    cases result : command.run environment kept (.holding ledger) with
    | error error =>
        rw [refuses result]
        exact keptInUse.closeStore lasting database (Database.holding_ne_empty ledger)
    | ok outcome =>
        rw [finishes result]
        rw [result] at left
        have filled : outcome.database ≠ .empty :=
          fun empty => Database.holding_ne_empty later (left.symm.trans empty)
        cases writes : command.writes with
        | true => exact (keptInUse.keepStore lasting database _).closeStore lasting database filled
        | false =>
            have same := StoreCommand.database_of_not_writes stocks writes result
            rw [← same] at keptInUse
            exact keptInUse.closeStore lasting database filled
  · intro result succeeded
    rw [finishes succeeded]
    exact ⟨rfl, rfl⟩
  · intro error failed
    rw [refuses failed]
    rfl

end Runs

/-! Sessions. -/

structure Session where
  environment : Environment
  arguments : List String
  disk : Disk

namespace Session

def outcome (session : Session) : Outcome :=
  runArguments session.environment session.arguments session.disk

/-- A session asks a command of the store in a file. -/
def Asks (session : Session) (access : StoreAccess) (command : StoreCommand) : Prop :=
  ∃ settingsPath path settings prepared,
    Invocation.ofArguments session.arguments =
      .ok { settingsPath, command := .store path command } ∧
    settingsFor session.environment settingsPath session.disk = .ok settings ∧
    session.disk.Names ((path <|> settings.storePath).getD session.environment.storePath) access
      prepared

def Builds (session : Session) (text : String) : Prop :=
  ∃ settingsPath settings input failOn,
    Invocation.ofArguments session.arguments =
      .ok { settingsPath, command := .build input (some .json) none failOn } ∧
    settingsFor session.environment settingsPath session.disk = .ok settings ∧
    settings.output = none ∧ session.disk.readText (.ofText input) = .ok text

variable {session : Session} {access : StoreAccess} {command other : StoreCommand}
  {database : Database} {shelf : Shelf}

theorem Asks.command_unique (asks : session.Asks access command)
    (also : session.Asks access other) : command = other := by
  obtain ⟨_, _, _, _, given, _, _⟩ := asks
  obtain ⟨_, _, _, _, again, _, _⟩ := also
  have same := Except.ok.inj (given.symm.trans again)
  simp only [Invocation.mk.injEq, Command.store.injEq] at same
  exact same.2.2

theorem Asks.exists_carriesOut (asks : session.Asks access command) (lasting : access.Lasting)
    (rest : access.AtRest session.disk database) (shelved : database.Shelved shelf) :
    ∃ ledger opened, ledger.Stocks shelf ∧
      session.outcome.CarriesOut session.environment session.disk access ledger command opened := by
  obtain ⟨settingsPath, path, settings, prepared, given, configured, names⟩ := asks
  have ran : session.outcome = runStore session.environment settings session.disk path command := by
    rw [outcome, runArguments, given]
    dsimp only
    rw [Invocation.run, configured]
  rw [ran]
  exact exists_runStore names lasting rest shelved

theorem Asks.exists_atRest (asks : session.Asks access command) (lasting : access.Lasting)
    (rest : access.AtRest session.disk database) (shelved : database.Shelved shelf) :
    ∃ left after, access.AtRest session.outcome.disk left ∧ left.Shelved after ∧
      shelf.Passes after session.environment command := by
  obtain ⟨ledger, opened, stocks, carries⟩ := asks.exists_carriesOut lasting rest shelved
  obtain ⟨later, after, left, stocked, passes⟩ :=
    command.exists_leaves stocks session.environment opened
  exact ⟨_, after, carries.rest, .inr ⟨later, left, stocked⟩, passes⟩

section Asking

variable {input text : String} {label : Option String} {document : SourceDocument} {scan : Scan}

theorem Asks.save_succeeds (asks : session.Asks access (.save input label))
    (lasting : access.Lasting) (rest : access.AtRest session.disk database)
    (shelved : database.Shelved shelf)
    (readable : session.disk.readText (.ofText input) = .ok text)
    (decoded : SourceDocument.parse text = .ok document)
    (accepted : (SourceTree.ofDocument document).scan = .ok scan)
    (free : shelf.find session.environment.freshId = none) :
    session.outcome.status = .success := by
  obtain ⟨ledger, opened, stocks, carries⟩ := asks.exists_carriesOut lasting rest shelved
  have scanned := scanFile_ok (carries.reads readable) decoded accepted
  obtain ⟨_, _, saved, _⟩ := StoreCommand.exists_run_save stocks scanned free label
  exact (carries.succeeds saved).1

theorem Asks.exists_saved (asks : session.Asks access (.save input label))
    (lasting : access.Lasting) (rest : access.AtRest session.disk database)
    (shelved : database.Shelved shelf)
    (readable : session.disk.readText (.ofText input) = .ok text)
    (decoded : SourceDocument.parse text = .ok document)
    (accepted : (SourceTree.ofDocument document).scan = .ok scan)
    (succeeded : session.outcome.status = .success) :
    session.outcome.output = session.environment.freshId ++ "\n" ∧
      ∃ left after deposit, access.AtRest session.outcome.disk left ∧ left.Shelved after ∧
        after.find session.environment.freshId = some deposit ∧
          deposit.document = scan.build.document := by
  obtain ⟨ledger, opened, stocks, carries⟩ := asks.exists_carriesOut lasting rest shelved
  have scanned := scanFile_ok (carries.reads readable) decoded accepted
  cases result : (StoreCommand.save input label).run session.environment opened
      (.holding ledger) with
  | error error => cases succeeded.symm.trans (carries.fails result)
  | ok outcome =>
      obtain ⟨_, _, free⟩ := StoreCommand.exists_run_save_ok stocks result
      obtain ⟨later, journal, saved, stocked⟩ :=
        StoreCommand.exists_run_save stocks scanned free label
      have left : (StoreCommand.save input label).leaves session.environment opened
          (.holding ledger) = .holding later := by
        rw [StoreCommand.leaves, saved]
      exact ⟨(carries.succeeds saved).2, _, _, _, carries.rest, .inr ⟨later, left, stocked⟩,
        Shelf.find_append_new free, rfl⟩

theorem Asks.shows {id : SnapshotId} (asks : session.Asks access (.show id))
    (lasting : access.Lasting) (rest : access.AtRest session.disk database)
    (shelved : database.Shelved shelf) {deposit : Deposit}
    (present : shelf.find id = some deposit) :
    session.outcome.status = .success ∧
      session.outcome.output = deposit.document.write ++ "\n" := by
  obtain ⟨ledger, opened, stocks, carries⟩ := asks.exists_carriesOut lasting rest shelved
  have printed : (StoreCommand.show id).run session.environment opened (.holding ledger) = _ :=
    StoreCommand.run_show_stocked stocks id
  rw [present] at printed
  exact carries.succeeds printed

end Asking

theorem Builds.output_eq {text : String} {document : SourceDocument} {scan : Scan}
    (builds : session.Builds text) (decoded : SourceDocument.parse text = .ok document)
    (accepted : (SourceTree.ofDocument document).scan = .ok scan) :
    session.outcome.output = scan.build.document.write ++ "\n" := by
  obtain ⟨settingsPath, settings, input, failOn, given, configured, unset, readable⟩ := builds
  have ran : session.outcome = runBuild settings session.disk input (some .json) none failOn := by
    rw [outcome, runArguments, given]
    dsimp only
    rw [Invocation.run, configured]
  have unwritten : (none <|> settings.output) = none := by simp [unset]
  have built := runBuild_ok (scanFile_ok readable decoded accepted) (some .json) none failOn
    fun _ reached => absurd (unwritten.symm.trans reached) (by simp)
  rw [unset] at built
  rw [ran, built.1.1]
  simp [FeatureModel.exportText, FeatureModel.exportParts, String.join]

end Session

/-- Sessions that use one store in turn. The first finds the files of the store as they are on a
disk, and each other one finds them as the one before has left them. Elsewhere the disk may have
changed. -/
def StoreAccess.InTurn (access : StoreAccess) (disk : Disk) : List Session → Prop
  | [] => True
  | session :: rest =>
      (∀ place ∈ access.ownPlaces, session.disk.entry? place = disk.entry? place) ∧
        (∃ command, session.Asks access command) ∧ access.InTurn session.outcome.disk rest

section Turns

variable {access : StoreAccess} {start : Disk} {database : Database} {shelf : Shelf}

theorem exists_after_sessions {sessions rest : List Session} (lasting : access.Lasting)
    (inTurn : access.InTurn start (sessions ++ rest)) (atRest : access.AtRest start database)
    (shelved : database.Shelved shelf) :
    ∃ later left after, access.InTurn later rest ∧ access.AtRest later left ∧
      left.Shelved after ∧
      (∀ id deposit, shelf.find id = some deposit →
        (∀ session ∈ sessions, ¬session.Asks access (.delete id)) →
          after.find id = some deposit) ∧
      ∀ id, shelf.find id = none →
        (∀ session ∈ sessions, id ≠ session.environment.freshId) → after.find id = none := by
  induction sessions generalizing start database shelf with
  | nil =>
      exact ⟨start, database, shelf, inTurn, atRest, shelved, fun _ _ present _ => present,
        fun _ absent _ => absent⟩
  | cons session sessions ih =>
      obtain ⟨same, ⟨command, asks⟩, inTurn⟩ := inTurn
      obtain ⟨left, between, leftAtRest, leftShelved, passes⟩ :=
        asks.exists_atRest lasting (atRest.of_same same) shelved
      obtain ⟨later, last, after, others, lastAtRest, lastShelved, kept, absent⟩ :=
        ih inTurn leftAtRest leftShelved
      refine ⟨later, last, after, others, lastAtRest, lastShelved, ?_, ?_⟩
      · intro id deposit present undeleted
        have here : command ≠ .delete id := by
          rintro rfl
          exact undeleted session List.mem_cons_self asks
        exact kept id deposit (passes.kept present here)
          fun other member => undeleted other (List.mem_cons_of_mem _ member)
      · intro id missing different
        exact absent id (passes.absent missing (different session List.mem_cons_self))
          fun other member => different other (List.mem_cons_of_mem _ member)

end Turns

/-- A document that can be read is saved under an identifier that is not taken yet. Whatever is
asked of the store from then on, as long as nobody asks to delete the snapshot, it is shown as
exactly the text that a build of the document prints as JSON. -/
theorem snapshot_shown_as_built {access : StoreAccess} (lasting : access.Lasting) {start : Disk}
    (absent : ∀ place ∈ access.ownPlaces, start.entry? place = none)
    {before between : List Session} {saving showing building : Session}
    (inTurn : access.InTurn start (before ++ saving :: (between ++ [showing])))
    {input text : String} {label : Option String} {document : SourceDocument}
    (saves : saving.Asks access (.save input label))
    (readable : saving.disk.readText (.ofText input) = .ok text)
    (decoded : SourceDocument.parse text = .ok document)
    (shows : showing.Asks access (.show saving.environment.freshId))
    (undeleted : ∀ session ∈ between,
      ¬session.Asks access (.delete saving.environment.freshId))
    (builds : building.Builds text) :
    ((∀ session ∈ before, session.environment.freshId ≠ saving.environment.freshId) →
        saving.outcome.status = .success) ∧
      (saving.outcome.status = .success →
        saving.outcome.output = saving.environment.freshId ++ "\n" ∧
          showing.outcome.status = .success ∧
            showing.outcome.output = building.outcome.output) := by
  have accepted := SourceTree.scan_ofOutlines document.roots
  have atRest : access.AtRest start .empty := by
    refine ⟨.inr ⟨rfl, absent _ List.mem_cons_self⟩, fun ending isEnding place isBeside => ?_⟩
    exact absent place (StoreAccess.mem_ownPlaces_of_beside isEnding isBeside)
  obtain ⟨met, database, shelf, ⟨same, _, inTurn⟩, metAtRest, shelved, _, unused⟩ :=
    exists_after_sessions lasting inTurn atRest (.inl ⟨rfl, rfl⟩)
  have savingAtRest := metAtRest.of_same same
  constructor
  · intro fresh
    exact saves.save_succeeds lasting savingAtRest shelved readable decoded accepted
      (unused _ rfl fun session member => (fresh session member).symm)
  · intro succeeded
    obtain ⟨output, left, after, deposit, leftAtRest, leftShelved, present, isDocument⟩ :=
      saves.exists_saved lasting savingAtRest shelved readable decoded accepted succeeded
    obtain ⟨last, database, shelf, ⟨same, _⟩, lastAtRest, shelved, kept, _⟩ :=
      exists_after_sessions lasting inTurn leftAtRest leftShelved
    obtain ⟨status, shown⟩ :=
      shows.shows lasting (lastAtRest.of_same same) shelved (kept _ _ present undeleted)
    refine ⟨output, status, ?_⟩
    rw [shown, isDocument, builds.output_eq decoded accepted]

/-! A store at the top of a disk. -/

def topAccess : StoreAccess where
  place := ["models.db"]
  mode := .creating
  use := .shared
  isFixed := false
  withoutLocks := false
  keepsIndex := false
  likeFile := none

theorem topAccess_lasting : topAccess.Lasting := by
  refine ⟨rfl, rfl, fun _ _ => rfl, fun ending isEnding => ?_⟩
  have named : ∀ ending ∈ StoreAccess.endings, (topAccess.beside? ending).isSome = true := by
    decide +kernel
  exact Option.isSome_iff_exists.mp (named ending isEnding)

theorem topAccess_ownPlaces : topAccess.ownPlaces =
    [["models.db"], ["models.db-journal"], ["models.db-wal"], ["models.db-shm"],
      ["models.db.lock"]] := by decide +kernel

theorem names_topAccess (disk : Disk) : disk.Names "/models.db" topAccess disk where
  made := ⟨{ segments := [] }, by decide +kernel, rfl⟩
  plain := by simp
  site := by
    have address : Address.ofText? "/models.db" =
        some { name := "/models.db", parameters := [] } := by decide +kernel
    have place : disk.storePlace? "/models.db" = some ["models.db"] := by
      have names : (Path.ofText "/models.db").names = ["models.db"] := by decide +kernel
      have fromTop : (Path.ofText "/models.db").fromTop = true := by decide +kernel
      rw [Disk.storePlace?, Disk.startOf, names, fromTop]
      rfl
    rw [address, Option.bind_some, Address.site?]
    dsimp only
    rw [place]
    rfl
  liked := rfl
  holder := rfl
  apart _ _ := rfl

def deskEnvironment : Environment where
  settingsPath := ""
  storePath := "/models.db"
  freshId := "6fa459ea-ee8a-4ca4-894e-db77e160355e"
  time := "2024-01-01T10:00:00+00:00"

def deskSession (arguments : List String) (disk : Disk) : Session :=
  { environment := deskEnvironment, arguments, disk }

theorem deskSession_asks {arguments : List String} {command : StoreCommand}
    (given : Invocation.ofArguments arguments =
      .ok { settingsPath := none, command := .store none command }) (disk : Disk) :
    (deskSession arguments disk).Asks topAccess command :=
  ⟨none, none, {}, disk, given, rfl, names_topAccess disk⟩

theorem stall_shown_as_built :
    let saving := deskSession ["store", "save", "-i", "stall.json"] (stallDisk stallDocument.write)
    let listing := deskSession ["store", "list"] saving.outcome.disk
    let showing := deskSession ["store", "show", deskEnvironment.freshId] listing.outcome.disk
    let building := deskSession ["build", "--format", "json", "-i", "stall.json"]
      (stallDisk stallDocument.write)
    saving.outcome.output = deskEnvironment.freshId ++ "\n" ∧
      showing.outcome.status = .success ∧ showing.outcome.output = building.outcome.output := by
  intro saving listing showing building
  have saves : saving.Asks topAccess (.save "stall.json" none) :=
    deskSession_asks (by decide +kernel) _
  have lists : listing.Asks topAccess .list := deskSession_asks (by decide +kernel) _
  have shows : showing.Asks topAccess (.show deskEnvironment.freshId) :=
    deskSession_asks (by decide +kernel) _
  have absent : ∀ place ∈ topAccess.ownPlaces,
      Disk.entry? (stallDisk stallDocument.write) place = none := by
    intro place own
    simp only [topAccess_ownPlaces, List.mem_cons, List.not_mem_nil, or_false] at own
    rcases own with rfl | rfl | rfl | rfl | rfl <;> rfl
  have readable : (stallDisk stallDocument.write).readText (.ofText "stall.json") =
      .ok stallDocument.write := by
    have located : (stallDisk stallDocument.write).locate (.ofText "stall.json") =
        .ok ["stall.json"] := Disk.locate_single _ (by decide +kernel)
    exact Disk.readText_eq_ok_iff.mpr ⟨_, located, rfl, by decide +kernel⟩
  have decoded : SourceDocument.parse stallDocument.write = .ok stallDocument := by
    rw [SourceDocument.parse_write_eq]
    exact if_pos (by decide)
  have builds : building.Builds stallDocument.write :=
    ⟨none, {}, "stall.json", none, by decide +kernel, rfl, rfl, readable⟩
  have inTurn : topAccess.InTurn (stallDisk stallDocument.write)
      ([] ++ saving :: ([listing] ++ [showing])) :=
    ⟨fun _ _ => rfl, ⟨_, saves⟩, fun _ _ => rfl, ⟨_, lists⟩, fun _ _ => rfl, ⟨_, shows⟩, trivial⟩
  have undeleted : ∀ session ∈ [listing],
      ¬session.Asks topAccess (.delete deskEnvironment.freshId) := by
    intro session member deletes
    rw [List.mem_singleton.mp member] at deletes
    cases deletes.command_unique lists
  obtain ⟨succeeds, shown⟩ := snapshot_shown_as_built topAccess_lasting absent inTurn saves readable
    decoded shows undeleted builds
  exact shown (succeeds (by simp))

end FeatureAtlas
