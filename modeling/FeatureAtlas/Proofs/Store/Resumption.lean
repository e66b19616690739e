import FeatureAtlas.Proofs.Store.DocumentRows
import FeatureAtlas.Proofs.Store.Migrations

/-!
Migrating a database again after runs that were stopped. A further run completes what they left and
keeps what was saved. Only a run that adds the column of the second migration and is stopped before
the log says so leaves a database that no later run can migrate: the column cannot be added twice.

What is said of a run or a save is said of one with a handle of its own, as a program has when it is
started again. A handle on which a migration has failed stays inside the transaction of that
migration, and no later call on it gets past `BEGIN`.
-/

namespace FeatureAtlas

/-- What happens to a database before a further run: runs that are stopped after so many of their
steps, and saves, each with a fresh handle. -/
inductive Upkeep where
  | migrate (time : String) (steps : Nat)
  | save (header : SnapshotHeader) (model : FeatureModel) (failing : Option Nat)

theorem ModelDocument.insertions_unlogged (document : ModelDocument) (snapshot : Snapshot)
    {row : String × Row} (member : .ok row ∈ document.insertions snapshot) :
    row.1 ≠ "schema_migrations" := by
  simp only [insertions, NodeRecord.insertions, NodeRecord.memberRows, NodeRecord.edgeInsertions,
    List.cons_append, List.mem_cons, List.mem_append, List.mem_flatMap, List.mem_map,
    Except.ok.injEq] at member
  rcases member with rfl | (⟨_, _, rfl | ⟨_, ⟨_, _, rfl⟩, rfl⟩ | ⟨edge, _, made⟩⟩ | ⟨_, _, rfl⟩) |
    ⟨_, _, rfl⟩
  · simp
  · simp
  · simp
  · split at made
    · rw [← Except.ok.inj made]
      simp
    · cases made
  · simp [FeatureRecord.row]
  · simp [DiagnosticRecord.row]

namespace Database

def migrateUpTo (database : Database) (time : String) (count : Nat) : Database :=
  match database.migrationPlan with
  | .ok steps => (database.performAll time (steps.take count)).1
  | .error _ => database

def undergo (database : Database) : Upkeep → Database
  | .migrate time steps => database.migrateUpTo time steps
  | .save header model failing => (database.save header model failing).1

def undergoAll (database : Database) (history : List Upkeep) : Database :=
  history.foldl undergo database

def layout (database : Database) : List (String × Table) :=
  database.tables.map fun (name, table) => (name, { table with rows := [] })

def rowsOf (database : Database) (name : String) : List Row :=
  ((database.tables.lookup name).map Table.rows).getD []

/-- The second migration has been applied, but the log does not list it. -/
def HasUnrecordedColumn (database : Database) : Prop :=
  (∃ table, database.table "snapshots" = .ok table ∧ (table.column? "source").isSome = true) ∧
    ∃ versions, database.appliedVersions = .ok versions ∧
      Migration.snapshotSource.version ∉ versions

variable {database : Database} {ledger : Ledger} {time : String}

theorem lookup_mem {β : Type} {entries : List (String × β)} {name : String} {value : β}
    (found : entries.lookup name = some value) : (name, value) ∈ entries := by
  obtain ⟨before, after, rfl, _⟩ := List.lookup_eq_some_iff.mp found
  simp

theorem rowsOf_logged (entries : List (Int × Row)) {tables : List (String × Table)}
    (unfilled : ∀ table ∈ tables, table.2.rows = []) {name : String}
    (other : name ≠ "schema_migrations") : (logged entries tables).rowsOf name = [] := by
  have elsewhere : (name == "schema_migrations") = false := beq_eq_false_iff_ne.mpr other
  rw [rowsOf, logged, List.lookup_cons, elsewhere]
  cases found : tables.lookup name with
  | none => rfl
  | some table => simpa [found] using unfilled (name, table) (lookup_mem found)

/-! Steps that may be stopped anywhere. -/

def Stops (kind : Database → Prop) (time : String) (database : Database)
    (steps : List MigrationStep) : Prop :=
  ∀ count, kind (database.performAll time (steps.take count)).1

namespace Stops

variable {kind : Database → Prop} {step : MigrationStep} {rest : List MigrationStep}

theorem nil (here : kind database) : Stops kind time database [] := by
  intro count
  rw [List.take_nil]
  exact here

theorem cons {changed : Database} (here : kind database)
    (performed : step.perform database time = .ok changed)
    (stops : Stops kind time changed rest) : Stops kind time database (step :: rest) := by
  intro count
  cases count with
  | zero => exact here
  | succ count =>
      rw [List.take_succ_cons, performAll, performed]
      exact stops count

theorem failing {error : DatabaseError} (here : kind database)
    (refused : step.perform database time = .error error) :
    Stops kind time database (step :: rest) := by
  intro count
  cases count with
  | zero => exact here
  | succ count =>
      rw [List.take_succ_cons, performAll, refused]
      exact here

theorem migrateUpTo {steps : List MigrationStep} (stops : Stops kind time database steps)
    (plan : database.migrationPlan = .ok steps) (count : Nat) :
    kind (database.migrateUpTo time count) := by
  rw [Database.migrateUpTo, plan]
  exact stops count

end Stops

/-! Databases that have all tables. -/

def Logs (applied : List (Migration × String)) (database : Database) : Prop :=
  ∃ ledger : Ledger, database = holding ledger ∧
    (ledger "schema_migrations").map Prod.snd = applied.map fun entry => entry.1.logRow entry.2

namespace Logs

variable {applied : List (Migration × String)}

theorem appliedVersions (logs : Logs applied database) :
    database.appliedVersions = .ok (applied.map fun entry => entry.1.version) := by
  obtain ⟨ledger, rfl, lists⟩ := logs
  exact appliedVersions_holding lists

theorem layout (logs : Logs applied database) : database.layout = Schema.migrated := by
  obtain ⟨ledger, rfl, _⟩ := logs
  rfl

theorem createLog (logs : Logs applied database) (time : String) :
    MigrationStep.createLog.perform database time = .ok database := by
  obtain ⟨ledger, rfl, _⟩ := logs
  exact createLog_holding ledger time

theorem snapshots (logs : Logs applied database) :
    ∃ table, database.table "snapshots" = .ok table ∧ (table.column? "source").isSome = true := by
  obtain ⟨ledger, rfl, _⟩ := logs
  refine ⟨_, table_holding ledger Schema.snapshots_mem, ?_⟩
  have known : (Schema.migratedSnapshots.column? "source").isSome = true := by decide +kernel
  exact known

theorem applySource (logs : Logs applied database) (time : String) :
    (MigrationStep.apply .snapshotSource).perform database time = .error .columnExists := by
  obtain ⟨table, found, known⟩ := logs.snapshots
  have name : (Column.optionalText "source").name = "source" := rfl
  have refused : table.addColumn (.optionalText "source") = .error .columnExists := by
    rw [Table.addColumn, name, if_pos known]
  rw [MigrationStep.perform, Migration.apply, bind_ok found, refused]
  rfl

end Logs

/-! Saves. -/

theorem exists_of_bind {ε α β : Type} {first : Except ε α} {rest : α → Except ε β} {result : β}
    (bound : first >>= rest = .ok result) :
    ∃ value, first = .ok value ∧ rest value = .ok result := by
  cases first with
  | error error => cases bound
  | ok value => exact ⟨value, rfl, bound⟩

theorem rows_of_insert {table changed : Table} {given : Row}
    (inserted : table.insert given = .ok changed) :
    changed = { table with rows := table.rows ++ [table.fill given] } := by
  rw [Table.insert] at inserted
  obtain ⟨_, _, inserted⟩ := exists_of_bind inserted
  simp only at inserted
  split at inserted
  · cases inserted
  · split at inserted
    · cases inserted
    · exact (Except.ok.inj inserted).symm

theorem exists_of_insert {name : String} {given : Row} {changed : Database}
    (inserted : database.insert name given = .ok changed) :
    ∃ table, database.table name = .ok table ∧
      changed = database.setTable name { table with rows := table.rows ++ [table.fill given] } := by
  rw [insert] at inserted
  obtain ⟨table, found, inserted⟩ := exists_of_bind inserted
  obtain ⟨later, taken, inserted⟩ := exists_of_bind inserted
  refine ⟨table, found, ?_⟩
  rw [← rows_of_insert taken]
  split at inserted
  · exact (Except.ok.inj inserted).symm
  · cases inserted

theorem exists_of_table_holding {name : String} {table : Table}
    (found : (holding ledger).table name = .ok table) :
    ∃ schema, (name, schema) ∈ Schema.migrated ∧ table = schema.holding (ledger name) := by
  rw [Database.table] at found
  split at found
  · rename_i same known
    cases found
    obtain ⟨entry, member, equal⟩ := List.mem_map.mp (lookup_mem known)
    cases equal
    exact ⟨entry.2, member, rfl⟩
  · cases found

theorem Logs.insert {applied : List (Migration × String)} {name : String} {given : Row}
    {changed : Database} (logs : Logs applied database) (other : name ≠ "schema_migrations")
    (inserted : database.insert name given = .ok changed) : Logs applied changed := by
  obtain ⟨ledger, rfl, lists⟩ := logs
  obtain ⟨table, found, rfl⟩ := exists_of_insert inserted
  obtain ⟨schema, member, rfl⟩ := exists_of_table_holding found
  let entries := ledger name ++ [((schema.holding (ledger name)).nextNumber, given)]
  have grown : { schema.holding (ledger name) with
      rows := (schema.holding (ledger name)).rows ++ [(schema.holding (ledger name)).fill given] } =
        schema.holding entries := by
    simp [entries, Table.holding, Table.fill, Table.numbered]
  refine ⟨ledger.set name entries, ?_, ?_⟩
  · rw [grown, setTable_holding ledger member]
  · rw [Ledger.set_other _ other.symm, lists]

theorem Logs.insertAll {applied : List (Migration × String)} {insertions : List Insertion}
    {failing : Option Nat} {changed : Database} (logs : Logs applied database)
    (others : ∀ row, .ok row ∈ insertions → row.1 ≠ "schema_migrations")
    (inserted : database.insertAll failing insertions = .ok changed) : Logs applied changed := by
  induction insertions generalizing database failing with
  | nil => exact Except.ok.inj inserted ▸ logs
  | cons insertion rest ih =>
      cases insertion with
      | error error => cases inserted
      | ok row =>
          rw [Database.insertAll] at inserted
          split at inserted
          · cases inserted
          · obtain ⟨next, first, later⟩ := exists_of_bind inserted
            exact ih (logs.insert (others row (by simp)) first)
              (fun row member => others row (by simp [member])) later

theorem Logs.save {applied : List (Migration × String)} (logs : Logs applied database)
    (header : SnapshotHeader) (model : FeatureModel) (failing : Option Nat) :
    Logs applied (database.save header model failing).1 := by
  rw [Database.save]
  simp only [transact]
  cases inserted : database.insertAll failing
      (model.document.insertions (header.snapshot model.document)) with
  | ok changed => exact logs.insertAll (fun _ => ModelDocument.insertions_unlogged _ _) inserted
  | error error => exact logs

/-! The stages of a migration. -/

/-- The databases that a run leaves before it has added the column for the source of a snapshot. -/
inductive Early : Database → Prop
  | untouched : Early empty
  | logCreated : Early (logged [] [])
  | initialApplied : Early (logged [] Schema.tables)
  | initialRecorded (number : Int) (time : String) :
      Early (logged [(number, Migration.initial.logRow time)] Schema.tables)

inductive Underway : Database → Prop
  | early {database : Database} (early : Early database) : Underway database
  | unrecorded {database : Database} {time : String}
      (logs : Logs [(.initial, time)] database) : Underway database
  | recorded {database : Database} {time later : String}
      (logs : Logs [(.initial, time), (.snapshotSource, later)] database) : Underway database

theorem Early.rowsOf (early : Early database) {name : String}
    (other : name ≠ "schema_migrations") : database.rowsOf name = [] := by
  have unfilled : ∀ table ∈ Schema.tables, table.2.rows = [] := by decide
  cases early with
  | untouched => rfl
  | logCreated => exact rowsOf_logged [] (by simp) other
  | initialApplied => exact rowsOf_logged [] unfilled other
  | initialRecorded number time => exact rowsOf_logged _ unfilled other

theorem Early.insert (early : Early database) (snapshot : Snapshot) :
    ∃ error, database.insert "snapshots" snapshot.row = .error error := by
  have unknown : Schema.snapshots.requireColumns ["id", "label", "source", "node_count",
      "diagnostic_count", "created_at"] = .error .noSuchColumn := by decide +kernel
  have refused (entries : List (Int × Row)) :
      (logged entries Schema.tables).insert "snapshots" snapshot.row = .error .noSuchColumn := by
    have table : (logged entries Schema.tables).table "snapshots" = .ok Schema.snapshots := rfl
    have columns : snapshot.row.map Prod.fst = ["id", "label", "source", "node_count",
      "diagnostic_count", "created_at"] := rfl
    rw [Database.insert, bind_ok table, Table.insert, columns, unknown]
    rfl
  cases early with
  | untouched => exact ⟨.noSuchTable, rfl⟩
  | logCreated => exact ⟨.noSuchTable, rfl⟩
  | initialApplied => exact ⟨_, refused []⟩
  | initialRecorded number time => exact ⟨_, refused _⟩

theorem Early.save (early : Early database) (header : SnapshotHeader) (model : FeatureModel)
    (failing : Option Nat) : (database.save header model failing).1 = database := by
  obtain ⟨error, refused⟩ := early.insert (header.snapshot model.document)
  have failed : ∃ error, database.insertAll failing
      (model.document.insertions (header.snapshot model.document)) = .error error := by
    rw [ModelDocument.insertions, List.cons_append, List.cons_append, Database.insertAll]
    split
    · exact ⟨_, rfl⟩
    · rw [refused]
      exact ⟨error, rfl⟩
  obtain ⟨_, failed⟩ := failed
  rw [Database.save]
  simp only [transact, failed]

theorem Early.not_hasUnrecordedColumn (early : Early database) : ¬database.HasUnrecordedColumn := by
  have unknown : (Schema.snapshots.column? "source").isSome = false := by decide +kernel
  have absent (entries : List (Int × Row)) :
      ¬(logged entries Schema.tables).HasUnrecordedColumn := by
    rintro ⟨⟨table, found, known⟩, _⟩
    cases found
    exact absurd (unknown.symm.trans known) (by decide)
  cases early with
  | untouched => rintro ⟨⟨_, found, _⟩, _⟩; cases found
  | logCreated => rintro ⟨⟨_, found, _⟩, _⟩; cases found
  | initialApplied => exact absent []
  | initialRecorded number time => exact absent _

/-- The steps complete a migration, and wherever they are stopped they leave one of its stages. -/
structure Completes (time : String) (database : Database) (steps : List MigrationStep) : Prop where
  stops : Stops Underway time database steps
  ends : ∃ final journal migratedAt later,
    database.performAll time steps = (final, journal, .ok ()) ∧
    Logs [(.initial, migratedAt), (.snapshotSource, later)] final ∧
    ∀ name, name ≠ "schema_migrations" → final.rowsOf name = []

theorem Completes.cons {changed : Database} {step : MigrationStep} {rest : List MigrationStep}
    (underway : Underway database) (performed : step.perform database time = .ok changed)
    (completes : Completes time changed rest) : Completes time database (step :: rest) := by
  obtain ⟨stops, final, journal, migratedAt, later, done, logs, unfilled⟩ := completes
  refine ⟨.cons underway performed stops, final, step.announcement ++ step.confirmation ++ journal,
    migratedAt, later, ?_, logs, unfilled⟩
  rw [performAll, performed]
  simp only [done]

theorem logs_stored {entries : List (Int × Row)} {applied : List (Migration × String)}
    (lists : entries.map Prod.snd = applied.map fun entry => entry.1.logRow entry.2) :
    Logs applied (logged entries Schema.stored) :=
  ⟨Ledger.set (fun _ => []) "schema_migrations" entries, rfl, lists⟩

section Steps

variable (number : Int) (migratedAt time : String)

theorem completes_recordSource :
    Completes time (logged [(number, Migration.initial.logRow migratedAt)] Schema.stored)
      [.record .snapshotSource] := by
  obtain ⟨other, recorded⟩ := record_logged [(number, Migration.initial.logRow migratedAt)]
    Schema.stored (by decide) .snapshotSource time (by
      intro entry member
      rw [List.mem_singleton.mp member]
      exact Schema.log_apart (by decide) migratedAt time)
  have before : Logs [(.initial, migratedAt)]
    (logged [(number, Migration.initial.logRow migratedAt)] Schema.stored) := logs_stored rfl
  have after : Logs [(.initial, migratedAt), (.snapshotSource, time)]
    (logged ([(number, Migration.initial.logRow migratedAt)] ++
      [(other, Migration.snapshotSource.logRow time)]) Schema.stored) := logs_stored rfl
  have unfilled : ∀ table ∈ Schema.stored, table.2.rows = [] := by decide
  refine .cons (.unrecorded before) recorded ⟨.nil (.recorded after), ?_⟩
  exact ⟨_, [], migratedAt, time, rfl, after, fun name => rowsOf_logged _ unfilled⟩

theorem completes_applySource :
    Completes time (logged [(number, Migration.initial.logRow migratedAt)] Schema.tables)
      [.apply .snapshotSource, .record .snapshotSource] :=
  .cons (.early (.initialRecorded number migratedAt)) (snapshotSource_logged _ time)
    (completes_recordSource number migratedAt time)

theorem completes_recordInitial :
    Completes time (logged [] Schema.tables)
      [.record .initial, .apply .snapshotSource, .record .snapshotSource] := by
  obtain ⟨number, recorded⟩ :=
    record_logged [] Schema.tables (by decide) .initial time (by simp)
  exact .cons (.early .initialApplied) recorded (completes_applySource number time time)

end Steps

theorem Early.exists_plan (early : Early database) (time : String) :
    ∃ steps, database.migrationPlan = .ok steps ∧ Completes time database steps := by
  -- the first migration leaves the tables alone that are there already
  have repeated : Completes time (logged [] Schema.tables) [.createLog, .apply .initial,
      .record .initial, .apply .snapshotSource, .record .snapshotSource] :=
    .cons (.early .initialApplied) rfl
      (.cons (.early .initialApplied) rfl (completes_recordInitial time))
  have fresh : Completes time (logged [] []) [.apply .initial, .record .initial,
      .apply .snapshotSource, .record .snapshotSource] :=
    .cons (.early .logCreated) rfl (completes_recordInitial time)
  cases early with
  | untouched => exact ⟨_, rfl, .cons (.early .untouched) rfl fresh⟩
  | logCreated => exact ⟨_, rfl, .cons (.early .logCreated) rfl fresh⟩
  | initialApplied => exact ⟨_, rfl, repeated⟩
  | initialRecorded number migratedAt =>
      have lists : [(number, Migration.initial.logRow migratedAt)].map Prod.snd =
          [(Migration.initial, migratedAt)].map fun entry => entry.1.logRow entry.2 := rfl
      have versions := appliedVersions_logged lists Schema.tables
      refine ⟨[.createLog, .apply .snapshotSource, .record .snapshotSource], ?_,
        .cons (.early (.initialRecorded number migratedAt)) rfl
          (completes_applySource number migratedAt time)⟩
      rw [migrationPlan, versions]
      rfl

/-! Runs over databases that have all tables. -/

namespace Logs

theorem plan_unrecorded {migratedAt : String} (logs : Logs [(.initial, migratedAt)] database) :
    database.migrationPlan =
      .ok [.createLog, .apply .snapshotSource, .record .snapshotSource] := by
  rw [migrationPlan, logs.appliedVersions]
  rfl

theorem plan_recorded {migratedAt later : String}
    (logs : Logs [(.initial, migratedAt), (.snapshotSource, later)] database) :
    database.migrationPlan = .ok [.createLog] := by
  rw [migrationPlan, logs.appliedVersions]
  rfl

theorem migrate_unrecorded {migratedAt : String} (logs : Logs [(.initial, migratedAt)] database)
    (time : String) :
    ∃ journal, database.migrate time = (database, journal, .error .columnExists) := by
  rw [migrate, logs.plan_unrecorded]
  simp only [performAll, logs.createLog, logs.applySource]
  exact ⟨_, rfl⟩

theorem migrate_recorded {migratedAt later : String}
    (logs : Logs [(.initial, migratedAt), (.snapshotSource, later)] database) (time : String) :
    ∃ journal, database.migrate time = (database, journal, .ok ()) := by
  rw [migrate, logs.plan_recorded]
  simp only [performAll, logs.createLog]
  exact ⟨_, rfl⟩

theorem migrateUpTo_unrecorded {migratedAt : String}
    (logs : Logs [(.initial, migratedAt)] database) (time : String) (count : Nat) :
    Logs [(.initial, migratedAt)] (database.migrateUpTo time count) :=
  Stops.migrateUpTo (.cons logs (logs.createLog time) (.failing logs (logs.applySource time)))
    logs.plan_unrecorded count

theorem undergo_unrecorded {migratedAt : String} (logs : Logs [(.initial, migratedAt)] database)
    (event : Upkeep) : Logs [(.initial, migratedAt)] (database.undergo event) := by
  cases event with
  | migrate time steps => exact logs.migrateUpTo_unrecorded time steps
  | save header model failing => exact logs.save header model failing

theorem hasUnrecordedColumn {migratedAt : String} (logs : Logs [(.initial, migratedAt)] database) :
    database.HasUnrecordedColumn :=
  ⟨logs.snapshots, _, logs.appliedVersions, by simp [Migration.version]⟩

theorem not_hasUnrecordedColumn {migratedAt later : String}
    (logs : Logs [(.initial, migratedAt), (.snapshotSource, later)] database) :
    ¬database.HasUnrecordedColumn := by
  rintro ⟨_, versions, read, missing⟩
  cases logs.appliedVersions.symm.trans read
  exact missing (by simp)

end Logs

/-! Any history. -/

theorem Underway.migrateUpTo (underway : Underway database) (time : String) (count : Nat) :
    Underway (database.migrateUpTo time count) := by
  cases underway with
  | early early =>
      obtain ⟨steps, plan, completes⟩ := early.exists_plan time
      exact completes.stops.migrateUpTo plan count
  | unrecorded logs => exact .unrecorded (logs.migrateUpTo_unrecorded time count)
  | recorded logs =>
      have stops : Stops Underway time database [.createLog] :=
        .cons (.recorded logs) (logs.createLog time) (.nil (.recorded logs))
      exact stops.migrateUpTo logs.plan_recorded count

theorem Underway.undergo (underway : Underway database) (event : Upkeep) :
    Underway (database.undergo event) := by
  cases event with
  | migrate time steps => exact underway.migrateUpTo time steps
  | save header model failing =>
      cases underway with
      | early early =>
          rw [Database.undergo, early.save header model failing]
          exact .early early
      | unrecorded logs => exact .unrecorded (logs.save header model failing)
      | recorded logs => exact .recorded (logs.save header model failing)

theorem undergoAll_induction {kind : Database → Prop}
    (step : ∀ database event, kind database → kind (database.undergo event))
    (start : kind database) (history : List Upkeep) : kind (database.undergoAll history) := by
  induction history generalizing database with
  | nil => exact start
  | cons event history ih => exact ih (step database event start)

theorem underway_undergoAll (history : List Upkeep) : Underway (empty.undergoAll history) :=
  undergoAll_induction (fun _ event underway => underway.undergo event) (.early .untouched) history

theorem Underway.exists_migrate (underway : Underway database)
    (noted : ¬database.HasUnrecordedColumn) (time : String) :
    ∃ final journal migratedAt later, database.migrate time = (final, journal, .ok ()) ∧
      Logs [(.initial, migratedAt), (.snapshotSource, later)] final ∧
      ∀ name, name ≠ "schema_migrations" → final.rowsOf name = database.rowsOf name := by
  cases underway with
  | early early =>
      obtain ⟨steps, plan, completes⟩ := early.exists_plan time
      obtain ⟨final, journal, migratedAt, later, done, logs, unfilled⟩ := completes.ends
      refine ⟨final, journal, migratedAt, later, ?_, logs, fun name other => ?_⟩
      · rw [migrate, plan]
        exact done
      · rw [unfilled name other, early.rowsOf other]
  | unrecorded logs => exact absurd logs.hasUnrecordedColumn noted
  | @recorded migratedAt later logs =>
      obtain ⟨journal, done⟩ := logs.migrate_recorded time
      exact ⟨database, journal, migratedAt, later, done, logs, fun _ _ => rfl⟩

theorem Underway.exists_logs (underway : Underway database)
    (unrecorded : database.HasUnrecordedColumn) :
    ∃ migratedAt, Logs [(.initial, migratedAt)] database := by
  cases underway with
  | early early => exact absurd unrecorded early.not_hasUnrecordedColumn
  | unrecorded logs => exact ⟨_, logs⟩
  | recorded logs => exact absurd unrecorded logs.not_hasUnrecordedColumn

/-- Whatever runs were stopped and whatever was saved in between, a further run completes the
migration and changes no row of a snapshot, but for one case: once the column of the second
migration is there and the log does not say so, every run with a fresh handle fails on that column,
whatever else is done to the database. -/
theorem migrate_after_stopped_runs (history : List Upkeep) (time start : String) :
    let reached := empty.undergoAll history
    let complete := (empty.migrate start).1
    (¬reached.HasUnrecordedColumn → ∃ final journal,
      reached.migrate time = (final, journal, .ok ()) ∧ final.layout = complete.layout ∧
        final.appliedVersions = complete.appliedVersions ∧
        ∀ name, name ≠ "schema_migrations" → final.rowsOf name = reached.rowsOf name) ∧
      (reached.HasUnrecordedColumn → ∀ further, ∃ journal,
        (reached.undergoAll further).migrate time =
          (reached.undergoAll further, journal, .error .columnExists)) := by
  have underway := underway_undergoAll history
  refine ⟨fun noted => ?_, fun unrecorded further => ?_⟩
  · obtain ⟨whole, _, _, _, uninterrupted, whole_logs, _⟩ :=
      (Underway.early .untouched).exists_migrate Early.untouched.not_hasUnrecordedColumn start
    obtain ⟨final, journal, _, _, done, logs, kept⟩ := underway.exists_migrate noted time
    rw [uninterrupted]
    refine ⟨final, journal, done, ?_, ?_, kept⟩
    · rw [logs.layout, whole_logs.layout]
    · rw [logs.appliedVersions, whole_logs.appliedVersions]
      rfl
  · -- neither a run nor a save changes the log or takes the column away again
    obtain ⟨migratedAt, logs⟩ := underway.exists_logs unrecorded
    have stuck := undergoAll_induction (fun _ event logs => logs.undergo_unrecorded event) logs
      further
    exact stuck.migrate_unrecorded time

theorem migrate_after_first_migration :
    let reached := empty.undergoAll [.migrate "2024-01-01T09:00:00+00:00" 3]
    let complete := (empty.migrate "2024-01-03T09:00:00+00:00").1
    ∃ final journal,
      reached.migrate "2024-01-02T09:00:00+00:00" = (final, journal, .ok ()) ∧
        final.layout = complete.layout ∧ final.appliedVersions = complete.appliedVersions ∧
        ∀ name, name ≠ "schema_migrations" → final.rowsOf name = reached.rowsOf name := by
  have stopped : empty.undergoAll [.migrate "2024-01-01T09:00:00+00:00" 3] =
      logged [(1, Migration.initial.logRow "2024-01-01T09:00:00+00:00")] Schema.tables := by
    decide +kernel
  have noted := (Early.initialRecorded 1 "2024-01-01T09:00:00+00:00").not_hasUnrecordedColumn
  rw [← stopped] at noted
  exact (migrate_after_stopped_runs [.migrate "2024-01-01T09:00:00+00:00" 3]
    "2024-01-02T09:00:00+00:00" "2024-01-03T09:00:00+00:00").1 noted

/-- A run that was stopped once the column of the second migration was added. -/
theorem migrate_after_unrecorded_column :
    let stopped := empty.undergoAll [.migrate "2024-01-01T09:00:00+00:00" 4]
    stopped.HasUnrecordedColumn ∧ ∃ journal, stopped.migrate "2024-01-02T09:00:00+00:00" =
      (stopped, journal, .error .columnExists) := by
  have stopped : empty.undergoAll [.migrate "2024-01-01T09:00:00+00:00" 4] =
      logged [(1, Migration.initial.logRow "2024-01-01T09:00:00+00:00")] Schema.stored := by
    decide +kernel
  have logs : Logs [(.initial, "2024-01-01T09:00:00+00:00")]
      (empty.undergoAll [.migrate "2024-01-01T09:00:00+00:00" 4]) := by
    rw [stopped]
    exact logs_stored rfl
  exact ⟨logs.hasUnrecordedColumn, logs.migrate_unrecorded _⟩

end Database

end FeatureAtlas
