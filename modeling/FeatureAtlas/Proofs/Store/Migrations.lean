import FeatureAtlas.Proofs.Store.Ledger

/-!
Migrating an empty database, and migrating a migrated one again. The first run creates the tables
and records both migrations; a further run changes nothing.
-/

namespace FeatureAtlas

namespace Migration

def logRow (migration : Migration) (time : String) : Row :=
  [("version", .text migration.version), ("name", .text migration.name), ("applied_at", .text time)]

end Migration

namespace Schema

theorem log_mem : ("schema_migrations", log) ∈ migrated := by simp [migrated]

theorem fits_log (migration : Migration) (time : String) : log.Fits (migration.logRow time) :=
  .of_full rfl (by simp [Migration.logRow])

theorem log_apart {first second : Migration} (different : first.version ≠ second.version)
    (time later : String) : log.Apart (first.logRow time) (second.logRow later) := by
  intro key isKey number other
  refine Table.sharesKey_of_text_ne (regular_of_mem log_mem) (.optionalText "version") (by decide)
    rfl ?_ rfl rfl different number other
  rw [List.mem_singleton.mp isKey]
  decide

end Schema

namespace Database

def logged (entries : List (Int × Row)) (tables : List (String × Table)) : Database :=
  { tables := ("schema_migrations", Schema.log.holding entries) :: tables }

theorem record_logged (entries : List (Int × Row)) (tables : List (String × Table))
    (others : ∀ table ∈ tables, table.1 ≠ "schema_migrations") (migration : Migration)
    (time : String) (apart : ∀ entry ∈ entries, Schema.log.Apart entry.2 (migration.logRow time)) :
    ∃ number, (MigrationStep.record migration).perform (logged entries tables) time =
      .ok (logged (entries ++ [(number, migration.logRow time)]) tables) := by
  obtain ⟨number, _, _, inserted⟩ := Table.exists_insert (Schema.regular_of_mem Schema.log_mem)
    (Schema.fits_log migration time) apart
  refine ⟨number, ?_⟩
  have table : (logged entries tables).table "schema_migrations" =
      .ok (Schema.log.holding entries) := rfl
  have kept (log : Table) : tables.map (fun table =>
      (table.1, if table.1 == "schema_migrations" then log else table.2)) = tables := by
    refine (List.map_congr_left fun table member => ?_).trans (List.map_id tables)
    rw [if_neg (by simpa using others table member)]
    rfl
  have replaced : (logged entries tables).setTable "schema_migrations"
      (Schema.log.holding (entries ++ [(number, migration.logRow time)])) =
        logged (entries ++ [(number, migration.logRow time)]) tables :=
    congrArg (fun tables => Database.mk (_ :: tables)) (kept _)
  have row : [("version", .text migration.version), ("name", .text migration.name),
      ("applied_at", .text time)] = migration.logRow time := rfl
  rw [MigrationStep.perform, insert, table, row]
  simp only [bind, Except.bind, inserted]
  rw [replaced]
  rfl

theorem addColumn_snapshots :
    Schema.snapshots.addColumn (.optionalText "source") = .ok Schema.migratedSnapshots := by
  have fresh : Schema.snapshots.column? "source" = none := by decide +kernel
  have name : (Column.optionalText "source").name = "source" := rfl
  rw [Table.addColumn, name, fresh]
  rfl

theorem snapshotSource_logged (entries : List (Int × Row)) (time : String) :
    (MigrationStep.apply .snapshotSource).perform (logged entries Schema.tables) time =
      .ok (logged entries Schema.stored) := by
  have table : (logged entries Schema.tables).table "snapshots" = .ok Schema.snapshots := rfl
  rw [MigrationStep.perform, Migration.apply, table]
  simp only [bind, Except.bind, addColumn_snapshots]
  rfl

theorem exists_migrate_empty (time : String) :
    ∃ (ledger : Ledger) (journal : List JournalEvent),
      empty.migrate time = (holding ledger, journal, .ok ()) ∧
      (ledger "schema_migrations").map Prod.snd = Migration.all.map (·.logRow time) ∧
      ∀ table ∈ Schema.stored, ledger table.1 = [] := by
  have plan : empty.migrationPlan = .ok [.createLog, .apply .initial, .record .initial,
      .apply .snapshotSource, .record .snapshotSource] := rfl
  have created : MigrationStep.createLog.perform empty time = .ok (logged [] []) := rfl
  have initial : (MigrationStep.apply .initial).perform (logged [] []) time =
      .ok (logged [] Schema.tables) := rfl
  obtain ⟨first, recorded⟩ :=
    record_logged [] Schema.tables (by decide) .initial time (by simp)
  obtain ⟨second, recordedAgain⟩ := record_logged [(first, Migration.initial.logRow time)]
    Schema.stored (by decide) .snapshotSource time (by
      intro entry member
      rw [List.mem_singleton.mp member]
      exact Schema.log_apart (by decide) time time)
  have performed : ∃ journal, empty.migrate time = (holding (Ledger.set (fun _ => [])
      "schema_migrations" [(first, Migration.initial.logRow time),
        (second, Migration.snapshotSource.logRow time)]), journal, .ok ()) := by
    rw [migrate, plan]
    simp only [performAll, created, initial, List.nil_append, recorded, snapshotSource_logged,
      recordedAgain]
    exact ⟨_, rfl⟩
  obtain ⟨journal, performed⟩ := performed
  refine ⟨_, journal, performed, rfl, fun table member => ?_⟩
  have different : ∀ table ∈ Schema.stored, table.1 ≠ "schema_migrations" := by decide
  exact Ledger.set_other _ (different table member) _

theorem appliedVersions_logged {entries : List (Int × Row)} {applied : List (Migration × String)}
    (lists : entries.map Prod.snd = applied.map fun entry => entry.1.logRow entry.2)
    (tables : List (String × Table)) :
    (logged entries tables).appliedVersions =
      .ok (applied.map fun entry => entry.1.version) := by
  have rows : (logged entries tables).tables.lookup "schema_migrations" =
      some (Schema.log.holding entries) := rfl
  rw [appliedVersions, rows]
  refine mapM_entries lists (g := fun entry => entry.1.version) ?_
  intro number entry _
  rfl

theorem appliedVersions_holding {ledger : Ledger} {applied : List (Migration × String)}
    (lists : (ledger "schema_migrations").map Prod.snd =
      applied.map fun entry => entry.1.logRow entry.2) :
    (holding ledger).appliedVersions = .ok (applied.map fun entry => entry.1.version) :=
  appliedVersions_logged lists
    (Schema.stored.map fun table => (table.1, table.2.holding (ledger table.1)))

theorem createLog_holding (ledger : Ledger) (time : String) :
    MigrationStep.createLog.perform (holding ledger) time = .ok (holding ledger) := by
  rw [MigrationStep.perform, createTable, hasTable, lookup_holding ledger Schema.log_mem]
  rfl

theorem migrate_holding {ledger : Ledger} {migratedAt : String}
    (log : (ledger "schema_migrations").map Prod.snd = Migration.all.map (·.logRow migratedAt))
    (time : String) : (holding ledger).migrate time = (holding ledger, [], .ok ()) := by
  have lists : (ledger "schema_migrations").map Prod.snd =
      [(Migration.initial, migratedAt), (.snapshotSource, migratedAt)].map fun entry =>
        entry.1.logRow entry.2 := log
  have plan : (holding ledger).migrationPlan = .ok [.createLog] := by
    rw [migrationPlan, appliedVersions_holding lists]
    rfl
  rw [migrate, plan]
  simp only [performAll, createLog_holding]
  rfl

end Database

end FeatureAtlas
