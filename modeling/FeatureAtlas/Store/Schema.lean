import FeatureAtlas.Basic
import FeatureAtlas.Store.Database

/-!
The tables of the model store and the migrations that create them. A migration is applied in one
step and recorded in another, each of which happens as a whole or not at all.
-/

namespace FeatureAtlas

namespace Column

def requiredText (name : String) : Column := { name, affinity := .text, required := true }

def optionalText (name : String) : Column := { name, affinity := .text, required := false }

def requiredNumber (name : String) : Column := { name, affinity := .number, required := true }

end Column

namespace Schema

def log : Table where
  columns := [.optionalText "version", .requiredText "name", .requiredText "applied_at"]
  keys := [["version"]]
  reference := none
  rows := []

def snapshots : Table where
  columns := [.optionalText "id", .requiredText "label", .requiredNumber "node_count",
    .requiredNumber "diagnostic_count", .requiredText "created_at"]
  keys := [["id"]]
  reference := none
  rows := []

def part (columns : List Column) (keys : List (List String)) : Table where
  columns := .requiredText "snapshot_id" :: columns
  keys := keys.map fun key => "snapshot_id" :: key
  reference := some { column := "snapshot_id", table := "snapshots", key := "id" }
  rows := []

def nodes : Table :=
  part [.requiredNumber "position", .requiredText "name", .requiredText "granularity"]
    [["position"], ["name", "granularity"]]

def members : Table :=
  part [.requiredNumber "node_position", .requiredNumber "position", .requiredText "qualified_name"]
    [["node_position", "position"]]

def edges : Table :=
  part [.requiredNumber "parent_position", .requiredNumber "position",
      .requiredNumber "child_position"]
    [["parent_position", "position"]]

def features : Table :=
  part [.requiredNumber "position", .requiredText "element", .requiredText "name",
      .requiredText "description", .requiredText "feature_type"]
    [["position"]]

/-- The list of elements is kept as a JSON text in a column for numbers and texts alike. -/
def diagnostics : Table :=
  part [.requiredNumber "position", .requiredText "kind", .requiredText "severity",
      .requiredText "message", .requiredNumber "elements"]
    [["position"]]

def tables : List (String × Table) :=
  [("snapshots", snapshots), ("nodes", nodes), ("node_members", members), ("edges", edges),
    ("features", features), ("diagnostics", diagnostics)]

end Schema

inductive Migration where
  | initial
  | snapshotSource
deriving DecidableEq, Repr

namespace Migration

def all : List Migration := [initial, snapshotSource]

def version : Migration → String
  | initial => "001"
  | snapshotSource => "002"

def name : Migration → String
  | initial => "initial"
  | snapshotSource => "snapshot_source"

/-- What a migration does to the tables. Tables that are there are left alone, but a column that is
there cannot be added again. -/
def apply (database : Database) : Migration → Except DatabaseError Database
  | initial =>
      .ok (Schema.tables.foldl
        (fun database (name, table) => database.createTable name table) database)
  | snapshotSource => do
      let table ← database.table "snapshots"
      return database.setTable "snapshots" (← table.addColumn (.optionalText "source"))

end Migration

inductive MigrationStep where
  | createLog
  | apply (migration : Migration)
  | record (migration : Migration)
deriving DecidableEq, Repr

namespace MigrationStep

def perform (database : Database) (time : String) : MigrationStep → Except DatabaseError Database
  | createLog => .ok (database.createTable "schema_migrations" Schema.log)
  | apply migration => migration.apply database
  | record migration =>
      database.insert "schema_migrations"
        [("version", .text migration.version), ("name", .text migration.name),
          ("applied_at", .text time)]

def announcement : MigrationStep → List JournalEvent
  | apply migration =>
      [.info ("Applying migration " ++ migration.version ++ ": " ++ migration.name)]
  | _ => []

def confirmation : MigrationStep → List JournalEvent
  | record migration => [.debug ("Migration " ++ migration.version ++ " applied")]
  | _ => []

end MigrationStep

namespace Database

def appliedVersions (database : Database) : Except DatabaseError (List String) :=
  match database.tables.lookup "schema_migrations" with
  | some log => log.rows.mapM fun row => (row.cell "version").readText
  | none => .ok []

def migrationPlan (database : Database) : Except DatabaseError (List MigrationStep) := do
  let applied ← database.appliedVersions
  let pending := Migration.all.filter fun migration => !applied.contains migration.version
  return .createLog :: pending.flatMap fun migration => [.apply migration, .record migration]

/-- Carries out steps up to the first that fails, and keeps what was done by then. -/
def performAll (database : Database) (time : String) :
    List MigrationStep → Database × List JournalEvent × Except DatabaseError Unit
  | [] => (database, [], .ok ())
  | step :: rest =>
      match step.perform database time with
      | .error error => (database, step.announcement, .error error)
      | .ok changed =>
          let (final, journal, result) := changed.performAll time rest
          (final, step.announcement ++ step.confirmation ++ journal, result)

/-- A run of the migrations on a handle without an open transaction. Where a migration fails, the
database is left as it was before that migration; the handle would stay inside its transaction, so
the next run or save is one on another handle. -/
def migrate (database : Database) (time : String) :
    Database × List JournalEvent × Except DatabaseError Unit :=
  match database.migrationPlan with
  | .ok steps => database.performAll time steps
  | .error error => (database, [], .error error)

end Database

end FeatureAtlas
