import FeatureAtlas.Export.Document
import FeatureAtlas.Store.Schema

/-!
Snapshots: models saved under an identifier. A model is saved as the rows of its document, all of
them or none; deleting a snapshot deletes them all.
-/

namespace FeatureAtlas

abbrev SnapshotId := String

structure Snapshot where
  id : SnapshotId
  label : String
  source : Option String
  nodeCount : Nat
  diagnosticCount : Nat
  createdAt : String
deriving DecidableEq, Repr, Inhabited

structure SnapshotHeader where
  id : SnapshotId
  createdAt : String
  label : String
  source : Option String
deriving DecidableEq, Repr

namespace SnapshotHeader

def snapshot (header : SnapshotHeader) (document : ModelDocument) : Snapshot :=
  { id := header.id, label := header.label, source := header.source
    nodeCount := document.nodes.length, diagnosticCount := document.diagnostics.length
    createdAt := header.createdAt }

def savedEvent (header : SnapshotHeader) : JournalEvent :=
  .info ("Saved snapshot " ++ header.id ++ " (" ++ header.label ++ ")")

end SnapshotHeader

/-! The rows of a snapshot. -/

def Snapshot.row (snapshot : Snapshot) : Row :=
  [("id", .text snapshot.id), ("label", .text snapshot.label),
    ("source", .optionalText snapshot.source), ("node_count", .natural snapshot.nodeCount),
    ("diagnostic_count", .natural snapshot.diagnosticCount),
    ("created_at", .text snapshot.createdAt)]

def NodeRecord.memberRows (id : SnapshotId) (position : Nat) (record : NodeRecord) :
    List (String × Row) :=
  record.memberElements.zipIdx.map fun (member, index) =>
    ("node_members", [("snapshot_id", .text id), ("node_position", .natural position),
      ("position", .natural index), ("qualified_name", .text member)])

/-- The position of each node by its key. Of nodes with the same key it is that of the last. -/
def NodeRecord.positions (records : List NodeRecord) : Dictionary NodeKey Nat :=
  records.zipIdx.foldl (fun positions (record, position) => positions.put record.key position) {}

def NodeRecord.edgeInsertions (id : SnapshotId) (positions : Dictionary NodeKey Nat)
    (position : Nat) (record : NodeRecord) : List Insertion :=
  record.children.zipIdx.map fun (child, index) =>
    match positions.get? child with
    | some childPosition =>
        .ok ("edges", [("snapshot_id", .text id), ("parent_position", .natural position),
          ("position", .natural index), ("child_position", .natural childPosition)])
    | none => .error (.unknownNode child.display)

def NodeRecord.insertions (id : SnapshotId) (positions : Dictionary NodeKey Nat)
    (position : Nat) (record : NodeRecord) : List Insertion :=
  .ok ("nodes", [("snapshot_id", .text id), ("position", .natural position),
      ("name", .text record.name), ("granularity", .text record.granularity.name)]) ::
    (record.memberRows id position).map .ok ++ record.edgeInsertions id positions position

def FeatureRecord.row (id : SnapshotId) (position : Nat) (record : FeatureRecord) :
    String × Row :=
  ("features", [("snapshot_id", .text id), ("position", .natural position),
    ("element", .text record.element), ("name", .text record.name),
    ("description", .text record.description), ("feature_type", .text record.featureType.name)])

def DiagnosticRecord.elementsText (record : DiagnosticRecord) : String :=
  (Json.array (record.elements.map Json.text)).compact

def DiagnosticRecord.row (id : SnapshotId) (position : Nat) (record : DiagnosticRecord) :
    String × Row :=
  ("diagnostics", [("snapshot_id", .text id), ("position", .natural position),
    ("kind", .text record.kind.name), ("severity", .text record.severity.name),
    ("message", .text record.message), ("elements", .text record.elementsText)])

def ModelDocument.insertions (document : ModelDocument) (snapshot : Snapshot) : List Insertion :=
  .ok ("snapshots", snapshot.row) ::
    document.nodes.zipIdx.flatMap (fun (record, position) =>
      record.insertions snapshot.id (NodeRecord.positions document.nodes) position) ++
    document.features.zipIdx.map (fun (record, position) =>
      .ok (record.row snapshot.id position)) ++
    document.diagnostics.zipIdx.map (fun (record, position) =>
      .ok (record.row snapshot.id position))

def Snapshot.ofRow (row : Row) : Except DatabaseError Snapshot := do
  let id ← (row.cell "id").readText
  let label ← (row.cell "label").readText
  let source ← (row.cell "source").readOptionalText
  let nodeCount ← (row.cell "node_count").readNatural
  let diagnosticCount ← (row.cell "diagnostic_count").readNatural
  let createdAt ← (row.cell "created_at").readText
  return { id, label, source, nodeCount, diagnosticCount, createdAt }

def snapshotColumns : List String :=
  ["id", "label", "source", "node_count", "diagnostic_count", "created_at"]

namespace Database

def save (database : Database) (header : SnapshotHeader) (model : FeatureModel)
    (failing : Option Nat) : Database × Except DatabaseError Snapshot :=
  let document := model.document
  let snapshot := header.snapshot document
  let (changed, result) := database.transact failing (document.insertions snapshot)
  (changed, result.map fun _ => snapshot)

/-- The snapshots by their times; of equal times, the one with the lower row number, which as a rule
was saved first, comes first. -/
def listSnapshots (database : Database) : Except DatabaseError (List Snapshot) := do
  (← database.table "snapshots").requireColumns snapshotColumns
  (← database.select "snapshots" [] ["created_at", Row.numberColumn]).mapM Snapshot.ofRow

def getSnapshot? (database : Database) (id : SnapshotId) :
    Except DatabaseError (Option Snapshot) := do
  (← database.table "snapshots").requireColumns snapshotColumns
  match ← database.select "snapshots" [("id", .text id)] [] with
  | [] => return none
  | row :: _ => return some (← Snapshot.ofRow row)

def deleteSnapshot (database : Database) (id : SnapshotId) :
    Except DatabaseError (Bool × Database) := do
  let (count, remaining) ← database.delete "snapshots" [("id", .text id)]
  return (count != 0, remaining)

end Database

end FeatureAtlas
