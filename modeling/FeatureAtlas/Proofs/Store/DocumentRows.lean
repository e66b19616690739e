import Mathlib.Data.List.Induction
import FeatureAtlas.Proofs.Store.Ledger
import FeatureAtlas.Store.Snapshot

/-!
The rows of a document, table by table. They fit their tables and share no keys, and in each table
they stand in the order of their positions.
-/

namespace FeatureAtlas

/-! The rows that are meant for one table. -/

theorem mem_tableRows {name : String} {row : Row} {rows : List (String × Row)} :
    row ∈ tableRows name rows ↔ (name, row) ∈ rows := by
  simp [tableRows]

theorem tableRows_append (name : String) (first second : List (String × Row)) :
    tableRows name (first ++ second) = tableRows name first ++ tableRows name second := by
  simp [tableRows]

theorem tableRows_flatMap {α : Type} (name : String) (items : List α)
    (rows : α → List (String × Row)) :
    tableRows name (items.flatMap rows) = items.flatMap fun item => tableRows name (rows item) := by
  induction items with
  | nil => rfl
  | cons item items ih =>
      rw [List.flatMap_cons, List.flatMap_cons, tableRows_append, ih]

theorem tableRows_map {α : Type} (name : String) (items : List α) (row : α → Row) :
    tableRows name (items.map fun item => (name, row item)) = items.map row := by
  rw [tableRows, List.filter_eq_self.mpr (by simp), List.map_map]
  rfl

theorem tableRows_map_other {α : Type} {name other : String} (different : other ≠ name)
    (items : List α) (row : α → Row) :
    tableRows name (items.map fun item => (other, row item)) = [] := by
  rw [tableRows, List.filter_eq_nil_iff.mpr (by simp [different]), List.map_nil]

namespace ModelDocument

def placed {β : Type} (document : ModelDocument) (parts : NodeRecord → List β) :
    List (Nat × Nat × β) :=
  document.nodes.zipIdx.flatMap fun (record, position) =>
    (parts record).zipIdx.map fun (part, index) => (position, index, part)

def nodeRow (id : SnapshotId) (place : NodeRecord × Nat) : Row :=
  [("snapshot_id", .text id), ("position", .natural place.2), ("name", .text place.1.name),
    ("granularity", .text place.1.granularity.name)]

def memberRow (id : SnapshotId) (place : Nat × Nat × String) : Row :=
  [("snapshot_id", .text id), ("node_position", .natural place.1),
    ("position", .natural place.2.1), ("qualified_name", .text place.2.2)]

/-- The position of the node with a key. Where there is none, the row of an edge is not made. -/
def positionOf (document : ModelDocument) (key : NodeKey) : Nat :=
  ((NodeRecord.positions document.nodes).get? key).getD 0

def edgeRow (document : ModelDocument) (id : SnapshotId) (place : Nat × Nat × NodeKey) : Row :=
  [("snapshot_id", .text id), ("parent_position", .natural place.1),
    ("position", .natural place.2.1),
    ("child_position", .natural (document.positionOf place.2.2))]

def featureRow (id : SnapshotId) (place : FeatureRecord × Nat) : Row := (place.1.row id place.2).2

def diagnosticRow (id : SnapshotId) (place : DiagnosticRecord × Nat) : Row :=
  (place.1.row id place.2).2

variable (document : ModelDocument) (snapshot : Snapshot)

def nodeParts (document : ModelDocument) (id : SnapshotId) (place : NodeRecord × Nat) :
    List (String × Row) :=
  ("nodes", nodeRow id place) ::
    (place.1.memberElements.zipIdx.map fun part =>
      ("node_members", memberRow id (place.2, part.2, part.1))) ++
    place.1.children.zipIdx.map fun part =>
      ("edges", document.edgeRow id (place.2, part.2, part.1))

def parts (document : ModelDocument) (id : SnapshotId) : List (String × Row) :=
  document.nodes.zipIdx.flatMap (document.nodeParts id) ++
    document.features.zipIdx.map (fun place => ("features", featureRow id place)) ++
    document.diagnostics.zipIdx.map fun place => ("diagnostics", diagnosticRow id place)

def rows (document : ModelDocument) (snapshot : Snapshot) : List (String × Row) :=
  ("snapshots", snapshot.row) :: document.parts snapshot.id

theorem snapshots_parts (id : SnapshotId) : tableRows "snapshots" (document.parts id) = [] := by
  simp [parts, nodeParts, tableRows_append, tableRows_flatMap, tableRows_map_other]

theorem snapshots_rows : tableRows "snapshots" (document.rows snapshot) = [snapshot.row] := by
  rw [rows, tableRows_cons_same, snapshots_parts]

theorem nodes_rows : tableRows "nodes" (document.rows snapshot) =
    document.nodes.zipIdx.map (nodeRow snapshot.id) := by
  rw [List.map_eq_flatMap]
  simp [rows, parts, nodeParts, tableRows_append, tableRows_flatMap, tableRows_map_other]

theorem members_rows : tableRows "node_members" (document.rows snapshot) =
    (document.placed NodeRecord.memberElements).map (memberRow snapshot.id) := by
  simp [rows, parts, nodeParts, tableRows_append, tableRows_flatMap, tableRows_map,
    tableRows_map_other, placed, List.map_flatMap, Function.comp_def]

theorem edges_rows : tableRows "edges" (document.rows snapshot) =
    (document.placed NodeRecord.children).map (document.edgeRow snapshot.id) := by
  simp [rows, parts, nodeParts, tableRows_append, tableRows_flatMap, tableRows_map,
    tableRows_map_other, placed, List.map_flatMap, Function.comp_def]

theorem features_rows : tableRows "features" (document.rows snapshot) =
    document.features.zipIdx.map (featureRow snapshot.id) := by
  simp [rows, parts, nodeParts, tableRows_append, tableRows_flatMap, tableRows_map,
    tableRows_map_other]

theorem diagnostics_rows : tableRows "diagnostics" (document.rows snapshot) =
    document.diagnostics.zipIdx.map (diagnosticRow snapshot.id) := by
  simp [rows, parts, nodeParts, tableRows_append, tableRows_flatMap, tableRows_map,
    tableRows_map_other]

theorem log_rows : tableRows "schema_migrations" (document.rows snapshot) = [] := by
  simp [rows, parts, nodeParts, tableRows_append, tableRows_flatMap, tableRows_map_other]

end ModelDocument

/-! The rows fit their tables. -/

theorem Schema.fits_snapshot (snapshot : Snapshot) : migratedSnapshots.Fits snapshot.row := by
  constructor
  · simp [Snapshot.row, migratedSnapshots, snapshots, Column.optionalText, Column.requiredText,
      Column.requiredNumber]
  · simp [Snapshot.row, migratedSnapshots, snapshots, Column.optionalText, Column.requiredText,
      Column.requiredNumber, Row.cell, List.lookup_cons, Cell.natural]

theorem ModelDocument.parts_fit (document : ModelDocument) (id : SnapshotId) :
    ∀ row ∈ document.parts id, ∃ schema, (row.1, schema) ∈ Schema.parts ∧ schema.Fits row.2 ∧
      row.2.cell "snapshot_id" = .text id := by
  intro row member
  simp only [parts, nodeParts, List.cons_append, List.mem_append, List.mem_flatMap, List.mem_cons,
    List.mem_map] at member
  rcases member with (⟨_, _, rfl | ⟨_, _, rfl⟩ | ⟨_, _, rfl⟩⟩ | ⟨_, _, rfl⟩) | ⟨_, _, rfl⟩
  · exact ⟨Schema.nodes, by simp [Schema.parts],
      .of_full rfl (by simp [nodeRow, Cell.natural]), rfl⟩
  · exact ⟨Schema.members, by simp [Schema.parts],
      .of_full rfl (by simp [memberRow, Cell.natural]), rfl⟩
  · exact ⟨Schema.edges, by simp [Schema.parts],
      .of_full rfl (by simp [edgeRow, Cell.natural]), rfl⟩
  · exact ⟨Schema.features, by simp [Schema.parts],
      .of_full rfl (by simp [featureRow, FeatureRecord.row, Cell.natural]), rfl⟩
  · exact ⟨Schema.diagnostics, by simp [Schema.parts],
      .of_full rfl (by simp [diagnosticRow, DiagnosticRecord.row, Cell.natural]), rfl⟩

theorem ModelDocument.rows_owned (document : ModelDocument) (snapshot : Snapshot) {name : String} :
    ∀ row ∈ tableRows name (document.rows snapshot),
      row.cell (Schema.ownerColumn name) = .text snapshot.id := by
  intro row member
  rcases List.mem_cons.mp (mem_tableRows.mp member) with isSnapshot | isPart
  · cases isSnapshot
    rfl
  · obtain ⟨_, stored, _, owned⟩ := document.parts_fit snapshot.id _ isPart
    rwa [Schema.ownerColumn_part stored]

/-! Positions. -/

theorem pairwise_zipIdx {α : Type} (items : List α) (start : Nat) :
    (items.zipIdx start).Pairwise fun earlier later => earlier.2 < later.2 := by
  induction items generalizing start with
  | nil => simp
  | cons item items ih =>
      rw [List.zipIdx_cons]
      refine List.pairwise_cons.mpr ⟨fun place member => ?_, ih (start + 1)⟩
      have := List.le_snd_of_mem_zipIdx member
      omega

theorem pairwise_before_zipIdx {α : Type} (column : String) (items : List α)
    (row : α × Nat → Row) (cell : ∀ place, (row place).cell column = .natural place.2) :
    (items.zipIdx.map row).Pairwise (Row.Before [column]) := by
  refine List.pairwise_map.mpr ((pairwise_zipIdx items 0).imp fun {earlier later} less => ?_)
  exact ⟨earlier.2, later.2, cell earlier, cell later, .inl less⟩

theorem ModelDocument.pairwise_before_placed {β : Type} (outer inner : String)
    (document : ModelDocument) (parts : NodeRecord → List β) (row : Nat × Nat × β → Row)
    (outerCell : ∀ place, (row place).cell outer = .natural place.1)
    (innerCell : ∀ place, (row place).cell inner = .natural place.2.1) :
    ((document.placed parts).map row).Pairwise (Row.Before [outer, inner]) := by
  refine List.pairwise_map.mpr (List.pairwise_flatMap.mpr ⟨fun node _ => ?_, ?_⟩)
  · refine List.pairwise_map.mpr ((pairwise_zipIdx _ 0).imp fun {earlier later} less => ?_)
    exact ⟨_, _, outerCell _, outerCell _, .inr ⟨rfl, _, _, innerCell _, innerCell _, .inl less⟩⟩
  · refine (pairwise_zipIdx _ 0).imp fun {earlier later} less first isFirst second isSecond => ?_
    obtain ⟨_, _, rfl⟩ := List.mem_map.mp isFirst
    obtain ⟨_, _, rfl⟩ := List.mem_map.mp isSecond
    exact ⟨_, _, outerCell _, outerCell _, .inl less⟩

/-! Keys. -/

namespace NodeRecord

theorem positions_snoc (records : List NodeRecord) (record : NodeRecord) :
    positions (records ++ [record]) = (positions records).put record.key records.length := by
  simp [positions, List.zipIdx_append]

theorem exists_position {records : List NodeRecord} {key : NodeKey}
    (member : key ∈ records.map NodeRecord.key) :
    ∃ position, (positions records).get? key = some position ∧
      (records.map NodeRecord.key)[position]? = some key := by
  induction records using List.reverseRecOn with
  | nil => cases member
  | append_singleton records record ih =>
      rw [positions_snoc, Dictionary.get?_put, List.map_append]
      by_cases last : key = record.key
      · exact ⟨records.length, if_pos last, by simp [last]⟩
      · rw [List.map_append, List.mem_append, List.map_singleton, List.mem_singleton] at member
        obtain ⟨position, found, stored⟩ := ih (member.resolve_right last)
        refine ⟨position, (if_neg last).trans found, ?_⟩
        rw [List.getElem?_append_left (List.getElem?_eq_some_iff.mp stored).1, stored]

end NodeRecord

/-- A document whose nodes differ by their keys and whose children are all among the nodes. -/
structure ModelDocument.Sound (document : ModelDocument) : Prop where
  distinct : (document.nodes.map NodeRecord.key).Nodup
  closed : ∀ record ∈ document.nodes, ∀ child ∈ record.children,
    child ∈ document.nodes.map NodeRecord.key

theorem ModelDocument.Sound.key_positionOf {document : ModelDocument} (sound : document.Sound)
    {record : NodeRecord} (member : record ∈ document.nodes) {child : NodeKey}
    (isChild : child ∈ record.children) :
    (NodeRecord.positions document.nodes).get? child = some (document.positionOf child) ∧
      (document.nodes.map NodeRecord.key)[document.positionOf child]? = some child := by
  obtain ⟨position, found, stored⟩ :=
    NodeRecord.exists_position (sound.closed record member child isChild)
  rw [ModelDocument.positionOf, found]
  exact ⟨rfl, stored⟩

/-! The insertions. -/

namespace ModelDocument

variable {document : ModelDocument} {snapshot : Snapshot} {id : SnapshotId}

theorem Sound.node_insertions (sound : document.Sound) {node : NodeRecord × Nat}
    (isNode : node ∈ document.nodes.zipIdx) :
    node.1.insertions id (NodeRecord.positions document.nodes) node.2 =
      (document.nodeParts id node).map .ok := by
  have edges : node.1.edgeInsertions id (NodeRecord.positions document.nodes) node.2 =
      (node.1.children.zipIdx.map fun part =>
        ("edges", document.edgeRow id (node.2, part.2, part.1))).map .ok := by
    rw [NodeRecord.edgeInsertions, List.map_map]
    apply List.map_congr_left
    intro part isPart
    have known := (sound.key_positionOf (List.fst_mem_of_mem_zipIdx isNode)
      (List.fst_mem_of_mem_zipIdx isPart)).1
    simp only [known, Function.comp_apply, edgeRow]
  rw [NodeRecord.insertions, edges, nodeParts, List.map_append, List.map_cons]
  rfl

theorem Sound.insertions_eq (sound : document.Sound) (snapshot : Snapshot) :
    document.insertions snapshot = (document.rows snapshot).map .ok := by
  have nodes : (document.nodes.zipIdx.flatMap fun node =>
      node.1.insertions snapshot.id (NodeRecord.positions document.nodes) node.2) =
        (document.nodes.zipIdx.flatMap (document.nodeParts snapshot.id)).map .ok := by
    rw [List.map_flatMap]
    exact List.flatMap_congr fun node isNode => sound.node_insertions isNode
  rw [insertions, nodes, rows, parts, List.map_cons, List.map_append, List.map_append,
    List.map_map, List.map_map]
  rfl

end ModelDocument

namespace Schema

theorem apart_of_before {name : String} {schema : Table} (member : (name, schema) ∈ migrated)
    {columns : List String} (keys : schema.keys = ["snapshot_id" :: columns])
    (numeric : ∀ column ∈ columns, Column.requiredNumber column ∈ schema.columns) {rows : List Row}
    (before : rows.Pairwise (Row.Before columns)) : rows.Pairwise schema.Apart := by
  refine before.imp fun {given other} before key isKey first second => ?_
  rw [keys, List.mem_singleton] at isKey
  have shares := Table.sharesKey_of_before (regular_of_mem member) numeric before first second
  rw [Row.sharesKey] at shares
  rw [isKey, Row.sharesKey, List.all_cons, shares, Bool.and_false]

end Schema

theorem Schema.apart_of_owner_ne {name : String} {schema : Table}
    (member : (name, schema) ∈ Schema.stored) {given other : Row} {id otherId : SnapshotId}
    (here : given.cell (Schema.ownerColumn name) = .text id)
    (there : other.cell (Schema.ownerColumn name) = .text otherId) (different : id ≠ otherId) :
    schema.Apart given other := by
  obtain ⟨column, isColumn, named, textual, inKeys⟩ := Schema.exists_ownerColumn member
  rw [← named] at here there
  intro key isKey first second
  exact Table.sharesKey_of_text_ne (Schema.regular_of_mem (Schema.migrated_of_stored member)) column
    isColumn textual (named ▸ inKeys key isKey) here there different first second

theorem Granularity.name_inj {first second : Granularity} (same : first.name = second.name) :
    first = second := by
  cases first <;> cases second <;> first | rfl | simp [name] at same

namespace ModelDocument

variable {document : ModelDocument}

theorem Sound.pairwise_key_ne (sound : document.Sound) :
    document.nodes.zipIdx.Pairwise fun earlier later => earlier.1.key ≠ later.1.key := by
  have apart := List.pairwise_map.mp sound.distinct
  rw [← List.zipIdx_map_fst 0 document.nodes] at apart
  exact (List.pairwise_map (f := Prod.fst)).mp apart

theorem nodes_mem : ("nodes", Schema.nodes) ∈ Schema.migrated := by decide

theorem sharesKey_of_key_ne (id : SnapshotId) {given other : NodeRecord × Nat}
    (different : given.1.key ≠ other.1.key) (first second : Int) :
    Row.sharesKey ["snapshot_id", "name", "granularity"]
      (Schema.nodes.numbered second (nodeRow id other))
      (Schema.nodes.numbered first (nodeRow id given)) = false := by
  have regular : Schema.nodes.Regular := Schema.regular_of_mem nodes_mem
  by_cases named : given.1.name = other.1.name
  · have level : given.1.granularity.name ≠ other.1.granularity.name := by
      intro same
      have level := Granularity.name_inj same
      exact different (by rw [NodeRecord.key, NodeRecord.key, named, level])
    exact Table.sharesKey_of_text_ne regular (.requiredText "granularity") (by decide)
      rfl (by decide) rfl rfl level first second
  · exact Table.sharesKey_of_text_ne regular (.requiredText "name") (by decide)
      rfl (by decide) rfl rfl named first second

theorem nodes_apart (sound : document.Sound) (id : SnapshotId) :
    (document.nodes.zipIdx.map (nodeRow id)).Pairwise Schema.nodes.Apart := by
  have regular : Schema.nodes.Regular := Schema.regular_of_mem nodes_mem
  have before := pairwise_before_zipIdx "position" document.nodes (nodeRow id) fun _ => rfl
  refine List.pairwise_map.mpr
    (((List.pairwise_map.mp before).and sound.pairwise_key_ne).imp fun {given other} both => ?_)
  intro key isKey first second
  have shares := Table.sharesKey_of_before regular (by decide) both.1 first second
  rcases List.mem_cons.mp isKey with rfl | isKey
  · rw [Row.sharesKey] at shares
    rw [Row.sharesKey, List.all_cons, shares, Bool.and_false]
  · rw [List.mem_singleton.mp isKey]
    exact sharesKey_of_key_ne id both.2 first second

theorem rows_apart (sound : document.Sound) (snapshot : Snapshot) {name : String} {schema : Table}
    (member : (name, schema) ∈ Schema.stored) :
    (tableRows name (document.rows snapshot)).Pairwise schema.Apart := by
  have apart := @Schema.apart_of_before name schema (Schema.migrated_of_stored member)
  simp only [Schema.stored, Schema.parts, List.mem_cons, List.not_mem_nil,
    or_false, Prod.mk.injEq] at member
  rcases member with ⟨rfl, rfl⟩ | ⟨rfl, rfl⟩ | ⟨rfl, rfl⟩ | ⟨rfl, rfl⟩ | ⟨rfl, rfl⟩ | ⟨rfl, rfl⟩
  · simp [snapshots_rows]
  · rw [nodes_rows]
    exact nodes_apart sound snapshot.id
  · rw [members_rows]
    exact apart rfl (by decide) (pairwise_before_placed "node_position" "position" _ _ _
      (fun _ => rfl) fun _ => rfl)
  · rw [edges_rows]
    exact apart rfl (by decide) (pairwise_before_placed "parent_position" "position" _ _ _
      (fun _ => rfl) fun _ => rfl)
  · rw [features_rows]
    exact apart rfl (by decide) (pairwise_before_zipIdx "position" _ _ fun _ => rfl)
  · rw [diagnostics_rows]
    exact apart rfl (by decide) (pairwise_before_zipIdx "position" _ _ fun _ => rfl)

end ModelDocument

end FeatureAtlas
