import FeatureAtlas.Proofs.Store.Tables

/-!
A migrated store as a ledger of given rows. Inserting appends to one table of the ledger, and
deleting a snapshot strikes out the rows of all tables that belong to it.
-/

namespace FeatureAtlas

namespace Schema

def migratedSnapshots : Table :=
  { snapshots with columns := snapshots.columns ++ [.optionalText "source"] }

def parts : List (String × Table) :=
  [("nodes", nodes), ("node_members", members), ("edges", edges), ("features", features),
    ("diagnostics", diagnostics)]

def stored : List (String × Table) := ("snapshots", migratedSnapshots) :: parts

def migrated : List (String × Table) := ("schema_migrations", log) :: stored

def ownerColumn (name : String) : String := if name = "snapshots" then "id" else "snapshot_id"

def owner : Reference := { column := "snapshot_id", table := "snapshots", key := "id" }

theorem nodup_migrated : (migrated.map Prod.fst).Nodup := by decide

theorem regular_of_mem {name : String} {schema : Table} (member : (name, schema) ∈ migrated) :
    schema.Regular := by
  have all : ∀ table ∈ migrated, (table.2.columns.map Column.name).Nodup ∧
      Row.numberColumn ∉ table.2.columns.map Column.name := by decide
  exact ⟨(all _ member).1, (all _ member).2⟩

structure IsPart (name : String) (schema : Table) : Prop where
  other : name ≠ "snapshots"
  reference : schema.reference = some owner
  column : Column.requiredText "snapshot_id" ∈ schema.columns

theorem isPart_of_mem {name : String} {schema : Table} (member : (name, schema) ∈ parts) :
    IsPart name schema := by
  have all : ∀ table ∈ parts, table.1 ≠ "snapshots" ∧ table.2.reference = some owner ∧
      Column.requiredText "snapshot_id" ∈ table.2.columns := by decide
  obtain ⟨other, reference, column⟩ := all _ member
  exact ⟨other, reference, column⟩

theorem migrated_of_stored {table : String × Table} (member : table ∈ stored) : table ∈ migrated :=
  List.mem_cons_of_mem _ member

theorem stored_of_part {table : String × Table} (member : table ∈ parts) : table ∈ stored :=
  List.mem_cons_of_mem _ member

theorem mem_migrated {table : String × Table} (member : table ∈ parts) : table ∈ migrated :=
  migrated_of_stored (stored_of_part member)

theorem ownerColumn_part {name : String} {schema : Table} (member : (name, schema) ∈ parts) :
    ownerColumn name = "snapshot_id" :=
  if_neg (isPart_of_mem member).other

theorem exists_ownerColumn {name : String} {schema : Table} (member : (name, schema) ∈ stored) :
    ∃ column ∈ schema.columns, column.name = ownerColumn name ∧ column.affinity = .text ∧
      ∀ key ∈ schema.keys, ownerColumn name ∈ key := by
  have all : ∀ table ∈ stored, ∃ column ∈ table.2.columns, column.name = ownerColumn table.1 ∧
      column.affinity = .text ∧ ∀ key ∈ table.2.keys, ownerColumn table.1 ∈ key := by decide
  exact all _ member

theorem snapshots_stored : ("snapshots", migratedSnapshots) ∈ stored := by simp [stored]

theorem snapshots_mem : ("snapshots", migratedSnapshots) ∈ migrated :=
  migrated_of_stored snapshots_stored

end Schema

/-- The rows of each table with their numbers, as they were given. -/
abbrev Ledger := String → List (Int × Row)

namespace Ledger

def set (ledger : Ledger) (name : String) (entries : List (Int × Row)) : Ledger :=
  fun other => if other = name then entries else ledger other

@[simp] theorem set_same (ledger : Ledger) (name : String) (entries : List (Int × Row)) :
    ledger.set name entries name = entries := if_pos rfl

@[simp] theorem set_other (ledger : Ledger) {name other : String} (different : other ≠ name)
    (entries : List (Int × Row)) : ledger.set name entries other = ledger other :=
  if_neg different

def of (ledger : Ledger) (id : String) : Ledger :=
  fun name => (ledger name).filter fun entry => entry.2.cell (Schema.ownerColumn name) == .text id

def without (ledger : Ledger) (id : String) : Ledger :=
  fun name => (ledger name).filter fun entry => entry.2.cell (Schema.ownerColumn name) != .text id

theorem without_log {ledger : Ledger}
    (free : ∀ entry ∈ ledger "schema_migrations", entry.2.cell "snapshot_id" = .null)
    (id : String) :
    ledger.without id "schema_migrations" = ledger "schema_migrations" := by
  refine List.filter_eq_self.mpr fun entry member => ?_
  have cell : entry.2.cell (Schema.ownerColumn "schema_migrations") = .null := free entry member
  rw [cell]
  rfl

end Ledger

def tableRows (name : String) (rows : List (String × Row)) : List Row :=
  (rows.filter fun row => row.1 == name).map Prod.snd

@[simp] theorem tableRows_nil (name : String) : tableRows name [] = [] := rfl

@[simp] theorem tableRows_cons_same (name : String) (row : Row) (rows : List (String × Row)) :
    tableRows name ((name, row) :: rows) = row :: tableRows name rows := by
  simp [tableRows]

@[simp] theorem tableRows_cons_other {name other : String} (different : other ≠ name) (row : Row)
    (rows : List (String × Row)) : tableRows name ((other, row) :: rows) = tableRows name rows := by
  simp [tableRows, different]

namespace Database

variable {ledger : Ledger} {name : String} {schema : Table} {given : Row}

def holding (ledger : Ledger) : Database :=
  { tables := Schema.migrated.map fun table => (table.1, table.2.holding (ledger table.1)) }

theorem lookup_holding (ledger : Ledger) (member : (name, schema) ∈ Schema.migrated) :
    (holding ledger).tables.lookup name = some (schema.holding (ledger name)) := by
  refine lookup_of_mem ?_ (List.mem_map.mpr ⟨(name, schema), member, rfl⟩)
  rw [holding, List.map_map]
  exact Schema.nodup_migrated

theorem table_holding (ledger : Ledger) (member : (name, schema) ∈ Schema.migrated) :
    (holding ledger).table name = .ok (schema.holding (ledger name)) := by
  rw [table, lookup_holding ledger member]

theorem setTable_holding (ledger : Ledger) (member : (name, schema) ∈ Schema.migrated)
    (entries : List (Int × Row)) :
    (holding ledger).setTable name (schema.holding entries) =
      holding (ledger.set name entries) := by
  rw [setTable, holding, holding, List.map_map]
  refine congrArg Database.mk (List.map_congr_left fun table isTable => ?_)
  by_cases same : table.1 = name
  · obtain ⟨_, other⟩ := table
    subst same
    have schemas := (lookup_of_mem Schema.nodup_migrated isTable).symm.trans
      (lookup_of_mem Schema.nodup_migrated member)
    simp [Option.some.inj schemas]
  · simp [same]

def Resolved (ledger : Ledger) (schema : Table) (given : Row) : Prop :=
  schema.reference = none ∨ schema.reference = some Schema.owner ∧
    Column.requiredText "snapshot_id" ∈ schema.columns ∧
    ∃ entry ∈ ledger "snapshots", ∃ id, entry.2.cell "id" = .text id ∧
      given.cell "snapshot_id" = .text id

theorem cell_owner_numbered (member : (name, schema) ∈ Schema.stored) {id : String}
    (holds : given.cell (Schema.ownerColumn name) = .text id) (number : Int) :
    (schema.numbered number given).cell (Schema.ownerColumn name) = .text id := by
  have regular := Schema.regular_of_mem (Schema.migrated_of_stored member)
  obtain ⟨column, isColumn, named, textual, _⟩ := Schema.exists_ownerColumn member
  rw [← named] at holds ⊢
  exact regular.cell_text isColumn textual holds number

theorem satisfies_owner (member : (name, schema) ∈ Schema.stored) {owner : String}
    (owned : given.cell (Schema.ownerColumn name) = .text owner) (number : Int) (id : String) :
    (schema.numbered number given).satisfies [(Schema.ownerColumn name, .text id)] =
      (given.cell (Schema.ownerColumn name) == .text id) := by
  rw [Row.satisfies_single, cell_owner_numbered member owned, owned, Cell.text_beq, Cell.same_text,
    beq_eq_decide]

theorem select_of (member : (name, schema) ∈ Schema.stored)
    (owned : ∀ entry ∈ ledger name, ∃ owner,
      entry.2.cell (Schema.ownerColumn name) = .text owner) (id : String) {order : List String}
    (known : ∀ column ∈ order, column ∈ schema.columns.map Column.name)
    (sorted : (ledger.of id name).Pairwise fun earlier later =>
      Row.precedes order (schema.numbered earlier.1 earlier.2)
        (schema.numbered later.1 later.2) = true) :
    (holding ledger).select name [(Schema.ownerColumn name, .text id)] order =
      .ok ((ledger.of id name).map fun entry => schema.numbered entry.1 entry.2) := by
  have conditions : ∀ column ∈ order ++ [Schema.ownerColumn name],
      column = Row.numberColumn ∨ column ∈ schema.columns.map Column.name := by
    refine fun column isColumn => .inr ?_
    rcases List.mem_append.mp isColumn with isPosition | isOwner
    · exact known column isPosition
    · obtain ⟨owner, isOwnColumn, named, _⟩ := Schema.exists_ownerColumn member
      rw [List.mem_singleton.mp isOwner, ← named]
      exact List.mem_map_of_mem isOwnColumn
  rw [select, bind_ok (table_holding ledger (Schema.migrated_of_stored member))]
  refine Table.select_holding schema (ledger name) [(Schema.ownerColumn name, .text id)] order
    conditions _ (fun entry isEntry => ?_) sorted
  obtain ⟨owner, holds⟩ := owned entry isEntry
  exact satisfies_owner member holds entry.1 id

theorem referencesHold_holding (regular : schema.Regular) (resolved : Resolved ledger schema given)
    (number : Int) (entries : List (Int × Row)) :
    (holding ledger).referencesHold (schema.holding entries) [schema.numbered number given] =
      true := by
  have same : (schema.holding entries).reference = schema.reference := rfl
  rw [referencesHold, same]
  rcases resolved with none | ⟨reference, column, entry, member, id, held, owned⟩
  · rw [none]
  · have target := lookup_holding ledger Schema.snapshots_mem
    have cell := regular.cell_text column rfl owned number
    have known := cell_owner_numbered Schema.snapshots_stored held entry.1
    rw [reference]
    simp only [List.all_cons, List.all_nil, Bool.and_true, resolves, Schema.owner, target,
      Bool.or_eq_true, List.any_eq_true]
    refine .inr ⟨_, List.mem_map_of_mem member, ?_⟩
    exact beq_iff_eq.mpr (known.trans cell.symm)

theorem exists_insert_holding (member : (name, schema) ∈ Schema.migrated)
    (fits : schema.Fits given) (apart : ∀ entry ∈ ledger name, schema.Apart entry.2 given)
    (resolved : Resolved ledger schema given) :
    ∃ number, Table.Next ((ledger name).map Prod.fst) number ∧
      (holding ledger).insert name given =
        .ok (holding (ledger.set name (ledger name ++ [(number, given)]))) := by
  have regular := Schema.regular_of_mem member
  obtain ⟨number, next, filled, inserted⟩ := Table.exists_insert regular fits apart
  refine ⟨number, next, ?_⟩
  have holds := referencesHold_holding regular resolved number (ledger name)
  rw [insert, bind_ok (table_holding ledger member), bind_ok inserted, filled, if_pos holds,
    setTable_holding ledger member]
  rfl

/-! Several rows. -/

def Grown (ledger later : Ledger) (rows : List (String × Row)) : Prop :=
  ∀ name, ∃ entries, later name = ledger name ++ entries ∧
    entries.map Prod.snd = tableRows name rows

theorem Grown.nil (ledger : Ledger) : Grown ledger ledger [] :=
  fun _ => ⟨[], by simp⟩

theorem Grown.cons {later : Ledger} {number : Int} {rows : List (String × Row)}
    (grown : Grown (ledger.set name (ledger name ++ [(number, given)])) later rows) :
    Grown ledger later ((name, given) :: rows) := by
  intro other
  obtain ⟨entries, same, rest⟩ := grown other
  by_cases here : other = name
  · subst here
    exact ⟨(number, given) :: entries, by simpa using same, by simpa using rest⟩
  · exact ⟨entries, by simpa [here] using same, by simpa [Ne.symm here] using rest⟩

theorem Resolved.set {entry : Int × Row} {other : Row} (resolved : Resolved ledger schema other) :
    Resolved (ledger.set name (ledger name ++ [entry])) schema other := by
  rcases resolved with none | ⟨reference, column, holder, member, named⟩
  · exact .inl none
  · refine .inr ⟨reference, column, holder, ?_, named⟩
    by_cases here : "snapshots" = name
    · subst here
      simp [member]
    · simpa [here] using member

theorem map_set_append (ledger : Ledger) (name : String) (number : Int) (given : Row)
    (rows : List (String × Row)) (other : String) :
    (ledger.set name (ledger name ++ [(number, given)]) other).map Prod.snd ++
        tableRows other rows =
      (ledger other).map Prod.snd ++ tableRows other ((name, given) :: rows) := by
  by_cases here : other = name
  · subst here
    simp
  · simp [here, Ne.symm here]

theorem exists_insertAll_holding (rows : List (String × Row)) (ledger : Ledger)
    (fits : ∀ row ∈ rows, ∃ schema, (row.1, schema) ∈ Schema.stored ∧ schema.Fits row.2 ∧
      Resolved ledger schema row.2)
    (apart : ∀ table ∈ Schema.stored,
      ((ledger table.1).map Prod.snd ++ tableRows table.1 rows).Pairwise table.2.Apart) :
    ∃ later, (holding ledger).insertAll none (rows.map .ok) = .ok (holding later) ∧
      Grown ledger later rows := by
  induction rows generalizing ledger with
  | nil => exact ⟨ledger, rfl, Grown.nil ledger⟩
  | cons row rows ih =>
      -- what is stored and what is still to come are together the same rows after the insertion
      obtain ⟨name, given⟩ := row
      obtain ⟨schema, member, rowFits, resolved⟩ := fits (name, given) List.mem_cons_self
      have rowApart : ∀ entry ∈ ledger name, schema.Apart entry.2 given := by
        intro entry isEntry
        have pairs := List.pairwise_append.mp (apart (name, schema) member)
        exact pairs.2.2 entry.2 (List.mem_map_of_mem isEntry) given (by simp)
      obtain ⟨number, _, inserted⟩ := exists_insert_holding (Schema.migrated_of_stored member)
        rowFits rowApart resolved
      obtain ⟨later, insertedAll, grown⟩ := ih (ledger.set name (ledger name ++ [(number, given)]))
        (fun row isRow => by
          obtain ⟨schema, member, rowFits, resolved⟩ := fits row (List.mem_cons_of_mem _ isRow)
          exact ⟨schema, member, rowFits, resolved.set⟩)
        (fun table isTable => by
          rw [map_set_append]
          exact apart table isTable)
      refine ⟨later, ?_, grown.cons⟩
      rw [List.map_cons, insertAll, if_neg (by simp), inserted]
      exact insertedAll

/-! Deletion. -/

/-- Every snapshot has one of the identifiers, and every row of the other tables belongs to one. -/
structure Owned (ledger : Ledger) (ids : List String) : Prop where
  snapshots : (ledger "snapshots").map (fun entry => entry.2.cell "id") = ids.map Cell.text
  parts : ∀ table ∈ Schema.parts, ∀ entry ∈ ledger table.1,
    ∃ id ∈ ids, entry.2.cell "snapshot_id" = .text id
  log : ∀ entry ∈ ledger "schema_migrations", entry.2.cell "snapshot_id" = .null

theorem Owned.exists_owner {ids : List String} (owned : Owned ledger ids)
    (member : (name, schema) ∈ Schema.stored) {entry : Int × Row} (isEntry : entry ∈ ledger name) :
    ∃ id ∈ ids, entry.2.cell (Schema.ownerColumn name) = .text id := by
  rcases List.mem_cons.mp member with isSnapshots | isPart
  · cases isSnapshots
    have cell : entry.2.cell "id" ∈ ids.map Cell.text :=
      owned.snapshots ▸ List.mem_map_of_mem isEntry
    obtain ⟨id, known, holds⟩ := List.mem_map.mp cell
    exact ⟨id, known, holds.symm⟩
  · rw [Schema.ownerColumn_part isPart]
    exact owned.parts _ isPart entry isEntry

theorem filter_holding (schema : Table) (entries : List (Int × Row)) (keeps kept : Row → Bool)
    (agree : ∀ entry ∈ entries, keeps (schema.numbered entry.1 entry.2) = kept entry.2) :
    { schema.holding entries with rows := (schema.holding entries).rows.filter keeps } =
      schema.holding (entries.filter fun entry => kept entry.2) := by
  have rows : (schema.holding entries).rows.filter keeps =
      (schema.holding (entries.filter fun entry => kept entry.2)).rows := by
    rw [Table.holding, Table.holding, List.filter_map]
    exact congrArg (List.map _) (List.filter_congr agree)
  rw [rows]
  rfl

theorem Owned.stored {ids : List String} (owned : Owned ledger ids) :
    (Schema.migratedSnapshots.holding (ledger "snapshots")).rows.map (fun row => row.cell "id") =
      ids.map Cell.text := by
  rw [← owned.snapshots, Table.holding, List.map_map]
  refine List.map_congr_left fun entry member => ?_
  obtain ⟨id, _, holds⟩ := owned.exists_owner Schema.snapshots_stored member
  exact (cell_owner_numbered Schema.snapshots_stored holds entry.1).trans holds.symm

theorem Owned.length_removed {ids : List String} (owned : Owned ledger ids) (id : String) :
    ((Schema.migratedSnapshots.holding (ledger "snapshots")).rows.filter fun row =>
      row.satisfies [("id", .text id)]).length = (ids.filter (· == id)).length := by
  have counted := congrArg (List.countP fun cell => cell.same (.text id)) owned.stored
  rw [List.countP_map, List.countP_map] at counted
  simp only [Row.satisfies_single]
  rw [← List.countP_eq_length_filter, ← List.countP_eq_length_filter]
  refine counted.trans (congrArg (List.countP · ids) (funext fun other => ?_))
  simp [Bool.beq_eq_decide_eq]

theorem Owned.any_removed {ids : List String} (owned : Owned ledger ids) (id : String)
    {other : String} (member : other ∈ ids) :
    ((Schema.migratedSnapshots.holding (ledger "snapshots")).rows.filter fun row =>
      row.satisfies [("id", .text id)]).any (fun gone => gone.cell "id" == .text other) =
        (other == id) := by
  have found := congrArg
    (List.any · fun cell => cell.same (.text id) && cell == .text other) owned.stored
  simp only [List.any_map] at found
  simp only [Row.satisfies_single, List.any_filter]
  refine Eq.trans found ?_
  by_cases same : other = id
  · subst same
    simpa using member
  · have different : (other == id) = false := by simpa using same
    rw [different, List.any_eq_false]
    intro third _ both
    simp only [Function.comp_apply, Cell.same_text, Bool.and_eq_true, decide_eq_true_eq,
      beq_iff_eq, Cell.text.injEq] at both
    exact same (both.2.symm.trans both.1)

theorem follow_unreferenced (free : schema.reference = none) (removed : List Row)
    (entries : List (Int × Row)) :
    follow "snapshots" removed (schema.holding entries) = schema.holding entries := by
  have reference : (schema.holding entries).reference = none := free
  rw [follow, reference]

theorem follow_part (part : Schema.IsPart name schema) {removed : List Row}
    {entries : List (Int × Row)} (kept : Row → Bool)
    (agree : ∀ entry ∈ entries, (!removed.any fun gone =>
      gone.cell "id" == (schema.numbered entry.1 entry.2).cell "snapshot_id") = kept entry.2) :
    follow "snapshots" removed (schema.holding entries) =
      schema.holding (entries.filter fun entry => kept entry.2) := by
  have reference : (schema.holding entries).reference = some Schema.owner := part.reference
  have rows := filter_holding schema entries
    (fun row => !removed.any fun gone => gone.cell "id" == row.cell "snapshot_id") kept agree
  rw [Database.follow]
  split
  · rename_i found same
    cases reference.symm.trans same
    exact rows
  · rename_i none
    cases reference.symm.trans none

theorem Owned.follow {ids : List String} (owned : Owned ledger ids) (id : String)
    (member : (name, schema) ∈ Schema.migrated) :
    follow "snapshots" ((Schema.migratedSnapshots.holding (ledger "snapshots")).rows.filter
        fun row => row.satisfies [("id", .text id)])
      (schema.holding (ledger.set "snapshots" (ledger.without id "snapshots") name)) =
        schema.holding (ledger.without id name) := by
  rcases List.mem_cons.mp member with isLog | member
  · cases isLog
    rw [Ledger.without_log owned.log, Ledger.set_other _ (by decide)]
    exact follow_unreferenced rfl _ _
  · rcases List.mem_cons.mp member with isSnapshots | isPart
    · cases isSnapshots
      exact (follow_unreferenced rfl _ _).trans (congrArg _ (Ledger.set_same _ _ _))
    · have part := Schema.isPart_of_mem isPart
      rw [Ledger.set_other _ part.other]
      refine follow_part part (fun given => given.cell (Schema.ownerColumn name) != .text id)
        fun entry isEntry => ?_
      obtain ⟨other, known, holds⟩ := owned.exists_owner member isEntry
      have stored := cell_owner_numbered member holds entry.1
      rw [Schema.ownerColumn_part isPart] at stored
      rw [stored, owned.any_removed id known, holds, Cell.text_bne]

theorem delete_holding {ids : List String} (owned : Owned ledger ids) (id : String) :
    (holding ledger).delete "snapshots" [("id", .text id)] =
      .ok ((ids.filter (· == id)).length, holding (ledger.without id)) := by
  have table := table_holding ledger Schema.snapshots_mem
  have known := Table.requireColumns_holding Schema.migratedSnapshots (ledger "snapshots")
    ["id"] (by decide)
  have kept := filter_holding Schema.migratedSnapshots (ledger "snapshots")
    (fun row => !row.satisfies [("id", .text id)]) (fun given => given.cell "id" != .text id) <| by
      intro entry member
      obtain ⟨_, _, holds⟩ := owned.exists_owner Schema.snapshots_stored member
      exact congrArg not (satisfies_owner Schema.snapshots_stored holds entry.1 id)
  have without : (ledger "snapshots").filter (fun entry => entry.2.cell "id" != .text id) =
      ledger.without id "snapshots" := rfl
  rw [without] at kept
  rw [delete, bind_ok table, List.map_singleton, bind_ok known]
  simp only [kept]
  rw [← owned.length_removed id, setTable_holding ledger Schema.snapshots_mem]
  refine congrArg (fun tables => Except.ok (_, Database.mk tables)) ?_
  rw [holding, List.map_map]
  exact List.map_congr_left fun table isTable => Prod.ext rfl (owned.follow id isTable)

end Database

end FeatureAtlas
