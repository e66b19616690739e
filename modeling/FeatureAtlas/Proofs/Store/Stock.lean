import FeatureAtlas.Proofs.Store.Loading
import FeatureAtlas.Proofs.Store.Migrations

/-!
What a migrated store keeps: the documents of a shelf, each under an identifier of its own. A
document is there until it is deleted, whatever else comes and goes, and it is loaded as it was
saved.
-/

namespace FeatureAtlas

structure Deposit where
  header : SnapshotHeader
  document : ModelDocument

def Deposit.snapshot (deposit : Deposit) : Snapshot := deposit.header.snapshot deposit.document

/-- The documents of a store in the order in which they were saved. -/
abbrev Shelf := List Deposit

namespace Shelf

def find (shelf : Shelf) (id : SnapshotId) : Option Deposit :=
  shelf.find? fun deposit => deposit.header.id == id

end Shelf

/-! The rows of a shelf. -/

namespace Shelf

def rows (shelf : Shelf) (name : String) : List Row :=
  shelf.flatMap fun deposit => tableRows name (deposit.document.rows deposit.snapshot)

variable {shelf : Shelf} {name : String} {schema : Table}

theorem rows_filter (shelf : Shelf) (name : String) (kept : Cell → Bool) :
    (shelf.rows name).filter (fun row => kept (row.cell (Schema.ownerColumn name))) =
      rows (shelf.filter fun deposit => kept (.text deposit.header.id)) name := by
  induction shelf with
  | nil => rfl
  | cons deposit shelf ih =>
      have owned : ∀ row ∈ tableRows name (deposit.document.rows deposit.snapshot),
          row.cell (Schema.ownerColumn name) = .text deposit.header.id :=
        deposit.document.rows_owned deposit.snapshot
      rw [rows, List.flatMap_cons, List.filter_append, ← rows, ih, List.filter_cons]
      cases keep : kept (.text deposit.header.id) with
      | true =>
          rw [List.filter_eq_self.mpr fun row isRow => by rw [owned row isRow, keep]]
          rfl
      | false =>
          rw [List.filter_eq_nil_iff.mpr fun row isRow => by rw [owned row isRow, keep]; simp]
          rfl

theorem filter_find (distinct : (shelf.map fun deposit => deposit.header.id).Nodup)
    (id : SnapshotId) :
    (shelf.filter fun deposit => deposit.header.id == id) = (shelf.find id).toList := by
  induction shelf with
  | nil => rfl
  | cons deposit shelf ih =>
      obtain ⟨new, distinct⟩ := List.nodup_cons.mp distinct
      rw [find, List.filter_cons, List.find?_cons, ← find]
      cases same : deposit.header.id == id with
      | true =>
          have others : (shelf.filter fun other => other.header.id == id) = [] := by
            refine List.filter_eq_nil_iff.mpr fun other member equal => new ?_
            exact List.mem_map.mpr
              ⟨other, member, (eq_of_beq equal).trans (eq_of_beq same).symm⟩
          simp [others]
      | false => simpa using ih distinct

theorem rows_apart (distinct : (shelf.map fun deposit => deposit.header.id).Nodup)
    (sound : ∀ deposit ∈ shelf, deposit.document.Sound)
    (member : (name, schema) ∈ Schema.stored) : (shelf.rows name).Pairwise schema.Apart := by
  refine List.pairwise_flatMap.mpr ⟨fun deposit isDeposit => ?_, ?_⟩
  · exact deposit.document.rows_apart (sound deposit isDeposit) deposit.snapshot member
  · refine (List.pairwise_map.mp distinct).imp fun {first second} different => ?_
    intro row isRow other isOther
    exact Schema.apart_of_owner_ne member
      (first.document.rows_owned first.snapshot row isRow)
      (second.document.rows_owned second.snapshot other isOther) different

theorem find_some {id : SnapshotId} {deposit : Deposit} (found : shelf.find id = some deposit) :
    deposit ∈ shelf ∧ deposit.header.id = id := by
  have same := List.find?_some found
  exact ⟨List.mem_of_find?_eq_some found, eq_of_beq same⟩

theorem find_filter (shelf : Shelf) {id other : SnapshotId} (different : other ≠ id) :
    find (shelf.filter fun deposit => deposit.header.id != id) other = shelf.find other := by
  rw [find, find, List.find?_filter]
  refine congrArg (List.find? · shelf) (funext fun deposit => ?_)
  by_cases same : deposit.header.id = other
  · simp [same, different]
  · simp [same]

theorem find_filter_none (kept : Deposit → Bool) {id : SnapshotId} (absent : shelf.find id = none) :
    find (shelf.filter kept) id = none :=
  List.find?_eq_none.mpr fun deposit member =>
    List.find?_eq_none.mp absent deposit (List.mem_of_mem_filter member)

theorem find_append_some {id : SnapshotId} {deposit : Deposit}
    (present : shelf.find id = some deposit) (added : Shelf) :
    find (shelf ++ added) id = some deposit := by
  rw [find, List.find?_append, ← find, present, Option.some_or]

theorem find_append_new {deposit : Deposit} (absent : shelf.find deposit.header.id = none) :
    find (shelf ++ [deposit]) deposit.header.id = some deposit := by
  rw [find, List.find?_append, ← find, absent]
  simp

theorem find_append_none {id : SnapshotId} {deposit : Deposit} (absent : shelf.find id = none)
    (different : deposit.header.id ≠ id) : find (shelf ++ [deposit]) id = none := by
  rw [find, List.find?_append, ← find, absent]
  simp [different]

theorem rows_singleton (deposit : Deposit) (name : String) :
    rows [deposit] name = tableRows name (deposit.document.rows deposit.snapshot) :=
  List.flatMap_singleton ..

theorem rows_append (first second : Shelf) (name : String) :
    rows (first ++ second) name = first.rows name ++ second.rows name :=
  List.flatMap_append

theorem rows_snapshots (shelf : Shelf) :
    shelf.rows "snapshots" = shelf.map fun deposit => deposit.snapshot.row := by
  rw [rows, List.map_eq_flatMap]
  exact congrArg (List.flatMap · shelf)
    (funext fun deposit => deposit.document.snapshots_rows deposit.snapshot)

end Shelf

/-! The store and its shelf. -/

structure Ledger.Stocks (ledger : Ledger) (shelf : Shelf) : Prop where
  log : ∃ time, (ledger "schema_migrations").map Prod.snd = Migration.all.map (·.logRow time)
  content : ∀ table ∈ Schema.stored, (ledger table.1).map Prod.snd = shelf.rows table.1
  distinct : (shelf.map fun deposit => deposit.header.id).Nodup
  sound : ∀ deposit ∈ shelf, deposit.document.Sound

namespace Ledger.Stocks

variable {ledger : Ledger} {shelf : Shelf} {id : SnapshotId} {name : String} {schema : Table}

theorem cell_log (stocks : ledger.Stocks shelf) :
    ∀ entry ∈ ledger "schema_migrations", entry.2.cell "snapshot_id" = .null := by
  obtain ⟨time, log⟩ := stocks.log
  intro entry member
  have row : entry.2 ∈ Migration.all.map (·.logRow time) := log ▸ List.mem_map_of_mem member
  obtain ⟨migration, _, same⟩ := List.mem_map.mp row
  rw [← same]
  rfl

theorem cell_owner (stocks : ledger.Stocks shelf)
    (member : (name, schema) ∈ Schema.stored) {entry : Int × Row} (isEntry : entry ∈ ledger name) :
    ∃ deposit ∈ shelf, entry.2.cell (Schema.ownerColumn name) = .text deposit.header.id := by
  have row : entry.2 ∈ shelf.rows name :=
    stocks.content _ member ▸ List.mem_map_of_mem isEntry
  obtain ⟨deposit, isDeposit, isRow⟩ := List.mem_flatMap.mp row
  exact ⟨deposit, isDeposit, deposit.document.rows_owned deposit.snapshot _ isRow⟩

theorem owned (stocks : ledger.Stocks shelf) :
    Database.Owned ledger (shelf.map fun deposit => deposit.header.id) := by
  refine ⟨?_, fun table isPart entry isEntry => ?_, stocks.cell_log⟩
  · have content := congrArg (List.map fun row : Row => row.cell "id")
      ((stocks.content _ Schema.snapshots_stored).trans shelf.rows_snapshots)
    rw [List.map_map, List.map_map] at content
    rw [List.map_map]
    exact content
  · obtain ⟨deposit, isDeposit, cell⟩ :=
      stocks.cell_owner (Schema.stored_of_part isPart) isEntry
    rw [Schema.ownerColumn_part isPart] at cell
    exact ⟨_, List.mem_map.mpr ⟨deposit, isDeposit, rfl⟩, cell⟩

theorem map_filter (stocks : ledger.Stocks shelf)
    (member : (name, schema) ∈ Schema.stored) (kept : Cell → Bool) :
    ((ledger name).filter fun entry => kept (entry.2.cell (Schema.ownerColumn name))).map Prod.snd =
      Shelf.rows (shelf.filter fun deposit => kept (.text deposit.header.id)) name := by
  rw [← Shelf.rows_filter, ← stocks.content _ member, List.filter_map]
  rfl

theorem map_of (stocks : ledger.Stocks shelf)
    (member : (name, schema) ∈ Schema.stored) (id : SnapshotId) :
    (ledger.of id name).map Prod.snd = Shelf.rows (shelf.find id).toList name := by
  rw [← Shelf.filter_find stocks.distinct]
  refine (stocks.map_filter member (· == .text id)).trans ?_
  simp only [Cell.text_beq]

theorem delete (stocks : ledger.Stocks shelf) (id : SnapshotId) :
    (ledger.without id).Stocks (shelf.filter fun deposit => deposit.header.id != id) := by
  constructor
  · rw [Ledger.without_log stocks.cell_log]
    exact stocks.log
  · intro table isTable
    refine (stocks.map_filter isTable (· != .text id)).trans ?_
    simp only [Cell.text_bne]
    rfl
  · exact (List.filter_sublist.map _).nodup stocks.distinct
  · exact fun deposit member => stocks.sound deposit (List.mem_of_mem_filter member)

theorem distinct_add (stocks : ledger.Stocks shelf) {deposit : Deposit}
    (fresh : shelf.find deposit.header.id = none) :
    ((shelf ++ [deposit]).map fun deposit => deposit.header.id).Nodup := by
  rw [List.map_append, List.map_singleton]
  refine List.nodup_append.mpr ⟨stocks.distinct, by simp, ?_⟩
  intro id isId other isOther
  obtain ⟨known, member, rfl⟩ := List.mem_map.mp isId
  rw [List.mem_singleton.mp isOther]
  simpa using List.find?_eq_none.mp fresh known member

theorem sound_add (stocks : ledger.Stocks shelf) {deposit : Deposit}
    (sound : deposit.document.Sound) : ∀ other ∈ shelf ++ [deposit], other.document.Sound := by
  intro other member
  rcases List.mem_append.mp member with old | new
  · exact stocks.sound other old
  · rw [List.mem_singleton.mp new]
    exact sound

theorem content_add (stocks : ledger.Stocks shelf) (deposit : Deposit)
    (member : (name, schema) ∈ Schema.stored) :
    (ledger name).map Prod.snd ++ tableRows name (deposit.document.rows deposit.snapshot) =
      Shelf.rows (shelf ++ [deposit]) name := by
  rw [Shelf.rows_append, Shelf.rows_singleton, stocks.content _ member]

theorem rows_apart_add (stocks : ledger.Stocks shelf) (deposit : Deposit)
    (fresh : shelf.find deposit.header.id = none) (sound : deposit.document.Sound)
    (member : (name, schema) ∈ Schema.stored) :
    ((ledger name).map Prod.snd ++
      tableRows name (deposit.document.rows deposit.snapshot)).Pairwise schema.Apart := by
  rw [stocks.content_add deposit member]
  exact Shelf.rows_apart (stocks.distinct_add fresh) (stocks.sound_add sound) member

theorem add (stocks : ledger.Stocks shelf) (deposit : Deposit)
    (fresh : shelf.find deposit.header.id = none) (sound : deposit.document.Sound)
    {later : Ledger}
    (grown : Database.Grown ledger later (deposit.document.rows deposit.snapshot)) :
    later.Stocks (shelf ++ [deposit]) := by
  constructor
  · obtain ⟨entries, same, rows⟩ := grown "schema_migrations"
    rw [ModelDocument.log_rows, List.map_eq_nil_iff] at rows
    rw [same, rows, List.append_nil]
    exact stocks.log
  · intro table isTable
    obtain ⟨entries, same, rows⟩ := grown table.1
    rw [same, List.map_append, rows, stocks.content_add deposit isTable]
  · exact stocks.distinct_add fresh
  · exact stocks.sound_add sound

end Ledger.Stocks

theorem Snapshot.ofRow_numbered (snapshot : Snapshot) (number : Int) :
    Snapshot.ofRow (Schema.migratedSnapshots.numbered number snapshot.row) = .ok snapshot := by
  obtain ⟨id, label, source, nodeCount, diagnosticCount, createdAt⟩ := snapshot
  cases source <;> rfl

namespace Database

variable {ledger : Ledger} {shelf : Shelf}

theorem requireColumns_snapshots (ledger : Ledger) :
    (Schema.migratedSnapshots.holding (ledger "snapshots")).requireColumns snapshotColumns =
      .ok () :=
  Table.requireColumns_holding _ _ _ (by decide)

theorem getSnapshot?_holding (stocks : ledger.Stocks shelf) (id : SnapshotId) :
    (holding ledger).getSnapshot? id = .ok ((shelf.find id).map Deposit.snapshot) := by
  have table := table_holding ledger Schema.snapshots_mem
  have selected : (holding ledger).select "snapshots" [("id", .text id)] [] = _ :=
    select_of Schema.snapshots_stored (fun entry isEntry => by
        obtain ⟨deposit, _, cell⟩ := stocks.cell_owner Schema.snapshots_stored isEntry
        exact ⟨_, cell⟩)
      id (by simp) (List.pairwise_of_forall fun _ _ => rfl)
  have mine := stocks.map_of Schema.snapshots_stored id
  rw [Shelf.rows_snapshots] at mine
  rw [getSnapshot?, bind_ok table, bind_ok (requireColumns_snapshots ledger), bind_ok selected]
  cases found : shelf.find id with
  | none =>
      rw [found, Option.toList_none, List.map_nil, List.map_eq_nil_iff] at mine
      rw [mine]
      rfl
  | some deposit =>
      rw [found, Option.toList_some, List.map_singleton] at mine
      obtain ⟨entry, only, row⟩ := List.map_eq_singleton_iff.mp mine
      have read := deposit.snapshot.ofRow_numbered entry.1
      rw [← row] at read
      rw [only, List.map_singleton]
      simp only [read]
      rfl

theorem loadDocument_holding (stocks : ledger.Stocks shelf) (id : SnapshotId) :
    (holding ledger).loadDocument id = .ok ((shelf.find id).map Deposit.document) := by
  rw [loadDocument, getSnapshot?_holding stocks]
  cases found : shelf.find id with
  | none => rfl
  | some deposit =>
      obtain ⟨member, same⟩ := Shelf.find_some found
      have keeps : ledger.Keeps deposit.document deposit.snapshot := by
        constructor
        · intro table isPart entry isEntry
          obtain ⟨owner, _, cell⟩ := stocks.owned.parts table isPart entry isEntry
          exact ⟨owner, cell⟩
        · intro table isPart
          have mine := stocks.map_of (Schema.stored_of_part isPart) id
          rw [found, Option.toList_some, Shelf.rows_singleton, ← same] at mine
          exact mine
      have read := readDocument_holding (stocks.sound deposit member) keeps
      have id : deposit.snapshot.id = id := same
      rw [id] at read
      simp only [Option.map_some, Except.mapError, bind, Except.bind, read]
      rfl

theorem deleteSnapshot_holding (stocks : ledger.Stocks shelf) (id : SnapshotId) :
    (holding ledger).deleteSnapshot id =
      .ok ((shelf.find id).isSome, holding (ledger.without id)) := by
  have count : ((shelf.map fun deposit => deposit.header.id).filter (· == id)).length =
      (shelf.find id).toList.length := by
    rw [← Shelf.filter_find stocks.distinct, List.filter_map, List.length_map]
    rfl
  rw [deleteSnapshot, delete_holding stocks.owned, count]
  cases shelf.find id <;> rfl

theorem migrate_stocked (stocks : ledger.Stocks shelf) (time : String) :
    (holding ledger).migrate time = (holding ledger, [], .ok ()) := by
  obtain ⟨_, log⟩ := stocks.log
  exact migrate_holding log time

theorem exists_migrated_empty (time : String) :
    ∃ (ledger : Ledger) (journal : List JournalEvent),
      empty.migrate time = (holding ledger, journal, .ok ()) ∧ ledger.Stocks [] ∧
        ledger "snapshots" = [] := by
  obtain ⟨ledger, journal, migrated, log, fresh⟩ := exists_migrate_empty time
  refine ⟨ledger, journal, migrated, ⟨⟨time, log⟩, fun table isTable => ?_, by simp, by simp⟩,
    fresh _ Schema.snapshots_stored⟩
  rw [fresh table isTable]
  rfl

theorem exists_save_holding (stocks : ledger.Stocks shelf) (header : SnapshotHeader)
    {model : FeatureModel} (fresh : shelf.find header.id = none) (sound : model.document.Sound) :
    let snapshot := header.snapshot model.document
    ∃ (number : Int) (later : Ledger),
      (holding ledger).save header model none = (holding later, .ok snapshot) ∧
      Table.Next ((ledger "snapshots").map Prod.fst) number ∧
      Grown (ledger.set "snapshots" (ledger "snapshots" ++ [(number, snapshot.row)])) later
        (model.document.parts header.id) := by
  intro snapshot
  have apart {name : String} {schema : Table} (member : (name, schema) ∈ Schema.stored) :=
    stocks.rows_apart_add { header, document := model.document } fresh sound member
  obtain ⟨number, next, inserted⟩ := exists_insert_holding Schema.snapshots_mem
    (Schema.fits_snapshot snapshot)
    (fun entry member => (List.pairwise_append.mp (apart Schema.snapshots_stored)).2.2 entry.2
      (List.mem_map_of_mem member) _
      (by simp [ModelDocument.snapshots_rows, Deposit.snapshot, snapshot]))
    (.inl rfl : Resolved ledger Schema.migratedSnapshots snapshot.row)
  obtain ⟨later, insertedAll, grown⟩ := exists_insertAll_holding (model.document.parts header.id)
    (ledger.set "snapshots" (ledger "snapshots" ++ [(number, snapshot.row)]))
    (fun row isRow => by
      obtain ⟨schema, member, fits, owned⟩ := model.document.parts_fit header.id row isRow
      have part := Schema.isPart_of_mem member
      have kept : (number, snapshot.row) ∈
          ledger.set "snapshots" (ledger "snapshots" ++ [(number, snapshot.row)]) "snapshots" := by
        simp
      exact ⟨schema, Schema.stored_of_part member, fits, .inr ⟨part.reference, part.column, _, kept,
        header.id, rfl, owned⟩⟩)
    (fun table isTable => by
      rw [map_set_append]
      exact apart isTable)
  refine ⟨number, later, ?_, next, grown⟩
  have performed : (holding ledger).insertAll none (model.document.insertions snapshot) =
      .ok (holding later) := by
    rw [sound.insertions_eq, ModelDocument.rows, List.map_cons, insertAll, if_neg (by simp),
      inserted]
    exact insertedAll
  rw [save, transact, performed]
  rfl

theorem save_taken (stocks : ledger.Stocks shelf) (header : SnapshotHeader) {other : Deposit}
    (taken : shelf.find header.id = some other) (model : FeatureModel) :
    (holding ledger).save header model none = (holding ledger, .error .duplicateKey) := by
  obtain ⟨member, same⟩ := Shelf.find_some taken
  have row : other.snapshot.row ∈ (ledger "snapshots").map Prod.snd := by
    rw [stocks.content _ Schema.snapshots_stored, Shelf.rows_snapshots]
    exact List.mem_map_of_mem member
  obtain ⟨entry, isEntry, isRow⟩ := List.mem_map.mp row
  have there : entry.2.cell "id" = .text header.id := by
    rw [isRow, ← same]
    rfl
  have refused : (Schema.migratedSnapshots.holding (ledger "snapshots")).insert
      (header.snapshot model.document).row = .error .duplicateKey :=
    Table.insert_of_shared_text (Schema.regular_of_mem Schema.snapshots_mem)
      (Schema.fits_snapshot _) (.optionalText "id") (by decide) rfl (by decide) isEntry there rfl
  have failed : (holding ledger).insertAll none
      (model.document.insertions (header.snapshot model.document)) = .error .duplicateKey := by
    rw [ModelDocument.insertions, List.cons_append, List.cons_append, insertAll,
      if_neg (by simp), insert, bind_ok (table_holding ledger Schema.snapshots_mem), refused]
    rfl
  rw [save, transact, failed]
  rfl

end Database

end FeatureAtlas
