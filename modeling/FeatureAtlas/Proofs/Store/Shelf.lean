import FeatureAtlas.Proofs.Model.Coherence
import FeatureAtlas.Proofs.Model.Containment
import FeatureAtlas.Proofs.Store.Stock

/-!
A store of models is a shelf of documents. Whatever is asked of a migrated store, one call after the
other, it answers as a list does to which documents are added at the end and from which they are
taken out by their identifiers.
-/

namespace FeatureAtlas

inductive StoreCall where
  | migrate (time : String)
  | save (header : SnapshotHeader) (model : FeatureModel)
  | get (id : SnapshotId)
  | list
  | load (id : SnapshotId)
  | delete (id : SnapshotId)

inductive StoreAnswer where
  | migrated (result : Except DatabaseError Unit)
  | saved (result : Except DatabaseError Snapshot)
  | found (result : Except DatabaseError (Option Snapshot))
  | listed (result : Except DatabaseError (List Snapshot))
  | loaded (result : Except StoreError (Option ModelDocument))
  | deleted (result : Except DatabaseError Bool)

namespace Database

def perform (database : Database) : StoreCall → Database × StoreAnswer
  | .migrate time => ((database.migrate time).1, .migrated (database.migrate time).2.2)
  | .save header model =>
      ((database.save header model none).1, .saved (database.save header model none).2)
  | .get id => (database, .found (database.getSnapshot? id))
  | .list => (database, .listed database.listSnapshots)
  | .load id => (database, .loaded (database.loadDocument id))
  | .delete id =>
      match database.deleteSnapshot id with
      | .ok (found, remaining) => (remaining, .deleted (.ok found))
      | .error error => (database, .deleted (.error error))

def run (database : Database) : List StoreCall → Database × List StoreAnswer
  | [] => (database, [])
  | call :: rest =>
      let (changed, answer) := database.perform call
      let (final, answers) := changed.run rest
      (final, answer :: answers)

end Database

namespace Shelf

def perform (shelf : Shelf) : StoreCall → Shelf × StoreAnswer
  | .migrate _ => (shelf, .migrated (.ok ()))
  | .save header model =>
      (shelf ++ [{ header, document := model.document }],
        .saved (.ok (header.snapshot model.document)))
  | .get id => (shelf, .found (.ok ((shelf.find id).map Deposit.snapshot)))
  | .list => (shelf, .listed (.ok (shelf.map Deposit.snapshot)))
  | .load id => (shelf, .loaded (.ok ((shelf.find id).map Deposit.document)))
  | .delete id =>
      (shelf.filter fun deposit => deposit.header.id != id,
        .deleted (.ok (shelf.find id).isSome))

def run (shelf : Shelf) : List StoreCall → Shelf × List StoreAnswer
  | [] => (shelf, [])
  | call :: rest =>
      let (changed, answer) := shelf.perform call
      let (final, answers) := changed.run rest
      (final, answer :: answers)

end Shelf

/-- The identifier of a snapshot is new, and the clock has not gone backwards. Where it stands
still, the row numbers must not have come to their end. -/
structure SnapshotHeader.Follows (header : SnapshotHeader) (earlier : List SnapshotHeader) :
    Prop where
  fresh : ∀ other ∈ earlier, other.id ≠ header.id
  later : ∀ other ∈ earlier, other.createdAt ≤ header.createdAt
  counted : ∀ other ∈ earlier, other.createdAt = header.createdAt →
    (earlier.length : Int) < Table.greatestNumber

/-- Calls that save built models only, with headers that follow those of the saves before them. -/
def Orderly (earlier : List SnapshotHeader) : List StoreCall → Prop
  | [] => True
  | .save header model :: rest =>
      (∃ scan : Scan, model = scan.build) ∧ header.Follows earlier ∧
        Orderly (earlier ++ [header]) rest
  | _ :: rest => Orderly earlier rest

theorem Scan.document_sound (scan : Scan) : scan.build.document.Sound := by
  have woven := scan.build_coherent.toWoven
  have keys : scan.build.document.nodes.map NodeRecord.key = scan.build.keys := by
    rw [FeatureModel.document, FeatureModel.keys, List.map_map]
    rfl
  constructor
  · rw [keys]
    exact woven.distinct
  · intro record isRecord child isChild
    obtain ⟨node, isNode, rfl⟩ := List.mem_map.mp isRecord
    obtain ⟨target, isTarget, rfl⟩ := List.mem_map.mp isChild
    obtain ⟨index, bound, rfl⟩ := List.getElem_of_mem isNode
    have edge : target ∈ scan.build.childIndices index := by
      simpa [FeatureModel.childIndices, bound] using isTarget
    rw [keys]
    exact FeatureModel.mem_keys_of_lt (woven.inRange edge).2

/-! The order of a shelf. -/

def ListedBefore (earlier later : Int × Row) : Prop :=
  ∃ first second, earlier.2.cell "created_at" = .text first ∧
    later.2.cell "created_at" = .text second ∧ first ≤ second ∧
      (first = second → earlier.1 < later.1)

/-- A ledger with the documents of a shelf, which have been saved under some of the headers. -/
structure Ledger.Shelves (ledger : Ledger) (shelf : Shelf) (headers : List SnapshotHeader) :
    Prop where
  log : ∃ time, (ledger "schema_migrations").map Prod.snd = Migration.all.map (·.logRow time)
  content : ∀ table ∈ Schema.stored, (ledger table.1).map Prod.snd = shelf.rows table.1
  distinct : (shelf.map fun deposit => deposit.header.id).Nodup
  sound : ∀ deposit ∈ shelf, deposit.document.Sound
  saved : ∀ deposit ∈ shelf, deposit.header ∈ headers
  listed : (ledger "snapshots").Pairwise ListedBefore
  counted : (headers.length : Int) ≤ Table.greatestNumber →
    ∀ entry ∈ ledger "snapshots", entry.1 ≤ headers.length

namespace Ledger.Shelves

variable {ledger : Ledger} {shelf : Shelf} {headers : List SnapshotHeader} {id : SnapshotId}
  {name : String} {schema : Table}

theorem stocks (shelves : ledger.Shelves shelf headers) : ledger.Stocks shelf :=
  ⟨shelves.log, shelves.content, shelves.distinct, shelves.sound⟩

theorem delete (shelves : ledger.Shelves shelf headers) (id : SnapshotId) :
    (ledger.without id).Shelves (shelf.filter fun deposit => deposit.header.id != id) headers := by
  obtain ⟨log, content, distinct, sound⟩ := shelves.stocks.delete id
  refine ⟨log, content, distinct, sound, ?_, ?_, ?_⟩
  · exact fun deposit member => shelves.saved deposit (List.mem_of_mem_filter member)
  · exact shelves.listed.filter _
  · exact fun room entry member => shelves.counted room entry (List.mem_of_mem_filter member)

theorem find_fresh (shelves : ledger.Shelves shelf headers) {header : SnapshotHeader}
    (follows : header.Follows headers) : shelf.find header.id = none := by
  refine List.find?_eq_none.mpr fun deposit member => ?_
  simpa using follows.fresh _ (shelves.saved deposit member)

theorem next_after (shelves : ledger.Shelves shelf headers) {number : Int}
    (next : Table.Next ((ledger "snapshots").map Prod.fst) number)
    (room : (headers.length : Int) < Table.greatestNumber) :
    number ≤ headers.length + 1 ∧ ∀ other ∈ (ledger "snapshots").map Prod.fst, other < number := by
  refine next.after headers.length (by omega) room fun other isOther => ?_
  obtain ⟨entry, isEntry, rfl⟩ := List.mem_map.mp isOther
  exact shelves.counted (by omega) entry isEntry

theorem listed_add (shelves : ledger.Shelves shelf headers) {deposit : Deposit}
    (follows : deposit.header.Follows headers) {number : Int}
    (next : Table.Next ((ledger "snapshots").map Prod.fst) number) :
    ∀ entry ∈ ledger "snapshots", ListedBefore entry (number, deposit.snapshot.row) := by
  intro entry member
  have row : entry.2 ∈ shelf.rows "snapshots" :=
    shelves.content _ Schema.snapshots_stored ▸ List.mem_map_of_mem member
  rw [Shelf.rows_snapshots] at row
  obtain ⟨known, isKnown, same⟩ := List.mem_map.mp row
  have saved := shelves.saved known isKnown
  refine ⟨known.header.createdAt, deposit.header.createdAt, same ▸ rfl, rfl,
    follows.later _ saved, fun tie => ?_⟩
  have room := follows.counted _ saved tie
  exact (shelves.next_after next room).2 entry.1 (List.mem_map_of_mem member)

theorem add (shelves : ledger.Shelves shelf headers) (deposit : Deposit)
    (follows : deposit.header.Follows headers) (sound : deposit.document.Sound)
    {number : Int} (next : Table.Next ((ledger "snapshots").map Prod.fst) number) {later : Ledger}
    (grown : Database.Grown (ledger.set "snapshots" (ledger "snapshots" ++
      [(number, deposit.snapshot.row)])) later (deposit.document.parts deposit.header.id)) :
    later.Shelves (shelf ++ [deposit]) (headers ++ [deposit.header]) := by
  have snapshots : later "snapshots" = ledger "snapshots" ++ [(number, deposit.snapshot.row)] := by
    obtain ⟨entries, same, rows⟩ := grown "snapshots"
    rw [ModelDocument.snapshots_parts, List.map_eq_nil_iff] at rows
    rw [same, rows, List.append_nil, Ledger.set_same]
  obtain ⟨log, content, distinct, sound⟩ :=
    shelves.stocks.add deposit (shelves.find_fresh follows) sound grown.cons
  refine ⟨log, content, distinct, sound, ?_, ?_, ?_⟩
  · intro other member
    rcases List.mem_append.mp member with old | new
    · exact List.mem_append_left _ (shelves.saved other old)
    · exact List.mem_append_right _ (by simp [List.mem_singleton.mp new])
  · rw [snapshots]
    refine List.pairwise_append.mpr ⟨shelves.listed, by simp, fun entry member other last => ?_⟩
    rw [List.mem_singleton.mp last]
    exact shelves.listed_add follows next entry member
  · -- numbers are only counted up to where a number in the middle would be taken
    rw [snapshots, List.length_append, List.length_singleton]
    intro room entry member
    rcases List.mem_append.mp member with old | new
    · have := shelves.counted (by omega) entry old
      omega
    · have := (shelves.next_after next (by omega)).1
      rw [List.mem_singleton.mp new]
      omega

end Ledger.Shelves

namespace Database

variable {ledger : Ledger} {shelf : Shelf} {headers : List SnapshotHeader}

theorem precedes_of_listedBefore {earlier later : Int × Row} (before : ListedBefore earlier later) :
    Row.precedes ["created_at", Row.numberColumn]
      (Schema.migratedSnapshots.numbered earlier.1 earlier.2)
      (Schema.migratedSnapshots.numbered later.1 later.2) = true := by
  obtain ⟨first, second, cellFirst, cellSecond, ordered, tie⟩ := before
  have regular := Schema.regular_of_mem Schema.snapshots_mem
  have column : Column.requiredText "created_at" ∈ Schema.migratedSnapshots.columns := by decide
  have storedFirst : (Schema.migratedSnapshots.numbered earlier.1 earlier.2).cell "created_at" =
      .text first := regular.cell_text column rfl cellFirst earlier.1
  have storedSecond : (Schema.migratedSnapshots.numbered later.1 later.2).cell "created_at" =
      .text second := regular.cell_text column rfl cellSecond later.1
  rw [Row.precedes, storedFirst, storedSecond, Cell.same_text]
  by_cases same : first = second
  · have less := tie same
    have different : earlier.1 ≠ later.1 := by omega
    have below : earlier.1 ≤ later.1 := by omega
    simp [same, Row.precedes, different, Cell.le, below]
  · simp [same, Cell.le, ordered]

theorem listSnapshots_holding (shelves : ledger.Shelves shelf headers) :
    (holding ledger).listSnapshots = .ok (shelf.map Deposit.snapshot) := by
  have table := table_holding ledger Schema.snapshots_mem
  have selected := Table.select_holding Schema.migratedSnapshots (ledger "snapshots") []
    ["created_at", Row.numberColumn] (by decide) (fun _ => true) (fun _ _ => rfl)
    ((shelves.listed.filter _).imp precedes_of_listedBefore)
  have content := (shelves.content _ Schema.snapshots_stored).trans shelf.rows_snapshots
  have read := mapM_entries content fun number deposit _ => deposit.snapshot.ofRow_numbered number
  rw [List.filter_true] at selected
  rw [listSnapshots, bind_ok table, bind_ok (requireColumns_snapshots ledger), select,
    bind_ok table, bind_ok selected]
  exact read

theorem exists_perform (shelves : ledger.Shelves shelf headers) {call : StoreCall}
    {rest : List StoreCall} (orderly : Orderly headers (call :: rest)) :
    ∃ later saved, (holding ledger).perform call = (holding later, (shelf.perform call).2) ∧
      later.Shelves (shelf.perform call).1 saved ∧ Orderly saved rest := by
  cases call with
  | migrate time =>
      refine ⟨ledger, headers, ?_, shelves, orderly⟩
      rw [perform, migrate_stocked shelves.stocks]
      rfl
  | save header model =>
      obtain ⟨⟨scan, rfl⟩, follows, orderly⟩ := orderly
      obtain ⟨number, later, saved, next, grown⟩ := exists_save_holding shelves.stocks header
        (shelves.find_fresh follows) scan.document_sound
      have shelved := shelves.add { header, document := scan.build.document } follows
        scan.document_sound next grown
      refine ⟨later, headers ++ [header], ?_, shelved, orderly⟩
      rw [perform, saved]
      rfl
  | get id =>
      refine ⟨ledger, headers, ?_, shelves, orderly⟩
      rw [perform, getSnapshot?_holding shelves.stocks]
      rfl
  | list =>
      refine ⟨ledger, headers, ?_, shelves, orderly⟩
      rw [perform, listSnapshots_holding shelves]
      rfl
  | load id =>
      refine ⟨ledger, headers, ?_, shelves, orderly⟩
      rw [perform, loadDocument_holding shelves.stocks]
      rfl
  | delete id =>
      refine ⟨ledger.without id, headers, ?_, shelves.delete id, orderly⟩
      rw [perform, deleteSnapshot_holding shelves.stocks]
      rfl

theorem exists_run (shelves : ledger.Shelves shelf headers) {calls : List StoreCall}
    (orderly : Orderly headers calls) :
    ∃ later saved, (holding ledger).run calls = (holding later, (shelf.run calls).2) ∧
      later.Shelves (shelf.run calls).1 saved := by
  induction calls generalizing ledger shelf headers with
  | nil => exact ⟨ledger, headers, rfl, shelves⟩
  | cons call rest ih =>
      obtain ⟨next, saved, performed, shelved, orderly⟩ := exists_perform shelves orderly
      obtain ⟨later, all, ran, final⟩ := ih shelved orderly
      refine ⟨later, all, ?_, final⟩
      rw [run, performed]
      simp only [ran]
      rfl

/-! A store from its first migration on. -/

def shopHeader (id : SnapshotId) : SnapshotHeader :=
  { id, createdAt := "2024-01-01T10:00:00+00:00", label := "shop", source := some "shop.json" }

end Database

end FeatureAtlas
