import FeatureAtlas.Proofs.Store.Shelf

/-!
A store that several handles share, one turn at its lock after the other. A load gives the lock away
between looking its snapshot up and reading the rows. Where the snapshot is deleted in between, the
load answers with the empty document, which is neither the one that was saved nor none.
-/

namespace FeatureAtlas

/-- A turn at the lock of a store. A load takes two turns, any other call takes one. -/
inductive Turn where
  | call (call : StoreCall)
  | lookUp (handle : Nat) (id : SnapshotId)
  | read (handle : Nat)

namespace Turn

def loader? : Turn → Option Nat
  | .call _ => none
  | .lookUp handle _ | .read handle => some handle

def call? : Turn → Option StoreCall
  | .call made => some made
  | .lookUp _ _ | .read _ => none

end Turn

def callsOf (turns : List Turn) : List StoreCall := turns.filterMap Turn.call?

/-- A store and, for each handle between the two turns of a load, the snapshot that it found. -/
structure SharedStore where
  database : Database
  found : Nat → Option SnapshotId

namespace SharedStore

def opened (time : String) : SharedStore :=
  { database := (Database.empty.migrate time).1, found := fun _ => none }

def hold (shared : SharedStore) (handle : Nat) (id : Option SnapshotId) : SharedStore :=
  { shared with found := fun other => if other = handle then id else shared.found other }

def take (shared : SharedStore) : Turn → SharedStore × Option StoreAnswer
  | .call call =>
      let (database, answer) := shared.database.perform call
      ({ shared with database }, some answer)
  | .lookUp handle id =>
      match shared.database.getSnapshot? id with
      | .error error => (shared, some (.loaded (.error (.database error))))
      | .ok none => (shared, some (.loaded (.ok none)))
      | .ok (some _) => (shared.hold handle (some id), none)
  | .read handle =>
      match shared.found handle with
      | none => (shared, none)
      | some id =>
          (shared.hold handle none, some (.loaded ((shared.database.readDocument id).map some)))

def run (shared : SharedStore) : List Turn → SharedStore
  | [] => shared
  | turn :: rest => (shared.take turn).1.run rest

/-! Only calls change the store, and only its own turns a load. -/

theorem database_run (shared : SharedStore) (turns : List Turn) :
    (shared.run turns).database = (shared.database.run (callsOf turns)).1 := by
  induction turns generalizing shared with
  | nil => rfl
  | cons turn rest ih =>
      rw [run, ih]
      cases turn with
      | call call => rfl
      | lookUp handle id =>
          simp only [take, callsOf, List.filterMap_cons, Turn.call?]
          split <;> rfl
      | read handle =>
          simp only [take, callsOf, List.filterMap_cons, Turn.call?]
          split <;> rfl

theorem found_hold_other (shared : SharedStore) {handle other : Nat} (different : handle ≠ other)
    (id : Option SnapshotId) : (shared.hold other id).found handle = shared.found handle :=
  if_neg different

theorem found_take (shared : SharedStore) {turn : Turn} {handle : Nat}
    (other : turn.loader? ≠ some handle) :
    (shared.take turn).1.found handle = shared.found handle := by
  cases turn with
  | call call => rfl
  | lookUp loader id =>
      have different : handle ≠ loader := fun same => other (congrArg some same.symm)
      rw [take]
      split
      · rfl
      · rfl
      · exact shared.found_hold_other different _
  | read loader =>
      have different : handle ≠ loader := fun same => other (congrArg some same.symm)
      rw [take]
      split
      · rfl
      · exact shared.found_hold_other different _

theorem found_run (shared : SharedStore) {turns : List Turn} {handle : Nat}
    (others : ∀ turn ∈ turns, turn.loader? ≠ some handle) :
    (shared.run turns).found handle = shared.found handle := by
  induction turns generalizing shared with
  | nil => rfl
  | cons turn rest ih =>
      rw [run, ih _ fun later member => others later (List.mem_cons_of_mem _ member)]
      exact shared.found_take (others turn List.mem_cons_self)

end SharedStore

/-! What becomes of a snapshot on a shelf. -/

theorem Orderly.next {headers : List SnapshotHeader} {call : StoreCall} {rest : List StoreCall}
    (orderly : Orderly headers (call :: rest)) :
    (∀ header model, call = .save header model → header.Follows headers) ∧
      ∃ later, headers ⊆ later ∧ Orderly later rest := by
  cases call with
  | save header model =>
      obtain ⟨_, follows, orderly⟩ := orderly
      refine ⟨?_, headers ++ [header], List.subset_append_left _ _, orderly⟩
      rintro _ _ ⟨⟩
      exact follows
  | migrate time => exact ⟨nofun, headers, List.Subset.refl _, orderly⟩
  | get other => exact ⟨nofun, headers, List.Subset.refl _, orderly⟩
  | list => exact ⟨nofun, headers, List.Subset.refl _, orderly⟩
  | load other => exact ⟨nofun, headers, List.Subset.refl _, orderly⟩
  | delete other => exact ⟨nofun, headers, List.Subset.refl _, orderly⟩

namespace Shelf

variable {shelf : Shelf} {headers : List SnapshotHeader} {calls : List StoreCall} {id : SnapshotId}

theorem find_delete (shelf : Shelf) (id : SnapshotId) :
    (shelf.perform (.delete id)).1.find id = none := by
  rw [perform, find, List.find?_filter, List.find?_eq_none]
  simp

theorem find_perform_none {call : StoreCall} (absent : shelf.find id = none)
    (others : ∀ header model, call = .save header model → header.id ≠ id) :
    (shelf.perform call).1.find id = none := by
  cases call with
  | save header model => exact find_append_none absent (others header model rfl)
  | delete other => exact find_filter_none _ absent
  | migrate time => exact absent
  | get other => exact absent
  | list => exact absent
  | load other => exact absent

theorem find_perform_some {call : StoreCall} {deposit : Deposit}
    (present : shelf.find id = some deposit) (kept : call ≠ .delete id) :
    (shelf.perform call).1.find id = some deposit := by
  cases call with
  | save header model => exact find_append_some present _
  | delete other =>
      have different : id ≠ other := fun same => kept (same ▸ rfl)
      exact (find_filter shelf different).trans present
  | migrate time => exact present
  | get other => exact present
  | list => exact present
  | load other => exact present

theorem find_run_none (orderly : Orderly headers calls)
    (used : ∃ header ∈ headers, header.id = id) (absent : shelf.find id = none) :
    (shelf.run calls).1.find id = none := by
  induction calls generalizing shelf headers with
  | nil => exact absent
  | cons call rest ih =>
      obtain ⟨follows, later, more, orderly⟩ := orderly.next
      obtain ⟨known, member, rfl⟩ := used
      refine ih orderly ⟨known, more member, rfl⟩ (find_perform_none absent ?_)
      exact fun header model isSave => ((follows header model isSave).fresh known member).symm

theorem find_run_some (orderly : Orderly headers calls)
    (used : ∃ header ∈ headers, header.id = id) {deposit : Deposit}
    (present : shelf.find id = some deposit) :
    (.delete id ∈ calls → (shelf.run calls).1.find id = none) ∧
      (.delete id ∉ calls → (shelf.run calls).1.find id = some deposit) := by
  induction calls generalizing shelf headers with
  | nil => exact ⟨by simp, fun _ => present⟩
  | cons call rest ih =>
      obtain ⟨_, later, more, following⟩ := orderly.next
      obtain ⟨known, member, isId⟩ := used
      have used : ∃ header ∈ later, header.id = id := ⟨known, more member, isId⟩
      by_cases deletes : call = .delete id
      · subst deletes
        have gone : ((shelf.perform (.delete id)).1.run rest).1.find id = none :=
          find_run_none following used (shelf.find_delete id)
        exact ⟨fun _ => gone, by simp⟩
      · obtain ⟨gone, kept⟩ := ih following used (find_perform_some present deletes)
        exact ⟨fun member => gone ((List.mem_cons.mp member).resolve_left (Ne.symm deletes)),
          fun absent => kept fun member => absent (List.mem_cons_of_mem _ member)⟩

end Shelf

/-! The two turns of a load, at a store that is seen as a shelf. -/

namespace Database

variable {ledger : Ledger} {shelf : Shelf} {headers : List SnapshotHeader}

theorem exists_migrated (time : String) :
    ∃ ledger : Ledger, (empty.migrate time).1 = holding ledger ∧ ledger.Shelves [] [] := by
  obtain ⟨ledger, journal, migrated, ⟨log, content, distinct, sound⟩, none⟩ :=
    exists_migrated_empty time
  exact ⟨ledger, congrArg Prod.fst migrated, log, content, distinct, sound, by simp,
    by simp [none], by simp [none]⟩

theorem exists_run_before (shelves : ledger.Shelves shelf headers) {calls rest : List StoreCall}
    (orderly : Orderly headers (calls ++ rest)) :
    ∃ later saved, ((holding ledger).run calls).1 = holding later ∧
      later.Shelves (shelf.run calls).1 saved ∧ Orderly saved rest := by
  induction calls generalizing ledger shelf headers with
  | nil => exact ⟨ledger, headers, rfl, shelves, orderly⟩
  | cons call calls ih =>
      obtain ⟨next, saved, performed, shelved, following⟩ := exists_perform shelves orderly
      obtain ⟨later, all, ran, final⟩ := ih shelved following
      refine ⟨later, all, ?_, final⟩
      rw [run, performed]
      exact ran

theorem keeps_none (shelves : ledger.Shelves shelf headers) {snapshot : Snapshot}
    (absent : shelf.find snapshot.id = none) : ledger.Keeps {} snapshot := by
  constructor
  · intro table isPart entry isEntry
    obtain ⟨owner, _, cell⟩ := shelves.stocks.owned.parts table isPart entry isEntry
    exact ⟨owner, cell⟩
  · intro table isPart
    have mine := shelves.stocks.map_of (Schema.stored_of_part isPart) snapshot.id
    rw [absent, Option.toList_none] at mine
    rw [mine, ModelDocument.rows,
      tableRows_cons_other (Schema.isPart_of_mem isPart).other.symm]
    rfl

theorem readDocument_none (shelves : ledger.Shelves shelf headers) {id : SnapshotId}
    (absent : shelf.find id = none) : (holding ledger).readDocument id = .ok {} := by
  have sound : ({} : ModelDocument).Sound := ⟨.nil, nofun⟩
  obtain ⟨snapshot, rfl⟩ : ∃ snapshot : Snapshot, snapshot.id = id :=
    ⟨SnapshotHeader.snapshot ⟨id, "", "", none⟩ {}, rfl⟩
  exact readDocument_holding sound (keeps_none shelves absent)

theorem readDocument_some (shelves : ledger.Shelves shelf headers) {id : SnapshotId}
    {deposit : Deposit} (present : shelf.find id = some deposit) :
    (holding ledger).readDocument id = .ok deposit.document := by
  have loaded := loadDocument_holding shelves.stocks id
  rw [loadDocument, getSnapshot?_holding shelves.stocks, present] at loaded
  simp only [Option.map_some, Except.mapError, bind, Except.bind] at loaded
  cases read : (holding ledger).readDocument id with
  | error error => simp [read] at loaded
  | ok document => simpa [read, pure, Except.pure] using loaded

end Database

namespace SharedStore

variable {shared : SharedStore} {ledger : Ledger} {shelf : Shelf} {headers : List SnapshotHeader}
  {handle : Nat} {id : SnapshotId}

theorem take_lookUp_none (isHolding : shared.database = .holding ledger)
    (shelves : ledger.Shelves shelf headers) (absent : shelf.find id = none) :
    (shared.take (.lookUp handle id)).2 = some (.loaded (.ok none)) := by
  rw [take, isHolding, Database.getSnapshot?_holding shelves.stocks, absent]
  rfl

theorem take_lookUp_some (isHolding : shared.database = .holding ledger)
    (shelves : ledger.Shelves shelf headers) {deposit : Deposit}
    (present : shelf.find id = some deposit) :
    shared.take (.lookUp handle id) = (shared.hold handle (some id), none) := by
  rw [take, isHolding, Database.getSnapshot?_holding shelves.stocks, present]
  rfl

theorem take_read (isHolding : shared.database = .holding ledger)
    (shelves : ledger.Shelves shelf headers) (found : shared.found handle = some id) :
    (shared.take (.read handle)).2 =
      some (.loaded (.ok (some (((shelf.find id).map Deposit.document).getD {})))) := by
  rw [take, found, isHolding]
  cases onShelf : shelf.find id with
  | none =>
      simp only [Database.readDocument_none shelves onShelf]
      rfl
  | some deposit =>
      simp only [Database.readDocument_some shelves onShelf]
      rfl

theorem exists_started (time : String) {turns : List Turn} {rest : List StoreCall}
    (orderly : Orderly [] (callsOf turns ++ rest)) :
    ∃ ledger headers, ((opened time).run turns).database = .holding ledger ∧
      ledger.Shelves (Shelf.run [] (callsOf turns)).1 headers ∧ Orderly headers rest := by
  obtain ⟨migrated, isMigrated, fresh⟩ := Database.exists_migrated time
  obtain ⟨ledger, headers, ran, shelves, following⟩ := Database.exists_run_before fresh orderly
  refine ⟨ledger, headers, ?_, shelves, following⟩
  rw [database_run, opened, isMigrated, ran]

theorem exists_interrupted (shelves : ledger.Shelves shelf headers)
    (isHolding : shared.database = .holding ledger) {between : List Turn}
    (orderly : Orderly headers (callsOf between))
    (others : ∀ turn ∈ between, turn.loader? ≠ some handle) :
    ∃ later saved, ((shared.hold handle (some id)).run between).database = .holding later ∧
      ((shared.hold handle (some id)).run between).found handle = some id ∧
      later.Shelves (shelf.run (callsOf between)).1 saved := by
  have same : (shared.hold handle (some id)).database = .holding ledger := isHolding
  obtain ⟨later, saved, ran, final⟩ := Database.exists_run shelves orderly
  refine ⟨later, saved, ?_, ?_, final⟩
  · rw [database_run, same, ran]
  · rw [found_run _ others]
    exact if_pos rfl

/-- Whatever turns others take between the two turns of a load, it answers that there is no snapshot
or with the document that was saved, but for one case: a snapshot that is deleted between the turns
is answered with the empty document. -/
theorem load_answers_across_turns (time : String) {before between : List Turn} {handle : Nat}
    (id : SnapshotId) (orderly : Orderly [] (callsOf before ++ callsOf between))
    (others : ∀ turn ∈ between, turn.loader? ≠ some handle) :
    let started := (opened time).run before
    let lookedUp := started.take (.lookUp handle id)
    let answered := ((lookedUp.1.run between).take (.read handle)).2
    ((Shelf.run [] (callsOf before)).1.find id = none → lookedUp.2 = some (.loaded (.ok none))) ∧
      ∀ deposit, (Shelf.run [] (callsOf before)).1.find id = some deposit →
        lookedUp.2 = none ∧
        (.delete id ∉ callsOf between →
          answered = some (.loaded (.ok (some deposit.document)))) ∧
        (.delete id ∈ callsOf between → answered = some (.loaded (.ok (some {})))) := by
  obtain ⟨ledger, headers, isHolding, shelves, following⟩ := exists_started time orderly
  refine ⟨take_lookUp_none isHolding shelves, fun deposit present => ?_⟩
  obtain ⟨later, saved, nowHolding, waiting, final⟩ :=
    exists_interrupted shelves isHolding following others
  obtain ⟨member, isId⟩ := Shelf.find_some present
  obtain ⟨gone, kept⟩ :=
    Shelf.find_run_some following ⟨deposit.header, shelves.saved deposit member, isId⟩ present
  rw [take_lookUp_some isHolding shelves present]
  refine ⟨rfl, fun absent => ?_, fun deleted => ?_⟩
  · rw [take_read nowHolding final waiting, kept absent]
    rfl
  · rw [take_read nowHolding final waiting, gone deleted]
    rfl

def shopTurn (id : SnapshotId) : Turn :=
  .call (.save (Database.shopHeader id) Scan.shopScan.build)

theorem shop_load_keeps_first :
    let started := (opened "2024-01-01T09:00:00+00:00").run [shopTurn "first", shopTurn "second"]
    let interrupted := (started.take (.lookUp 0 "first")).1.run
      [.call (.delete "second"), .lookUp 1 "first"]
    (interrupted.take (.read 0)).2 =
      some (.loaded (.ok (some Scan.shopScan.build.document))) := by
  have orderly : Orderly [] (callsOf [shopTurn "first", shopTurn "second"] ++
      callsOf [.call (.delete "second"), .lookUp 1 "first"]) := by
    refine ⟨⟨_, rfl⟩, ⟨by simp, by simp, by simp⟩, ⟨_, rfl⟩, ⟨?_, ?_, ?_⟩, trivial⟩
    · simp [Database.shopHeader]
    · simp [Database.shopHeader]
    · simp [Table.greatestNumber]
  have others : ∀ turn ∈ [Turn.call (.delete "second"), .lookUp 1 "first"],
      turn.loader? ≠ some 0 := by simp [Turn.loader?]
  have loaded := (load_answers_across_turns "2024-01-01T09:00:00+00:00" "first" orderly others).2
    { header := Database.shopHeader "first", document := Scan.shopScan.build.document } rfl
  exact loaded.2.1 (by simp [callsOf, Turn.call?])

/-- A snapshot that is found, then deleted, and only then read. -/
theorem shop_load_empties :
    let started := (opened "2024-01-01T09:00:00+00:00").run [shopTurn "first"]
    let lookedUp := started.take (.lookUp 0 "first")
    let interrupted := lookedUp.1.run [.call (.delete "first")]
    lookedUp.2 = none ∧
      (interrupted.take (.read 0)).2 = some (.loaded (.ok (some {}))) ∧
      Scan.shopScan.build.document ≠ {} := by
  have orderly : Orderly [] (callsOf [shopTurn "first"] ++ callsOf [.call (.delete "first")]) :=
    ⟨⟨_, rfl⟩, ⟨by simp, by simp, by simp⟩, trivial⟩
  obtain ⟨ledger, headers, isHolding, shelves, following⟩ :=
    exists_started "2024-01-01T09:00:00+00:00" orderly
  have others : ∀ turn ∈ [Turn.call (.delete "first")], turn.loader? ≠ some 0 := by
    simp [Turn.loader?]
  obtain ⟨later, saved, nowHolding, waiting, final⟩ :=
    exists_interrupted shelves isHolding following others
  refine ⟨?_, ?_, ?_⟩
  · rw [take_lookUp_some isHolding shelves rfl]
  · rw [take_lookUp_some isHolding shelves rfl, take_read nowHolding final waiting]
    rfl
  · intro empty
    have nodes := congrArg (fun document => document.nodes.length) empty
    have keys := congrArg List.length Scan.shopScan.build_keys
    rw [FeatureModel.keys, List.length_map] at keys
    simp only [FeatureModel.document, List.length_map, keys] at nodes
    exact absurd nodes (by decide)

end SharedStore

end FeatureAtlas
