import FeatureAtlas.Proofs.Store.Resumption
import FeatureAtlas.Proofs.Store.Shelf

/-!
Saving as a connection does it: a transaction is begun, rows are inserted one after the other, and
the transaction is committed. Where an insertion fails, the transaction is dropped, and nothing is
left of what was inserted before.
-/

namespace FeatureAtlas

/-! When an insertion fails. -/

namespace Table

def Knows (table : Table) (row : Row) : Prop :=
  ∀ column ∈ row.map Prod.fst, (table.column? column).isSome

theorem exists_unknown {table : Table} {row : Row} (unknown : ¬table.Knows row) :
    ∃ column ∈ row.map Prod.fst, table.column? column = none := by
  simpa [Knows] using unknown

theorem requireColumns_of_known {table : Table} {names : List String}
    (known : ∀ name ∈ names, (table.column? name).isSome) :
    table.requireColumns names = .ok () := by
  induction names with
  | nil => rfl
  | cons name names ih =>
      obtain ⟨column, found⟩ := Option.isSome_iff_exists.mp (known name (by simp))
      have rest := ih fun other member => known other (by simp [member])
      rw [requireColumns] at rest ⊢
      rw [List.forM, findColumn, found, rest]
      rfl

theorem requireColumns_of_unknown {table : Table} {names : List String} {name : String}
    (member : name ∈ names) (unknown : table.column? name = none) :
    table.requireColumns names = .error .noSuchColumn := by
  induction names with
  | nil => cases member
  | cons first names ih =>
      rw [requireColumns, List.forM, findColumn]
      cases found : table.column? first with
      | none => rfl
      | some column =>
          rcases List.mem_cons.mp member with rfl | later
          · rw [found] at unknown
            cases unknown
          · exact ih later

theorem insert_of_known {table : Table} {row : Row} (known : table.Knows row) :
    table.insert row =
      if table.lacksValue (table.fill row) then .error .missingValue
      else if table.clashes (table.fill row) then .error .duplicateKey
      else .ok { table with rows := table.rows ++ [table.fill row] } := by
  rw [insert, bind_ok (requireColumns_of_known known)]
  rfl

end Table

namespace Database

inductive Refuses (database : Database) (name : String) (row : Row) : DatabaseError → Prop
  | noSuchTable : database.tables.lookup name = none → Refuses database name row .noSuchTable
  | noSuchColumn {table : Table} {column : String} :
      database.tables.lookup name = some table → column ∈ row.map Prod.fst →
        table.column? column = none → Refuses database name row .noSuchColumn
  | missingValue {table : Table} :
      database.tables.lookup name = some table → table.Knows row →
        table.lacksValue (table.fill row) = true → Refuses database name row .missingValue
  | duplicateKey {table : Table} :
      database.tables.lookup name = some table → table.Knows row →
        table.lacksValue (table.fill row) = false → table.clashes (table.fill row) = true →
        Refuses database name row .duplicateKey
  | danglingReference {table : Table} :
      database.tables.lookup name = some table → table.Knows row →
        table.lacksValue (table.fill row) = false → table.clashes (table.fill row) = false →
        database.referencesHold table [table.fill row] = false →
        Refuses database name row .danglingReference

theorem table_eq {database : Database} {name : String} {table : Table}
    (found : database.tables.lookup name = some table) : database.table name = .ok table := by
  rw [Database.table, found]

theorem insert_of_known {database : Database} {name : String} {row : Row} {table : Table}
    (found : database.tables.lookup name = some table) (known : table.Knows row) :
    database.insert name row =
      if table.lacksValue (table.fill row) then .error .missingValue
      else if table.clashes (table.fill row) then .error .duplicateKey
      else if database.referencesHold table [table.fill row] then
        .ok (database.setTable name { table with rows := table.rows ++ [table.fill row] })
      else .error .danglingReference := by
  rw [insert, bind_ok (table_eq found), Table.insert_of_known known]
  by_cases lacks : table.lacksValue (table.fill row) = true
  · rw [if_pos lacks, if_pos lacks]
    rfl
  · rw [if_neg lacks, if_neg lacks]
    by_cases clashes : table.clashes (table.fill row) = true
    · rw [if_pos clashes, if_pos clashes]
      rfl
    · rw [if_neg clashes, if_neg clashes]
      rfl

theorem insert_of_unknown {database : Database} {name column : String} {row : Row} {table : Table}
    (found : database.tables.lookup name = some table) (member : column ∈ row.map Prod.fst)
    (unknown : table.column? column = none) :
    database.insert name row = .error .noSuchColumn := by
  rw [insert, bind_ok (table_eq found), Table.insert,
    Table.requireColumns_of_unknown member unknown]
  rfl

theorem insert_of_missing {database : Database} {name : String} {row : Row}
    (missing : database.tables.lookup name = none) :
    database.insert name row = .error .noSuchTable := by
  rw [insert, Database.table, missing]
  rfl

theorem Refuses.insert_eq {database : Database} {name : String} {row : Row} {error : DatabaseError}
    (refused : database.Refuses name row error) : database.insert name row = .error error := by
  cases refused with
  | noSuchTable missing => exact insert_of_missing missing
  | noSuchColumn found member unknown => exact insert_of_unknown found member unknown
  | missingValue found known lacks => rw [insert_of_known found known, if_pos lacks]
  | duplicateKey found known complete clashes =>
      rw [insert_of_known found known, complete, clashes]
      rfl
  | danglingReference found known complete free dangling =>
      rw [insert_of_known found known, complete, free, dangling]
      rfl

theorem insert_error_iff {database : Database} {name : String} {row : Row} {error : DatabaseError} :
    database.insert name row = .error error ↔ database.Refuses name row error := by
  refine ⟨fun failed => ?_, Refuses.insert_eq⟩
  cases found : database.tables.lookup name with
  | none =>
      rw [insert_of_missing found] at failed
      cases failed
      exact .noSuchTable found
  | some table =>
      by_cases known : table.Knows row
      · rw [insert_of_known found known] at failed
        split at failed
        next lacks =>
          cases failed
          exact .missingValue found known lacks
        next complete =>
          rw [Bool.not_eq_true] at complete
          split at failed
          next clashes =>
            cases failed
            exact .duplicateKey found known complete clashes
          next free =>
            rw [Bool.not_eq_true] at free
            split at failed
            next => cases failed
            next dangling =>
              cases failed
              rw [Bool.not_eq_true] at dangling
              exact .danglingReference found known complete free dangling
      · obtain ⟨column, member, unknown⟩ := Table.exists_unknown known
        rw [insert_of_unknown found member unknown] at failed
        cases failed
        exact .noSuchColumn found member unknown

/-! Which insertion fails. -/

/-- Why an insertion fails: there is no row for it, it is made to fail, or its row is refused. -/
inductive Fails (database : Database) (stopped : Prop) : Insertion → DatabaseError → Prop
  | unmade {error : DatabaseError} : Fails database stopped (.error error) error
  | stopped {entry : String × Row} : stopped → Fails database stopped (.ok entry) .interrupted
  | refused {name : String} {row : Row} {error : DatabaseError} : ¬stopped →
      database.Refuses name row error → Fails database stopped (.ok (name, row)) error

/-- The insertion at a position is the first that fails: those before it lead to a database in which
it fails. -/
def FailsAt (database : Database) (failing : Option Nat) (insertions : List Insertion)
    (position : Nat) (error : DatabaseError) : Prop :=
  ∃ reached insertion, database.insertAll none (insertions.take position) = .ok reached ∧
    insertions[position]? = some insertion ∧ (∀ injected ∈ failing, position ≤ injected) ∧
    reached.Fails (failing = some position) insertion error

theorem fails_error_iff {database : Database} {stopped : Prop} {unmade error : DatabaseError} :
    database.Fails stopped (.error unmade) error ↔ unmade = error := by
  constructor
  · rintro ⟨⟩
    rfl
  · rintro rfl
    exact .unmade

theorem fails_ok_iff {database : Database} {stopped : Prop} {name : String} {row : Row}
    {error : DatabaseError} :
    database.Fails stopped (.ok (name, row)) error ↔
      stopped ∧ .interrupted = error ∨ ¬stopped ∧ database.insert name row = .error error := by
  constructor
  · intro fails
    cases fails with
    | stopped now => exact .inl ⟨now, rfl⟩
    | refused proceeds refuses => exact .inr ⟨proceeds, refuses.insert_eq⟩
  · rintro (⟨now, rfl⟩ | ⟨proceeds, refused⟩)
    · exact .stopped now
    · exact .refused proceeds (insert_error_iff.mp refused)

theorem fails_congr {database : Database} {stopped other : Prop} (same : stopped ↔ other)
    {insertion : Insertion} {error : DatabaseError} :
    database.Fails stopped insertion error ↔ database.Fails other insertion error := by
  rw [propext same]

theorem failsAt_zero {database : Database} {failing : Option Nat} {insertion : Insertion}
    {rest : List Insertion} {error : DatabaseError} :
    database.FailsAt failing (insertion :: rest) 0 error ↔
      database.Fails (failing = some 0) insertion error := by
  simp [FailsAt, insertAll]

theorem not_failsAt_succ {database : Database} {failing : Option Nat} {unmade : DatabaseError}
    {rest : List Insertion} {position : Nat} {error : DatabaseError} :
    ¬database.FailsAt failing (.error unmade :: rest) (position + 1) error := by
  rintro ⟨_, _, before, _⟩
  cases before

theorem insertAll_cons_ok_iff {database reached : Database} {name : String} {row : Row}
    {rest : List Insertion} :
    database.insertAll none (.ok (name, row) :: rest) = .ok reached ↔
      ∃ changed, database.insert name row = .ok changed ∧
        changed.insertAll none rest = .ok reached := by
  rw [insertAll, if_neg (by simp), Option.map_none]
  constructor
  · exact exists_of_bind
  · rintro ⟨changed, inserted, rest⟩
    rw [bind_ok inserted, rest]

theorem failsAt_succ {database : Database} {failing : Option Nat} {name : String} {row : Row}
    {rest : List Insertion} {position : Nat} {error : DatabaseError} :
    database.FailsAt failing (.ok (name, row) :: rest) (position + 1) error ↔
      failing ≠ some 0 ∧ ∃ changed, database.insert name row = .ok changed ∧
        changed.FailsAt (failing.map (· - 1)) rest position error := by
  have shifted : (∀ injected ∈ failing, position + 1 ≤ injected) ↔
      failing ≠ some 0 ∧ ∀ injected ∈ failing.map (· - 1), position ≤ injected := by
    cases failing with
    | none => simp
    | some injected => simp; omega
  have here (positive : failing ≠ some 0) :
      failing = some (position + 1) ↔ failing.map (· - 1) = some position := by
    cases failing with
    | none => simp
    | some injected =>
        have isPositive : injected ≠ 0 := by simpa using positive
        simp
        omega
  simp only [FailsAt, List.take_succ_cons, List.getElem?_cons_succ,
    insertAll_cons_ok_iff, shifted]
  constructor
  · rintro ⟨reached, insertion, ⟨changed, inserted, before⟩, isNext, ⟨positive, later⟩, fails⟩
    exact ⟨positive, changed, inserted, reached, insertion, before, isNext, later,
      (fails_congr (here positive)).mp fails⟩
  · rintro ⟨positive, changed, inserted, reached, insertion, before, isNext, later, fails⟩
    exact ⟨reached, insertion, ⟨changed, inserted, before⟩, isNext, ⟨positive, later⟩,
      (fails_congr (here positive)).mpr fails⟩

theorem insertAll_error_iff {database : Database} {failing : Option Nat}
    {insertions : List Insertion} {error : DatabaseError} :
    database.insertAll failing insertions = .error error ↔
      ∃ position, database.FailsAt failing insertions position error := by
  induction insertions generalizing database failing with
  | nil => simp [insertAll, FailsAt]
  | cons insertion rest ih =>
      rw [← Nat.or_exists_add_one, failsAt_zero]
      rcases insertion with unmade | ⟨name, row⟩
      · simp only [fails_error_iff, not_failsAt_succ, exists_false, or_false, insertAll,
          Except.error.injEq]
      · simp only [fails_ok_iff, failsAt_succ]
        rw [insertAll]
        by_cases injected : failing = some 0
        · simp [injected]
        · simp only [injected, if_false, false_and, ne_eq, not_false_eq_true, true_and, false_or]
          cases inserted : database.insert name row with
          | error refused =>
              constructor
              · exact .inl
              · rintro (same | ⟨_, _, none, _⟩)
                · exact same
                · cases none
          | ok changed =>
              refine ih.trans ⟨?_, ?_⟩
              · rintro ⟨position, fails⟩
                exact .inr ⟨position, changed, rfl, fails⟩
              · rintro (none | ⟨position, _, same, fails⟩)
                · cases none
                · cases same
                  exact ⟨position, fails⟩

theorem exists_error_of_injected (database : Database) {insertions : List Insertion}
    {injected : Nat} (bound : injected < insertions.length) :
    ∃ error, database.insertAll (some injected) insertions = .error error := by
  induction insertions generalizing database injected with
  | nil => cases bound
  | cons insertion rest ih =>
      rcases insertion with unmade | ⟨name, row⟩
      · exact ⟨unmade, rfl⟩
      · rw [insertAll]
        split
        · exact ⟨_, rfl⟩
        · rename_i positive
          have isPositive : injected ≠ 0 := by simpa using positive
          rw [List.length_cons] at bound
          have later : injected - 1 < rest.length := by omega
          cases database.insert name row with
          | error error => exact ⟨error, rfl⟩
          | ok changed => exact ih changed later

theorem exists_failsAt_of_injected {database : Database} {insertions : List Insertion}
    {injected : Nat} (bound : injected < insertions.length) :
    ∃ position ≤ injected, ∃ error, database.FailsAt (some injected) insertions position error := by
  obtain ⟨error, failed⟩ := exists_error_of_injected database bound
  obtain ⟨position, fails⟩ := insertAll_error_iff.mp failed
  obtain ⟨_, _, _, _, before, _⟩ := id fails
  exact ⟨position, before injected rfl, error, fails⟩

/-! Rows that are refused whatever is inserted before them. -/

/-- The table or a column is missing, or a stored row has one of the keys. The numbers of rows are
no part of it, for they are handed out anew. -/
def Blocks (database : Database) (name : String) (row : Row) : Prop :=
  ∀ table, database.tables.lookup name = some table → table.Knows row →
    ∃ key ∈ table.keys, Row.numberColumn ∉ key ∧
      ∃ other ∈ table.rows, (table.fill row).sharesKey key other = true

theorem Blocks.exists_error {database : Database} {name : String} {row : Row}
    (blocks : database.Blocks name row) : ∃ error, database.insert name row = .error error := by
  cases found : database.tables.lookup name with
  | none => exact ⟨_, insert_of_missing found⟩
  | some table =>
      by_cases known : table.Knows row
      · obtain ⟨key, isKey, _, other, member, shared⟩ := blocks table found known
        have clashes : table.clashes (table.fill row) = true :=
          List.any_eq_true.mpr ⟨key, List.mem_cons_of_mem _ isKey,
            List.any_eq_true.mpr ⟨other, member, shared⟩⟩
        rw [insert_of_known found known, clashes]
        split
        · exact ⟨_, rfl⟩
        · exact ⟨_, rfl⟩
      · obtain ⟨column, member, unknown⟩ := Table.exists_unknown known
        exact ⟨_, insert_of_unknown found member unknown⟩

theorem lookup_setTable (database : Database) (name other : String) (table : Table) :
    (database.setTable name table).tables.lookup other =
      (database.tables.lookup other).map fun old => if other = name then table else old := by
  rw [setTable]
  induction database.tables with
  | nil => rfl
  | cons entry rest ih =>
      obtain ⟨first, old⟩ := entry
      rw [List.map_cons, List.lookup_cons, List.lookup_cons, ih]
      by_cases here : other = first
      · simp [here]
      · simp [beq_false_of_ne here]

theorem sharesKey_fill_congr (changed table : Table) (columns : changed.columns = table.columns)
    {key : List String} (unnumbered : Row.numberColumn ∉ key) (row other : Row) :
    (changed.fill row).sharesKey key other = (table.fill row).sharesKey key other := by
  have cells (column : String) (member : column ∈ key) :
      (changed.fill row).cell column = (table.fill row).cell column := by
    have apart : column ≠ Row.numberColumn := fun same => unnumbered (same ▸ member)
    rw [Row.cell, Row.cell, Table.fill, Table.fill, columns, List.lookup_cons, List.lookup_cons,
      beq_false_of_ne apart]
  rw [Bool.eq_iff_iff, Row.sharesKey, Row.sharesKey, List.all_eq_true, List.all_eq_true]
  exact forall₂_congr fun column member => by rw [cells column member]

theorem Blocks.insert {database changed : Database} {name other : String} {row given : Row}
    (blocks : database.Blocks name row) (inserted : database.insert other given = .ok changed) :
    changed.Blocks name row := by
  obtain ⟨table, isTable, rfl⟩ := exists_of_insert inserted
  intro target isTarget known
  rw [lookup_setTable, Option.map_eq_some_iff] at isTarget
  obtain ⟨old, found, rfl⟩ := isTarget
  by_cases here : name = other
  · rw [if_pos here] at known ⊢
    have same : old = table := by
      rw [here] at found
      rw [table_eq found] at isTable
      exact Except.ok.inj isTable
    obtain ⟨key, isKey, unnumbered, stored, member, shared⟩ := blocks old found (same ▸ known)
    rw [same] at isKey member shared
    refine ⟨key, isKey, unnumbered, stored, List.mem_append_left _ member, ?_⟩
    rw [← shared]
    exact sharesKey_fill_congr { table with rows := table.rows ++ [table.fill given] } table rfl
      unnumbered row stored
  · rw [if_neg here] at known ⊢
    exact blocks old found known

def Bars (database : Database) : Insertion → Prop
  | .error _ => True
  | .ok (name, row) => database.Blocks name row

theorem Bars.insert {database changed : Database} {insertion : Insertion} {other : String}
    {given : Row} (bars : database.Bars insertion)
    (inserted : database.insert other given = .ok changed) : changed.Bars insertion := by
  rcases insertion with unmade | ⟨name, row⟩
  · exact bars
  · exact Blocks.insert bars inserted

theorem Bars.insertAll {database : Database} {failing : Option Nat} {insertions : List Insertion}
    {insertion : Insertion} (bars : database.Bars insertion) (member : insertion ∈ insertions) :
    ∃ error, database.insertAll failing insertions = .error error := by
  induction insertions generalizing database failing with
  | nil => cases member
  | cons first rest ih =>
      rcases first with unmade | ⟨other, given⟩
      · exact ⟨unmade, rfl⟩
      · rw [Database.insertAll]
        split
        · exact ⟨_, rfl⟩
        · cases inserted : database.insert other given with
          | error error => exact ⟨error, rfl⟩
          | ok changed =>
              rcases List.mem_cons.mp member with rfl | later
              · obtain ⟨error, refused⟩ := Blocks.exists_error bars
                rw [refused] at inserted
                cases inserted
              · exact ih (bars.insert inserted) later

end Database

/-! What a connection does. -/

/-- The tables as they were last committed, and what the open transaction, if there is one, has made
of them. The transaction is the one of a save: a handle that a failed migration has left inside
another one cannot begin it, so a save is looked at on a handle that has none. -/
structure Connection where
  committed : Database
  pending : Option Database := none
deriving DecidableEq, Repr

namespace Connection

variable {failing : Option Nat} {insertions : List Insertion}

def current (connection : Connection) : Database := connection.pending.getD connection.committed

def start (connection : Connection) : Connection :=
  { connection with pending := some connection.committed }

def write (connection : Connection) (changed : Database) : Connection :=
  match connection.pending with
  | some _ => { connection with pending := some changed }
  | none => { committed := changed }

def commit (connection : Connection) : Connection := { committed := connection.current }

def drop (connection : Connection) : Connection := { connection with pending := none }

def insertAll (connection : Connection) (failing : Option Nat) :
    List Insertion → Connection × Except DatabaseError Unit
  | [] => (connection, .ok ())
  | .error error :: _ => (connection, .error error)
  | .ok (name, row) :: rest =>
      if failing = some 0 then (connection, .error .interrupted)
      else
        match connection.current.insert name row with
        | .ok changed => (connection.write changed).insertAll (failing.map (· - 1)) rest
        | .error error => (connection, .error error)

def save (connection : Connection) (header : SnapshotHeader) (model : FeatureModel)
    (failing : Option Nat) : Connection × Except DatabaseError Snapshot :=
  let snapshot := header.snapshot model.document
  match connection.start.insertAll failing (model.document.insertions snapshot) with
  | (reached, .ok ()) => (reached.commit, .ok snapshot)
  | (reached, .error error) => (reached.drop, .error error)

theorem committed_write {connection : Connection} (started : connection.pending.isSome)
    (changed : Database) :
    (connection.write changed).committed = connection.committed ∧
      (connection.write changed).pending.isSome := by
  obtain ⟨working, isWorking⟩ := Option.isSome_iff_exists.mp started
  rw [write, isWorking]
  exact ⟨rfl, rfl⟩

theorem committed_insertAll {connection : Connection} (started : connection.pending.isSome)
    (failing : Option Nat) (insertions : List Insertion) :
    (connection.insertAll failing insertions).1.committed = connection.committed := by
  induction insertions generalizing connection failing with
  | nil => rfl
  | cons insertion rest ih =>
      rcases insertion with unmade | ⟨name, row⟩
      · rfl
      · rw [insertAll]
        split
        · rfl
        · cases connection.current.insert name row with
          | error error => rfl
          | ok changed =>
              obtain ⟨kept, stillStarted⟩ := committed_write started changed
              exact (ih stillStarted _).trans kept

theorem current_write (connection : Connection) (changed : Database) :
    (connection.write changed).current = changed := by
  rw [write]
  split
  · rfl
  · rfl

theorem insertAll_of_ok (connection : Connection) {changed : Database}
    (inserted : connection.current.insertAll failing insertions = .ok changed) :
    (connection.insertAll failing insertions).2 = .ok () ∧
      (connection.insertAll failing insertions).1.current = changed := by
  induction insertions generalizing connection failing with
  | nil => exact ⟨rfl, Except.ok.inj inserted⟩
  | cons insertion rest ih =>
      rcases insertion with unmade | ⟨name, row⟩
      · cases inserted
      · rw [Database.insertAll] at inserted
        rw [insertAll]
        split at inserted
        · cases inserted
        · rename_i proceeds
          obtain ⟨next, first, inserted⟩ := Database.exists_of_bind inserted
          rw [if_neg proceeds, first]
          exact ih _ (by rwa [current_write])

theorem insertAll_of_error (connection : Connection) {error : DatabaseError}
    (failed : connection.current.insertAll failing insertions = .error error) :
    (connection.insertAll failing insertions).2 = .error error := by
  induction insertions generalizing connection failing with
  | nil => cases failed
  | cons insertion rest ih =>
      rcases insertion with unmade | ⟨name, row⟩
      · cases failed
        rfl
      · rw [Database.insertAll] at failed
        rw [insertAll]
        split at failed
        · rename_i injected
          rw [if_pos injected, Except.error.inj failed]
        · rename_i proceeds
          rw [if_neg proceeds]
          cases first : connection.current.insert name row with
          | error refused =>
              rw [first] at failed
              cases failed
              rfl
          | ok next =>
              rw [first] at failed
              exact ih _ (by rwa [current_write])

section

variable {database : Database} {header : SnapshotHeader} {model : FeatureModel}

theorem save_of_ok {changed : Database} (inserted : database.insertAll failing
      (model.document.insertions (header.snapshot model.document)) = .ok changed) :
    ({ committed := database } : Connection).save header model failing =
      ({ committed := changed }, .ok (header.snapshot model.document)) := by
  let started := ({ committed := database } : Connection).start
  obtain ⟨succeeded, isChanged⟩ := insertAll_of_ok started inserted
  have outcome : started.insertAll failing
      (model.document.insertions (header.snapshot model.document)) =
      ((started.insertAll failing _).1, .ok ()) := Prod.ext rfl succeeded
  rw [save]
  simp only [started] at outcome isChanged
  rw [outcome]
  simp only [commit, isChanged]

theorem save_of_error {error : DatabaseError} (failed : database.insertAll failing
      (model.document.insertions (header.snapshot model.document)) = .error error) :
    ({ committed := database } : Connection).save header model failing =
      ({ committed := database }, .error error) := by
  let started := ({ committed := database } : Connection).start
  have kept : (started.insertAll failing _).1.committed = database :=
    committed_insertAll rfl failing (model.document.insertions (header.snapshot model.document))
  have outcome : started.insertAll failing
      (model.document.insertions (header.snapshot model.document)) =
      ((started.insertAll failing _).1, .error error) :=
    Prod.ext rfl (insertAll_of_error started failed)
  rw [save]
  simp only [started] at outcome kept
  rw [outcome]
  simp only [drop, kept]

theorem save_eq : ({ committed := database } : Connection).save header model failing =
    ({ committed := (database.save header model failing).1 },
      (database.save header model failing).2) := by
  rw [Database.save]
  simp only [Database.transact]
  cases result : database.insertAll failing
      (model.document.insertions (header.snapshot model.document)) with
  | ok changed => exact save_of_ok result
  | error error => exact save_of_error result

theorem save_error_iff {error : DatabaseError} :
    (({ committed := database } : Connection).save header model failing).2 = .error error ↔
      database.insertAll failing (model.document.insertions (header.snapshot model.document)) =
        .error error := by
  constructor
  · intro failed
    cases result : database.insertAll failing
        (model.document.insertions (header.snapshot model.document)) with
    | ok changed =>
        rw [save_of_ok result] at failed
        cases failed
    | error other =>
        rw [save_of_error result] at failed
        cases failed
        rfl
  · intro failed
    rw [save_of_error failed]

end

/-- A save fails with the error of its first statement that fails, and then it leaves the tables as
they were, so that all later calls are answered as if it had not been tried. A statement fails at
the latest where one is made to fail; and some statement fails where the table or a column of one is
missing or its key is taken beforehand. The handle is one without an open transaction. -/
theorem save_leaves_no_trace (database : Database) (header : SnapshotHeader) (model : FeatureModel)
    (failing : Option Nat) :
    let insertions := model.document.insertions (header.snapshot model.document)
    let saved := ({ committed := database } : Connection).save header model failing
    (∀ position error, database.FailsAt failing insertions position error →
        saved = ({ committed := database }, .error error) ∧
          ∀ calls, saved.1.committed.run calls = database.run calls) ∧
      (∀ error, saved.2 = .error error ↔
        ∃ position, database.FailsAt failing insertions position error) ∧
      (∀ injected < insertions.length, failing = some injected →
        ∃ position ≤ injected, ∃ error, database.FailsAt failing insertions position error) ∧
      (∀ insertion ∈ insertions, database.Bars insertion →
        ∃ position error, database.FailsAt failing insertions position error) ∧
      saved = ({ committed := (database.save header model failing).1 },
        (database.save header model failing).2) := by
  intro insertions saved
  refine ⟨?_, ?_, ?_, ?_, save_eq⟩
  · intro position error fails
    have undone : saved = ({ committed := database }, .error error) :=
      save_of_error (Database.insertAll_error_iff.mpr ⟨position, fails⟩)
    exact ⟨undone, fun calls => by rw [undone]⟩
  · exact fun error => save_error_iff.trans Database.insertAll_error_iff
  · rintro injected bound rfl
    exact Database.exists_failsAt_of_injected bound
  · intro insertion member bars
    obtain ⟨error, failed⟩ := bars.insertAll member
    obtain ⟨position, fails⟩ := Database.insertAll_error_iff.mp failed
    exact ⟨position, error, fails⟩

def halfMigrated : Database := { tables := Schema.tables }

def salesModel : FeatureModel where
  nodes := [{
    key := { name := "Sales", granularity := .module }
    members := [{ qualifiedName := "Shop" }]
    children := []
    parents := [] }]
  index := { entries := [({ name := "Sales", granularity := .module }, 0)] }

theorem sales_not_saved :
    ({ committed := halfMigrated } : Connection).save (Database.shopHeader "first") salesModel
          none =
        ({ committed := halfMigrated }, .error .noSuchColumn) ∧
      ∃ error, ({ committed := Database.holding fun _ => [] } : Connection).save
          (Database.shopHeader "first") salesModel (some 1) =
        ({ committed := Database.holding fun _ => [] }, .error error) := by
  have unknown : Schema.snapshots.column? "source" = none := by decide +kernel
  have refused : halfMigrated.Refuses "snapshots"
      ((Database.shopHeader "first").snapshot salesModel.document).row .noSuchColumn :=
    .noSuchColumn rfl (List.mem_map_of_mem (a := ("source", .text "shop.json")) (by decide)) unknown
  constructor
  · obtain ⟨undone, _⟩ := save_leaves_no_trace halfMigrated (Database.shopHeader "first")
      salesModel none
    exact (undone 0 _ (Database.failsAt_zero.mpr (.refused (by simp) refused))).1
  · obtain ⟨undone, _, stopped, _⟩ := save_leaves_no_trace (Database.holding fun _ => [])
      (Database.shopHeader "first") salesModel (some 1)
    obtain ⟨position, _, error, fails⟩ := stopped 1 (by decide) rfl
    exact ⟨error, (undone position error fails).1⟩

end Connection

end FeatureAtlas
