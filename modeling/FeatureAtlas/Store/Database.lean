import FeatureAtlas.Store.Table

/-!
A database: named tables whose references hold. An operation either succeeds or changes nothing.
-/

namespace FeatureAtlas

abbrev Insertion := Except DatabaseError (String × Row)

structure Database where
  tables : List (String × Table)
deriving DecidableEq, Repr

namespace Database

def empty : Database := { tables := [] }

def hasTable (database : Database) (name : String) : Bool :=
  (database.tables.lookup name).isSome

def table (database : Database) (name : String) : Except DatabaseError Table :=
  match database.tables.lookup name with
  | some table => .ok table
  | none => .error .noSuchTable

def createTable (database : Database) (name : String) (table : Table) : Database :=
  if database.hasTable name then database
  else { tables := database.tables ++ [(name, table)] }

def setTable (database : Database) (name : String) (table : Table) : Database :=
  { tables := database.tables.map fun (other, old) =>
      (other, if other == name then table else old) }

/-- Whether the row that another row names is there. A null names nothing. -/
def resolves (database : Database) (reference : Reference) (row : Row) : Bool :=
  row.cell reference.column == .null ||
    match database.tables.lookup reference.table with
    | some target =>
        target.rows.any fun other => other.cell reference.key == row.cell reference.column
    | none => false

def referencesHold (database : Database) (table : Table) (rows : List Row) : Bool :=
  match table.reference with
  | some reference => rows.all (database.resolves reference)
  | none => true

def allReferencesHold (database : Database) : Bool :=
  database.tables.all fun (_, table) => database.referencesHold table table.rows

def insert (database : Database) (name : String) (row : Row) : Except DatabaseError Database := do
  let table ← database.table name
  let inserted ← table.insert row
  if database.referencesHold table [table.fill row] then return database.setTable name inserted
  else .error .danglingReference

def follow (name : String) (removed : List Row) (table : Table) : Table :=
  match table.reference with
  | some reference =>
      if reference.table == name then
        { table with rows := table.rows.filter fun row =>
            !removed.any fun gone => gone.cell reference.key == row.cell reference.column }
      else table
  | none => table

def delete (database : Database) (name : String) (conditions : Row) :
    Except DatabaseError (Nat × Database) := do
  let table ← database.table name
  table.requireColumns (conditions.map Prod.fst)
  let removed := table.rows.filter fun row => row.satisfies conditions
  let kept := { table with rows := table.rows.filter fun row => !row.satisfies conditions }
  let remaining := (database.setTable name kept).tables.map fun (other, table) =>
    (other, follow name removed table)
  return (removed.length, { tables := remaining })

def update (database : Database) (name : String) (conditions : Row) (column : String)
    (value : Cell) : Except DatabaseError (Nat × Database) := do
  let table ← database.table name
  let (changed, updated) ← table.update conditions column value
  let result := database.setTable name updated
  if result.allReferencesHold then return (changed, result) else .error .danglingReference

def select (database : Database) (name : String) (conditions : Row) (order : List String) :
    Except DatabaseError (List Row) := do
  (← database.table name).select conditions order

/-- Inserts rows one after the other. `failing` is the number of an insertion that is made to
fail. -/
def insertAll (database : Database) (failing : Option Nat) :
    List Insertion → Except DatabaseError Database
  | [] => .ok database
  | .error error :: _ => .error error
  | .ok (name, row) :: rest =>
      if failing = some 0 then .error .interrupted
      else do (← database.insert name row).insertAll (failing.map (· - 1)) rest

def transact (database : Database) (failing : Option Nat) (insertions : List Insertion) :
    Database × Except DatabaseError Unit :=
  match database.insertAll failing insertions with
  | .ok changed => (changed, .ok ())
  | .error error => (database, .error error)

end Database

end FeatureAtlas
