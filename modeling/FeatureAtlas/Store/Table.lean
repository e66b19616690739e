import FeatureAtlas.Store.Cell

/-!
Tables with required columns, unique keys and at most one reference to another table. Rows keep the
order in which they were inserted, and they are numbered: their numbers stand in a column of their
own, where they can be changed like the cells of other columns.
-/

namespace FeatureAtlas

structure Column where
  name : String
  affinity : Affinity
  required : Bool
deriving DecidableEq, Repr

abbrev Row := List (String × Cell)

namespace Row

def numberColumn : String := "rowid"

def numberNames : List String := ["rowid", "oid", "_rowid_"]

def cell (row : Row) (column : String) : Cell := (row.lookup column).getD .null

def setCell (row : Row) (column : String) (cell : Cell) : Row :=
  row.map fun (name, old) => (name, if name == column then cell else old)

def satisfies (row : Row) (conditions : Row) : Bool :=
  conditions.all fun (column, value) => (row.cell column).same value

/-- Whether two rows agree in all columns of a key. Nulls agree with nothing. -/
def sharesKey (key : List String) (row other : Row) : Bool :=
  key.all fun column => row.cell column != .null && (row.cell column).same (other.cell column)

def number (row : Row) : Option Int :=
  match row.cell numberColumn with
  | .integer value => some value
  | _ => none

def precedes : List String → Row → Row → Bool
  | [], _, _ => true
  | column :: rest, row, other =>
      if (row.cell column).same (other.cell column) then precedes rest row other
      else (row.cell column).le (other.cell column)

end Row

structure Reference where
  column : String
  table : String
  key : String
deriving DecidableEq, Repr

structure Table where
  columns : List Column
  keys : List (List String)
  reference : Option Reference
  rows : List Row
deriving DecidableEq, Repr

namespace Table

def column? (table : Table) (name : String) : Option String :=
  let isMeant (other : String) := other.toLower == name.toLower
  ((table.columns.find? fun column => isMeant column.name).map Column.name) <|>
    (if Row.numberNames.any isMeant then some Row.numberColumn else none)

def findColumn (table : Table) (name : String) : Except DatabaseError String :=
  match table.column? name with
  | some found => .ok found
  | none => .error .noSuchColumn

def requireColumns (table : Table) (names : List String) : Except DatabaseError Unit :=
  names.forM fun name => (table.findColumn name).map fun _ => ()

def greatestNumber : Int := 0x7fffffffffffffff

def middleNumber (taken : List Int) : Int :=
  let candidates := (List.range (taken.length + 1)).map fun (offset : Nat) =>
    0x2000000000000000 + (offset : Int)
  (candidates.find? fun number => !taken.contains number).getD greatestNumber

/-- The number of the next row: one more than the greatest that is taken. Once the last number is
taken, it is one in the middle. -/
def nextNumber (table : Table) : Int :=
  let taken := table.rows.filterMap Row.number
  match taken.max? with
  | none => 1
  | some last => if last < greatestNumber then last + 1 else middleNumber taken

def fill (table : Table) (given : Row) : Row :=
  (Row.numberColumn, .integer table.nextNumber) ::
    table.columns.map fun column => (column.name, column.affinity.adapt (given.cell column.name))

def lacksValue (table : Table) (row : Row) : Bool :=
  table.columns.any fun column => column.required && row.cell column.name == .null

def allKeys (table : Table) : List (List String) := [Row.numberColumn] :: table.keys

def clashes (table : Table) (row : Row) : Bool :=
  table.allKeys.any fun key => table.rows.any fun other => row.sharesKey key other

def insert (table : Table) (given : Row) : Except DatabaseError Table := do
  table.requireColumns (given.map Prod.fst)
  let row := table.fill given
  if table.lacksValue row then .error .missingValue
  else if table.clashes row then .error .duplicateKey
  else return { table with rows := table.rows ++ [row] }

def keysHold (table : Table) : Bool :=
  table.allKeys.all fun key =>
    decide (table.rows.Pairwise fun row other => !row.sharesKey key other)

def affinityOf (table : Table) (name : String) : Affinity :=
  ((table.columns.find? fun column => column.name == name).map Column.affinity).getD .number

def accepts (column : String) (cell : Cell) : Bool :=
  match cell with
  | .integer _ => true
  | _ => column != Row.numberColumn

def update (table : Table) (conditions : Row) (column : String) (value : Cell) :
    Except DatabaseError (Nat × Table) := do
  table.requireColumns (conditions.map Prod.fst)
  let column ← table.findColumn column
  let cell := (table.affinityOf column).adapt value
  let changed := table.rows.filter fun row => row.satisfies conditions
  let updated := { table with
    rows := table.rows.map fun row =>
      if row.satisfies conditions then row.setCell column cell else row }
  if !changed.isEmpty && !accepts column cell then .error .wrongType
  else if changed.any fun row => table.lacksValue (row.setCell column cell) then
    .error .missingValue
  else if updated.keysHold then return (changed.length, updated)
  else .error .duplicateKey

def select (table : Table) (conditions : Row) (order : List String) :
    Except DatabaseError (List Row) := do
  table.requireColumns (order ++ conditions.map Prod.fst)
  return (table.rows.filter fun row => row.satisfies conditions).mergeSort (Row.precedes order)

def addColumn (table : Table) (column : Column) : Except DatabaseError Table :=
  if (table.column? column.name).isSome then .error .columnExists
  else .ok { table with
    columns := table.columns ++ [column]
    rows := table.rows.map fun row => row ++ [(column.name, .null)] }

end Table

end FeatureAtlas
