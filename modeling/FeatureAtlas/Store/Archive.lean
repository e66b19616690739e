import FeatureAtlas.Json.Reader
import FeatureAtlas.Json.Printer
import FeatureAtlas.Store.Schema

/-!
The text in which a store is kept on a disk: a heading, and its tables as one JSON value.
-/

namespace FeatureAtlas

namespace Archive

def heading : String := "model store\n"

def integerToJson (value : Int) : Json :=
  .number { negative := value < 0, whole := value.natAbs, fraction := [], exponent := none }

/-- A double is written as its numerator and its denominator, and an infinity as whether it is
negative. -/
def cellToJson : Cell → Json
  | .null => .null
  | .integer value => integerToJson value
  | .real (.finite value) => .array [integerToJson value.num, .natural value.den]
  | .real (.infinite negative) => .bool negative
  | .text value => .text value

def cellOfJson? : Json → Option Cell
  | .null => some .null
  | .number numeral => numeral.integer?.map Cell.integer
  | .array [.number numerator, .number denominator] => do
      return .real (.finite ((← numerator.integer?) / ((← denominator.natural?) : Rat)))
  | .bool negative => some (.real (.infinite negative))
  | .string (some value) => some (.text value)
  | _ => none

def tableToJson (table : Table) : Json :=
  .record [("columns", .array (table.columns.map fun column => .text column.name)),
    ("rows", .array (table.rows.map fun row =>
      .array (row.map fun (_, cell) => cellToJson cell)))]

def write (database : Database) (logged : Bool) : String :=
  let tables := Json.record (database.tables.map fun (name, table) => (name, tableToJson table))
  heading ++ (Json.array [.bool logged, tables]).compact

def frame? (name : String) (columns : List String) : Option Table := do
  let table ← (("schema_migrations", Schema.log) :: Schema.tables).lookup name
  let extended := ((table.addColumn (.optionalText "source")).toOption).getD table
  [table, extended].find? fun candidate => candidate.columns.map Column.name == columns

def textOf? : Json → Option String
  | .string text => text
  | _ => none

def rowOfJson? (columns : List String) : Json → Option Row
  | .array cells => do
      let names := Row.numberColumn :: columns
      guard (cells.length = names.length)
      return names.zip (← cells.mapM cellOfJson?)
  | _ => none

def tableOfJson? (name : String) : Json → Option Table
  | .object [(some "columns", .array columns), (some "rows", .array rows)] => do
      let columns ← columns.mapM textOf?
      let table ← frame? name columns
      return { table with rows := ← rows.mapM (rowOfJson? columns) }
  | _ => none

def tablesOfJson? : Json → Option (List (String × Table))
  | .object members => members.mapM fun (name, value) => do
      let name ← name
      return (name, ← tableOfJson? name value)
  | _ => none

def read? (text : String) : Option (Database × Bool) := do
  let characters := text.toList
  guard (heading.toList.isPrefixOf characters)
  let reading := Json.read (String.ofList (characters.drop heading.length))
  guard !reading.trailing
  match reading.value with
  | .array [.bool logged, tables] => return ({ tables := ← tablesOfJson? tables }, logged)
  | _ => none

end Archive

end FeatureAtlas
