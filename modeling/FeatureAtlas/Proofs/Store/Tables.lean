import Mathlib.Data.List.Nodup
import Mathlib.Data.List.Perm.Subperm
import FeatureAtlas.Store.Schema

/-!
What a table holds: rows as they were given, each under a number of its own. An insertion succeeds
where the given row fits the columns and shares no key, and a selection returns what was given.
-/

namespace FeatureAtlas

namespace Cell

@[simp] theorem same_integer (first second : Int) :
    same (.integer first) (.integer second) = decide (first = second) := by
  by_cases equal : first = second
  · simp [same, equal]
  · simp [same, number?, equal]

@[simp] theorem same_text (first second : String) :
    same (.text first) (.text second) = decide (first = second) := by
  by_cases equal : first = second
  · simp [same, equal]
  · simp [same, number?, equal]

theorem text_beq (first second : String) :
    (Cell.text first == Cell.text second) = (first == second) := by
  by_cases same : first = second <;> simp [same]

theorem text_bne (first second : String) :
    (Cell.text first != Cell.text second) = !(first == second) := by
  rw [bne, text_beq]

end Cell

theorem Row.satisfies_single (row : Row) (column : String) (cell : Cell) :
    row.satisfies [(column, cell)] = (row.cell column).same cell := by
  simp [satisfies]

theorem Cell.ofDouble_ne_null (value : Double) : ofDouble value ≠ .null := by
  rw [ofDouble]
  split
  · split <;> simp
  · simp

theorem Cell.ofWritten_ne_null (number : WrittenNumber) : ofWritten number ≠ .null := by
  rw [ofWritten]
  split
  · split
    · simp
    · exact ofDouble_ne_null _
  · exact ofDouble_ne_null _

theorem Affinity.adapt_ne_null {affinity : Affinity} {cell : Cell} (given : cell ≠ .null) :
    affinity.adapt cell ≠ .null := by
  cases affinity with
  | text => cases cell <;> simp_all [adapt]
  | number =>
      cases cell with
      | null => exact absurd rfl given
      | integer value => simp [adapt]
      | real value => exact Cell.ofDouble_ne_null value
      | text value =>
          rw [adapt]
          cases WrittenNumber.ofText? value with
          | none => simp
          | some number => exact Cell.ofWritten_ne_null number

theorem bind_ok {ε α β : Type} {first : Except ε α} {value : α} (result : first = .ok value)
    {rest : α → Except ε β} : first >>= rest = rest value := by
  rw [result]
  rfl

theorem lookup_of_mem {β : Type} {entries : List (String × β)} {name : String} {value : β}
    (distinct : (entries.map Prod.fst).Nodup) (member : (name, value) ∈ entries) :
    entries.lookup name = some value := by
  obtain ⟨before, after, rfl⟩ := List.append_of_mem member
  refine List.lookup_eq_some_iff.mpr ⟨before, after, rfl, fun entry earlier => ?_⟩
  rw [List.map_append, List.map_cons] at distinct
  have apart := (List.nodup_append.mp distinct).2.2 entry.1 (List.mem_map_of_mem earlier) name
    (by simp)
  simpa using apart.symm

def Row.Before : List String → Row → Row → Prop
  | [], _, _ => False
  | column :: rest, row, other => ∃ here there : Nat,
      row.cell column = .natural here ∧ other.cell column = .natural there ∧
        (here < there ∨ here = there ∧ Before rest row other)

namespace Table

variable {schema : Table} {given other : Row} {number : Int}

def numbered (schema : Table) (number : Int) (given : Row) : Row :=
  (Row.numberColumn, .integer number) ::
    schema.columns.map fun column => (column.name, column.affinity.adapt (given.cell column.name))

/-- A table with the columns and keys of `schema` that stores some given rows. -/
def holding (schema : Table) (entries : List (Int × Row)) : Table :=
  { schema with rows := entries.map fun (number, given) => schema.numbered number given }

@[simp] theorem cell_number_numbered (schema : Table) (number : Int) (given : Row) :
    (schema.numbered number given).cell Row.numberColumn = .integer number := rfl

structure Regular (schema : Table) : Prop where
  distinct : (schema.columns.map Column.name).Nodup
  unnumbered : Row.numberColumn ∉ schema.columns.map Column.name

theorem Regular.cell_numbered (regular : schema.Regular) {column : Column}
    (member : column ∈ schema.columns) (number : Int) (given : Row) :
    (schema.numbered number given).cell column.name =
      column.affinity.adapt (given.cell column.name) := by
  have named : column.name ≠ Row.numberColumn :=
    fun same => regular.unnumbered (same ▸ List.mem_map_of_mem member)
  have found : (schema.columns.map fun column =>
      (column.name, column.affinity.adapt (given.cell column.name))).lookup column.name =
        some (column.affinity.adapt (given.cell column.name)) :=
    lookup_of_mem (by rw [List.map_map]; exact regular.distinct)
      (List.mem_map.mpr ⟨column, member, rfl⟩)
  rw [Row.cell, numbered, List.lookup_cons, beq_false_of_ne named, found]
  rfl

theorem Regular.cell_text (regular : schema.Regular) {column : Column}
    (member : column ∈ schema.columns) (textual : column.affinity = .text) {text : String}
    (holds : given.cell column.name = .text text) (number : Int) :
    (schema.numbered number given).cell column.name = .text text := by
  rw [regular.cell_numbered member, textual, holds]
  rfl

theorem Regular.cell_natural (regular : schema.Regular) {column : String}
    (member : Column.requiredNumber column ∈ schema.columns) {place : Nat}
    (holds : given.cell column = .natural place) (number : Int) :
    (schema.numbered number given).cell column = .integer place := by
  refine (regular.cell_numbered member number given).trans ?_
  rw [Column.requiredNumber, holds]
  rfl

/-! Insertion. -/

/-- A row that a table with these columns can take: it names no other columns, and it has a value
where one is required. -/
structure Fits (schema : Table) (given : Row) : Prop where
  known : ∀ entry ∈ given, entry.1 ∈ schema.columns.map Column.name
  complete : ∀ column ∈ schema.columns, column.required = true → given.cell column.name ≠ .null

theorem Fits.of_full (names : given.map Prod.fst = schema.columns.map Column.name)
    (full : ∀ entry ∈ given, entry.2 ≠ .null) : schema.Fits given := by
  refine ⟨fun entry member => names ▸ List.mem_map_of_mem member, fun column isColumn _ => ?_⟩
  have named : column.name ∈ given.map Prod.fst := names ▸ List.mem_map_of_mem isColumn
  cases found : given.lookup column.name with
  | none =>
      obtain ⟨entry, member, same⟩ := List.mem_map.mp named
      have other := List.lookup_eq_none_iff.mp found entry member
      simp [same] at other
  | some cell =>
      obtain ⟨before, after, rfl, _⟩ := List.lookup_eq_some_iff.mp found
      rw [Row.cell, found]
      exact full (column.name, cell) (by simp)

def Apart (schema : Table) (earlier later : Row) : Prop :=
  ∀ key ∈ schema.keys, ∀ first second,
    Row.sharesKey key (schema.numbered second later) (schema.numbered first earlier) = false

theorem exists_findColumn {name : String}
    (known : name = Row.numberColumn ∨ name ∈ schema.columns.map Column.name) :
    ∃ column, schema.findColumn name = .ok column := by
  have some : (schema.column? name).isSome = true := by
    rcases known with rfl | member
    · have meant : Row.numberNames.any (fun other => other.toLower == Row.numberColumn.toLower) =
          true := List.any_eq_true.mpr ⟨Row.numberColumn, by decide, beq_self_eq_true _⟩
      simp [column?, meant]
    · obtain ⟨column, isColumn, rfl⟩ := List.mem_map.mp member
      have meant : (schema.columns.find? fun other =>
          other.name.toLower == column.name.toLower).isSome = true :=
        List.find?_isSome.mpr ⟨column, isColumn, by simp⟩
      simp [column?, meant]
  obtain ⟨column, found⟩ := Option.isSome_iff_exists.mp some
  exact ⟨column, by rw [findColumn, found]⟩

theorem requireColumns_ok {names : List String}
    (known : ∀ name ∈ names,
      name = Row.numberColumn ∨ name ∈ schema.columns.map Column.name) :
    schema.requireColumns names = .ok () := by
  induction names with
  | nil => rfl
  | cons name names ih =>
      obtain ⟨column, found⟩ := exists_findColumn (known name (by simp))
      have rest := ih fun other member => known other (by simp [member])
      rw [requireColumns] at rest ⊢
      rw [List.forM, found, rest]
      rfl

theorem requireColumns_holding (schema : Table) (entries : List (Int × Row)) (names : List String)
    (known : ∀ name ∈ names,
      name = Row.numberColumn ∨ name ∈ schema.columns.map Column.name) :
    (schema.holding entries).requireColumns names = .ok () :=
  requireColumns_ok known

/-- A number for a further row. It is free, and as long as the last number has not been reached it
comes after all that are taken. -/
structure Next (taken : List Int) (number : Int) : Prop where
  free : number ∉ taken
  after : ∀ count : Int, 0 ≤ count → count < greatestNumber → (∀ other ∈ taken, other ≤ count) →
    number ≤ count + 1 ∧ ∀ other ∈ taken, other < number

theorem middleNumber_free (taken : List Int) : middleNumber taken ∉ taken := by
  rw [middleNumber]
  cases found : ((List.range (taken.length + 1)).map fun (offset : Nat) =>
      0x2000000000000000 + (offset : Int)).find? fun number => !taken.contains number with
  | some number => simpa using List.find?_some found
  | none =>
      -- there is one more candidate than numbers that are taken
      have covered := List.find?_eq_none.mp found
      have distinct : ((List.range (taken.length + 1)).map fun (offset : Nat) =>
          0x2000000000000000 + (offset : Int)).Nodup :=
        List.Nodup.map (fun first second same => by omega) List.nodup_range
      have fewer := (distinct.subperm fun number member => by
        simpa using covered number member).length_le
      rw [List.length_map, List.length_range] at fewer
      omega

theorem next_nextNumber (table : Table) :
    Next (table.rows.filterMap Row.number) table.nextNumber := by
  rw [nextNumber]
  cases greatest : (table.rows.filterMap Row.number).max? with
  | none =>
      rw [List.max?_eq_none_iff.mp greatest]
      refine ⟨by simp, fun count low _ _ => ⟨?_, by simp⟩⟩
      exact Int.le_add_of_nonneg_left low
  | some last =>
      obtain ⟨member, above⟩ := List.max?_eq_some_iff.mp greatest
      by_cases room : last < greatestNumber
      · simp only [room, if_true]
        refine ⟨fun taken => ?_, fun count _ _ bound => ⟨?_, fun other taken => ?_⟩⟩
        · have := above _ taken
          omega
        · have := bound last member
          omega
        · have := above other taken
          omega
      · simp only [room, if_false]
        refine ⟨middleNumber_free _, fun count _ short bound => ?_⟩
        have := bound last member
        omega

theorem filterMap_number_holding (schema : Table) (entries : List (Int × Row)) :
    (schema.holding entries).rows.filterMap Row.number = entries.map Prod.fst := by
  rw [holding, List.filterMap_map]
  exact List.filterMap_eq_map' ▸ rfl

theorem Fits.complete_numbered (fits : schema.Fits given) (regular : schema.Regular)
    (number : Int) (table : Table) (same : table.columns = schema.columns) :
    table.lacksValue (schema.numbered number given) = false := by
  rw [lacksValue, same, List.any_eq_false]
  intro column member
  rw [regular.cell_numbered member]
  cases required : column.required with
  | false => simp
  | true => simpa using Affinity.adapt_ne_null (fits.complete column member required)

theorem clashes_holding {entries : List (Int × Row)} (free : number ∉ entries.map Prod.fst)
    (apart : ∀ entry ∈ entries, schema.Apart entry.2 given) :
    (schema.holding entries).clashes (schema.numbered number given) = false := by
  have keys : (schema.holding entries).allKeys = [Row.numberColumn] :: schema.keys := rfl
  rw [clashes, keys, List.any_eq_false]
  intro key isKey
  rw [Bool.not_eq_true, List.any_eq_false]
  intro row isRow
  obtain ⟨entry, member, rfl⟩ := List.mem_map.mp isRow
  rw [Bool.not_eq_true]
  rcases List.mem_cons.mp isKey with rfl | isKey
  · have different : number ≠ entry.1 := fun same => free (same ▸ List.mem_map_of_mem member)
    simp [Row.sharesKey, different]
  · exact apart entry member key isKey entry.1 number

theorem Fits.requireColumns (fits : schema.Fits given) (entries : List (Int × Row)) :
    (schema.holding entries).requireColumns (given.map Prod.fst) = .ok () := by
  refine requireColumns_ok fun name member => ?_
  obtain ⟨entry, isEntry, rfl⟩ := List.mem_map.mp member
  exact .inr (fits.known entry isEntry)

theorem fill_holding (schema : Table) (entries : List (Int × Row)) (given : Row) :
    (schema.holding entries).fill given =
      schema.numbered (schema.holding entries).nextNumber given := rfl

theorem insert_holding (regular : schema.Regular) (entries : List (Int × Row))
    (fits : schema.Fits given) :
    let number := (schema.holding entries).nextNumber
    (schema.holding entries).insert given =
      if (schema.holding entries).clashes (schema.numbered number given) then .error .duplicateKey
      else .ok (schema.holding (entries ++ [(number, given)])) := by
  have complete := fits.complete_numbered regular (schema.holding entries).nextNumber
    (schema.holding entries) rfl
  have appended (number : Int) : schema.holding (entries ++ [(number, given)]) =
      { schema.holding entries with
        rows := (schema.holding entries).rows ++ [schema.numbered number given] } := by
    simp [holding]
  rw [insert, fits.requireColumns entries]
  simp only [fill_holding, complete, appended]
  rfl

theorem exists_insert (regular : schema.Regular) {entries : List (Int × Row)}
    (fits : schema.Fits given) (apart : ∀ entry ∈ entries, schema.Apart entry.2 given) :
    ∃ number, Next (entries.map Prod.fst) number ∧
      (schema.holding entries).fill given = schema.numbered number given ∧
      (schema.holding entries).insert given =
        .ok (schema.holding (entries ++ [(number, given)])) := by
  have next := next_nextNumber (schema.holding entries)
  rw [filterMap_number_holding] at next
  refine ⟨_, next, fill_holding schema entries given, ?_⟩
  rw [insert_holding regular entries fits, clashes_holding next.free apart]
  rfl

theorem insert_of_shared_text (regular : schema.Regular) {entries : List (Int × Row)}
    (fits : schema.Fits given) (column : Column) (member : column ∈ schema.columns)
    (textual : column.affinity = .text) (isKey : [column.name] ∈ schema.keys) {entry : Int × Row}
    (isEntry : entry ∈ entries) {text : String} (there : entry.2.cell column.name = .text text)
    (here : given.cell column.name = .text text) :
    (schema.holding entries).insert given = .error .duplicateKey := by
  have clashes : (schema.holding entries).clashes
      (schema.numbered (schema.holding entries).nextNumber given) = true := by
    refine List.any_eq_true.mpr ⟨[column.name], List.mem_cons_of_mem _ isKey, ?_⟩
    refine List.any_eq_true.mpr ⟨_, List.mem_map_of_mem isEntry, ?_⟩
    rw [Row.sharesKey, List.all_cons, regular.cell_text member textual here,
      regular.cell_text member textual there]
    simp
  rw [insert_holding regular entries fits, clashes]
  rfl

/-! Order and selection. -/

theorem precedes_of_before (regular : schema.Regular) {columns : List String}
    (numeric : ∀ column ∈ columns, Column.requiredNumber column ∈ schema.columns)
    (before : Row.Before columns given other) (first second : Int) :
    Row.precedes columns (schema.numbered first given) (schema.numbered second other) = true := by
  induction columns with
  | nil => exact before.elim
  | cons column columns ih =>
      obtain ⟨place, otherPlace, here, there, before⟩ := before
      have cellHere := regular.cell_natural (numeric column (by simp)) here first
      have cellThere := regular.cell_natural (numeric column (by simp)) there second
      rw [Row.precedes, cellHere, cellThere]
      rcases before with less | ⟨rfl, before⟩
      · have different : (place : Int) ≠ otherPlace := by omega
        simp [Cell.le, different]
        omega
      · simpa using ih (fun column member => numeric column (by simp [member])) before

theorem sharesKey_of_before (regular : schema.Regular) {columns : List String}
    (numeric : ∀ column ∈ columns, Column.requiredNumber column ∈ schema.columns)
    (before : Row.Before columns given other) (first second : Int) :
    Row.sharesKey columns (schema.numbered second other) (schema.numbered first given) = false := by
  induction columns with
  | nil => exact before.elim
  | cons column columns ih =>
      obtain ⟨place, otherPlace, here, there, before⟩ := before
      have cellHere := regular.cell_natural (numeric column (by simp)) here first
      have cellThere := regular.cell_natural (numeric column (by simp)) there second
      rw [Row.sharesKey, List.all_cons, cellHere, cellThere, ← Row.sharesKey]
      rcases before with less | ⟨rfl, before⟩
      · have different : (otherPlace : Int) ≠ place := by omega
        simp [different]
      · rw [ih (fun column member => numeric column (by simp [member])) before, Bool.and_false]

theorem sharesKey_of_text_ne (regular : schema.Regular) (column : Column)
    (member : column ∈ schema.columns) (textual : column.affinity = .text) {key : List String}
    (isKey : column.name ∈ key) {text otherText : String}
    (here : given.cell column.name = .text text) (there : other.cell column.name = .text otherText)
    (different : text ≠ otherText) (first second : Int) :
    Row.sharesKey key (schema.numbered second other) (schema.numbered first given) = false := by
  refine List.all_eq_false.mpr ⟨column.name, isKey, ?_⟩
  rw [regular.cell_text member textual here, regular.cell_text member textual there]
  simpa using different.symm

theorem select_holding (schema : Table) (entries : List (Int × Row)) (conditions : Row)
    (order : List String)
    (known : ∀ name ∈ order ++ conditions.map Prod.fst,
      name = Row.numberColumn ∨ name ∈ schema.columns.map Column.name)
    (kept : Int × Row → Bool)
    (meets : ∀ entry ∈ entries, (schema.numbered entry.1 entry.2).satisfies conditions = kept entry)
    (sorted : (entries.filter kept).Pairwise fun earlier later =>
      Row.precedes order (schema.numbered earlier.1 earlier.2)
        (schema.numbered later.1 later.2) = true) :
    (schema.holding entries).select conditions order =
      .ok ((entries.filter kept).map fun entry => schema.numbered entry.1 entry.2) := by
  have rows : (schema.holding entries).rows.filter (fun row => row.satisfies conditions) =
      (entries.filter kept).map fun entry => schema.numbered entry.1 entry.2 := by
    rw [holding, List.filter_map]
    exact congrArg (List.map _) (List.filter_congr meets)
  have columns := requireColumns_holding schema entries _ known
  rw [select, columns, rows, List.mergeSort_of_pairwise (List.pairwise_map.mpr sorted)]
  rfl

end Table

theorem mapM_entries {ε α β : Type} {schema : Table} {entries : List (Int × Row)} {items : List α}
    {row : α → Row} {f : Row → Except ε β} {g : α → β}
    (same : entries.map Prod.snd = items.map row)
    (reads : ∀ number, ∀ item ∈ items, f (schema.numbered number (row item)) = .ok (g item)) :
    (entries.map fun entry => schema.numbered entry.1 entry.2).mapM f = .ok (items.map g) := by
  induction items generalizing entries with
  | nil =>
      rw [List.map_nil, List.map_eq_nil_iff] at same
      rw [same]
      rfl
  | cons item items ih =>
      obtain ⟨entry, rest, rfl, first, later⟩ := List.map_eq_cons_iff.mp same
      rw [List.map_cons, List.mapM_cons, first, reads entry.1 item (by simp),
        ih later fun number other member => reads number other (by simp [member])]
      rfl

end FeatureAtlas
