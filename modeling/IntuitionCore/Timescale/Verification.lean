import IntuitionCore.Library.OrderedMap
import Mathlib.Data.List.Sort

/-!
# Whether a database has the tables of the manifest

The tables of the indexer are written down in a manifest. A gate reads what tables a
live database has, from the catalogue, and lists what does not match: a table or a
column that is missing or that nobody asked for, a column of another type, and a
primary key that is not the same. An empty list lets a deployment pass.

The gate compares a precision, or a scale, only where both sides have one, whatever the
type of the column, and primary keys by the text in which their columns are joined. So
two sides that differ can pass, and two sides that agree can be told apart.

Rows of the catalogue come in the order of its queries, and `localeCompare` is arbitrary.
-/

/-- The types of columns that a manifest knows. -/
inductive SupportedColumnType where
  | bigint
  | bigserial
  | boolean
  | integer
  | jsonb
  | numeric
  | text
  | timestamptz
  deriving DecidableEq, Repr

def SupportedColumnType.asStr : SupportedColumnType → String
  | bigint => "bigint"
  | bigserial => "bigserial"
  | boolean => "boolean"
  | integer => "integer"
  | jsonb => "jsonb"
  | numeric => "numeric"
  | text => "text"
  | timestamptz => "timestamptz"

/-- A column of a manifest. -/
structure ManifestColumn where
  name : String
  notNull : Bool
  precision : Option ℤ := none
  scale : Option ℤ := none
  type : SupportedColumnType
  deriving DecidableEq, Repr

structure ManifestRelation where
  columns : List ManifestColumn
  name : String
  deriving DecidableEq, Repr

structure ManifestTable extends ManifestRelation where
  primaryKey : List String
  deriving DecidableEq, Repr

/-- Whether a column may be null, as the catalogue says it. -/
inductive IsNullable where
  | yes
  | no
  deriving DecidableEq, Repr

/-- A row about a column of a live table. -/
structure LiveColumnRow where
  columnName : String
  dataType : String
  isNullable : IsNullable
  numericPrecision : Option ℤ := none
  numericScale : Option ℤ := none
  tableName : String
  udtName : String
  deriving DecidableEq, Repr

/-- A row about a column of the primary key of a live table. -/
structure PrimaryKeyRow where
  columnName : String
  tableName : String
  deriving DecidableEq, Repr

/-- A live column. Its type is any text, so that one that is not supported is a
mismatch. -/
structure LiveColumn where
  name : String
  notNull : Bool
  precision : Option ℤ
  scale : Option ℤ
  type : String
  deriving DecidableEq, Repr

structure LiveRelation where
  columns : List LiveColumn
  name : String
  deriving DecidableEq, Repr

structure LiveTable extends LiveRelation where
  primaryKey : List String
  deriving DecidableEq, Repr

namespace TimescaleVerification

/-! ## The live tables -/

def normalizeLiveColumnType (column : LiveColumnRow) : String :=
  if column.udtName = "jsonb" then "jsonb"
  else if column.dataType = "timestamp with time zone" then "timestamptz"
  else column.dataType

def normalizeLiveColumn (column : LiveColumnRow) : LiveColumn where
  name := column.columnName
  notNull := column.isNullable = .no
  precision := column.numericPrecision
  scale := column.numericScale
  type := normalizeLiveColumnType column

/-- A column is added to its table, which is new if this is its first one. -/
def pushColumn (tableMap : OrderedMap String LiveTable) (column : LiveColumnRow) :
    OrderedMap String LiveTable :=
  let table := (tableMap.get? column.tableName).getD
    { columns := [], name := column.tableName, primaryKey := [] }
  tableMap.set column.tableName
    { table with columns := table.columns ++ [normalizeLiveColumn column] }

/-- A column is added to the primary key of its table, if that is there. -/
def pushPrimaryKey (tableMap : OrderedMap String LiveTable) (primaryKey : PrimaryKeyRow) :
    OrderedMap String LiveTable :=
  match tableMap.get? primaryKey.tableName with
  | none => tableMap
  | some table => tableMap.set primaryKey.tableName
      { table with primaryKey := table.primaryKey ++ [primaryKey.columnName] }

/-- The live tables under their names. -/
def liveTableMap (columns : List LiveColumnRow) (primaryKeys : List PrimaryKeyRow) :
    OrderedMap String LiveTable :=
  primaryKeys.foldl pushPrimaryKey (columns.foldl pushColumn {})

def buildLiveTables (localeCompare : String → String → ℤ) (columns : List LiveColumnRow)
    (primaryKeys : List PrimaryKeyRow) : List LiveTable :=
  (liveTableMap columns primaryKeys).values.mergeSort
    fun left right => localeCompare left.name right.name ≤ 0

/-! ## What does not match -/

/-- What a message calls that which it is about. -/
inductive RelationLabel where
  | relation
  | table
  deriving DecidableEq, Repr

def RelationLabel.asStr : RelationLabel → String
  | relation => "relation"
  | table => "table"

def normalizeExpectedColumnType (type : SupportedColumnType) : String :=
  if type = .bigserial then "bigint" else type.asStr

/-- An optional number is compared where both sides have it. -/
def compareNumbers (label column : String) : Option ℤ → Option ℤ → List String
  | some expected, some live =>
    if expected ≠ live then [s!"{label} mismatch for {column}: expected {expected}, got {live}"]
    else []
  | _, _ => []

/-- What does not match about a column that is there on both sides. -/
def compareColumn (relation : String) (expected : ManifestColumn) (live : LiveColumn) :
    List String :=
  let column := relation ++ "." ++ expected.name
  let expectedType := normalizeExpectedColumnType expected.type
  (if expectedType ≠ live.type then
      [s!"Type mismatch for {column}: expected {expectedType}, got {live.type}"] else [])
    ++ (if expected.notNull ≠ live.notNull then
      ["Nullability mismatch for " ++ column ++ ": expected notNull=" ++ toString expected.notNull
        ++ ", got notNull=" ++ toString live.notNull] else [])
    ++ compareNumbers "Precision" column expected.precision live.precision
    ++ compareNumbers "Scale" column expected.scale live.scale

/-- Two sides whose members have names: each expected member is looked up on the live side
and compared with what is there, or missing; what nobody expects is reported too. -/
def compareNames {α β : Type} (name : α → String) (key : β → String) (missing : α → String)
    (unexpected : β → String) (compare : α → β → List String) (expected : List α)
    (live : List β) : List String :=
  let expectedMap := OrderedMap.index name expected
  let liveMap := OrderedMap.index key live
  (expected.flatMap fun e =>
      match liveMap.get? (name e) with
      | none => [missing e]
      | some l => compare e l)
    ++ (live.filter fun l => key l ∉ expectedMap.keys).map unexpected

def compareRelationColumns (expected : ManifestRelation) (live : LiveRelation) : List String :=
  compareNames ManifestColumn.name LiveColumn.name
    (fun expectedColumn => s!"Missing column {expected.name}.{expectedColumn.name}")
    (fun liveColumn => s!"Unexpected column {live.name}.{liveColumn.name}")
    (compareColumn expected.name) expected.columns live.columns

def compareRelations (expected : List ManifestRelation) (live : List LiveRelation)
    (label : RelationLabel) : List String :=
  compareNames ManifestRelation.name LiveRelation.name
    (fun expectedRelation => s!"Missing {label.asStr} {expectedRelation.name}")
    (fun liveRelation => s!"Unexpected {label.asStr} {liveRelation.name}")
    compareRelationColumns expected live

/-- The text by which primary keys are compared. -/
def joined (primaryKey : List String) : String := ",".intercalate primaryKey

def comparePrimaryKeys (expected : ManifestTable) (live : LiveTable) : List String :=
  let expectedText := ", ".intercalate expected.primaryKey
  let liveText := ", ".intercalate live.primaryKey
  if joined expected.primaryKey ≠ joined live.primaryKey then
    [s!"Primary key mismatch for {expected.name}: expected [{expectedText}], got [{liveText}]"]
  else []

def compareTables (expected : List ManifestTable) (live : List LiveTable) : List String :=
  let liveMap := OrderedMap.index (fun table => table.name) live
  compareRelations (expected.map ManifestTable.toManifestRelation)
      (live.map LiveTable.toLiveRelation) .table
    ++ expected.flatMap fun expectedTable =>
      match liveMap.get? expectedTable.name with
      | none => []
      | some liveTable => comparePrimaryKeys expectedTable liveTable

/-! ## The live tables are what the catalogue says -/

/-- The rows about a table. -/
def columnsOf (columns : List LiveColumnRow) (table : String) : List LiveColumnRow :=
  columns.filter fun column => column.tableName = table

/-- The columns of the primary key of a table, in order. -/
def primaryKeyOf (primaryKeys : List PrimaryKeyRow) (table : String) : List String :=
  (primaryKeys.filter fun row => row.tableName = table).map PrimaryKeyRow.columnName

/-- What the catalogue says about a table. -/
def liveTable (columns : List LiveColumnRow) (primaryKeys : List PrimaryKeyRow) (table : String) :
    LiveTable where
  columns := (columnsOf columns table).map normalizeLiveColumn
  name := table
  primaryKey := primaryKeyOf primaryKeys table

variable {columns : List LiveColumnRow} {primaryKeys : List PrimaryKeyRow} {table : String}

theorem get?_pushColumn (tableMap : OrderedMap String LiveTable) (column : LiveColumnRow)
    (table : String) : (pushColumn tableMap column).get? table
      = if table = column.tableName then
          let found := (tableMap.get? table).getD { columns := [], name := table, primaryKey := [] }
          some { found with columns := found.columns ++ [normalizeLiveColumn column] }
        else tableMap.get? table := by
  unfold pushColumn
  rw [OrderedMap.get?_set]
  split
  · next htable => rw [htable]
  · rfl

theorem get?_pushPrimaryKey (tableMap : OrderedMap String LiveTable) (row : PrimaryKeyRow)
    (table : String) : (pushPrimaryKey tableMap row).get? table
      = if table = row.tableName then
          (tableMap.get? table).map fun found =>
            { found with primaryKey := found.primaryKey ++ [row.columnName] }
        else tableMap.get? table := by
  unfold pushPrimaryKey
  by_cases htable : table = row.tableName
  · subst htable
    rw [if_pos rfl]
    cases hfound : tableMap.get? row.tableName with
    | none => exact hfound
    | some found => simp [OrderedMap.get?_set]
  · rw [if_neg htable]
    cases tableMap.get? row.tableName with
    | none => rfl
    | some found => simp [OrderedMap.get?_set, htable]

/-- A table with no rows is one that has not been found. -/
theorem liveTable_of_notMem (h : table ∉ columns.map LiveColumnRow.tableName) :
    liveTable columns [] table = { columns := [], name := table, primaryKey := [] } := by
  have hnone : columnsOf columns table = [] :=
    List.filter_eq_nil_iff.mpr fun row hrow heq =>
      h (List.mem_map.mpr ⟨row, hrow, of_decide_eq_true heq⟩)
  unfold liveTable
  rw [hnone]
  rfl

theorem get?_pushColumns (columns : List LiveColumnRow) (table : String) :
    (columns.foldl pushColumn {}).get? table
      = if table ∈ columns.map LiveColumnRow.tableName then some (liveTable columns [] table)
        else none := by
  induction columns using List.reverseRecOn with
  | nil => rfl
  | append_singleton columns column ih =>
    rw [List.foldl_append, List.foldl_cons, List.foldl_nil, get?_pushColumn, ih]
    by_cases htable : table = column.tableName
    · have hfound : (if table ∈ columns.map LiveColumnRow.tableName then
            some (liveTable columns [] table) else none).getD
            { columns := [], name := table, primaryKey := [] } = liveTable columns [] table := by
        split
        · rfl
        · next hnot => exact (liveTable_of_notMem hnot).symm
      rw [if_pos htable, hfound]
      simp [htable, liveTable, columnsOf]
    · rw [if_neg htable]
      simp [htable, Ne.symm htable, liveTable, columnsOf]

theorem get?_liveTableMap (columns : List LiveColumnRow) (primaryKeys : List PrimaryKeyRow)
    (table : String) : (liveTableMap columns primaryKeys).get? table
      = if table ∈ columns.map LiveColumnRow.tableName then
          some (liveTable columns primaryKeys table)
        else none := by
  unfold liveTableMap
  induction primaryKeys using List.reverseRecOn with
  | nil => exact get?_pushColumns columns table
  | append_singleton primaryKeys row ih =>
    rw [List.foldl_append, List.foldl_cons, List.foldl_nil, get?_pushPrimaryKey, ih]
    by_cases htable : table = row.tableName
    · rw [if_pos htable]
      split <;> simp [htable, liveTable, primaryKeyOf]
    · simp [htable, Ne.symm htable, liveTable, primaryKeyOf]

/-- **The live tables are those that the catalogue has rows about**, as it describes them. -/
theorem mem_buildLiveTables {localeCompare : String → String → ℤ} {live : LiveTable} :
    live ∈ buildLiveTables localeCompare columns primaryKeys
      ↔ live.name ∈ columns.map LiveColumnRow.tableName
        ∧ live = liveTable columns primaryKeys live.name := by
  unfold buildLiveTables
  rw [List.mem_mergeSort, OrderedMap.mem_values]
  constructor
  · rintro ⟨table, htable⟩
    rw [get?_liveTableMap] at htable
    split at htable
    · next hmem =>
      cases htable
      exact ⟨hmem, rfl⟩
    · cases htable
  · rintro ⟨hmem, heq⟩
    exact ⟨live.name, by rw [get?_liveTableMap, if_pos hmem, ← heq]⟩

/-- **No two live tables have one name.** -/
theorem nodup_buildLiveTables (localeCompare : String → String → ℤ) (columns : List LiveColumnRow)
    (primaryKeys : List PrimaryKeyRow) :
    ((buildLiveTables localeCompare columns primaryKeys).map fun table => table.name).Nodup := by
  have hname : ∀ e ∈ (liveTableMap columns primaryKeys).entries, e.2.name = e.1 := by
    rintro ⟨table, live⟩ hmem
    have hlive := OrderedMap.mem_entries.mp hmem
    rw [get?_liveTableMap] at hlive
    split at hlive
    · cases hlive
      rfl
    · cases hlive
  unfold buildLiveTables
  refine ((List.mergeSort_perm _ _).map _).nodup_iff.mpr ?_
  have hkeys := (liveTableMap columns primaryKeys).nodup
  unfold OrderedMap.values
  rw [List.map_map]
  exact (List.map_congr_left hname).symm ▸ hkeys

/-! ## When nothing is reported -/

/-- Two optional numbers do not contradict each other. -/
def Compatible (expected live : Option ℤ) : Prop := ∀ e ∈ expected, ∀ l ∈ live, e = l

theorem compareNumbers_eq_nil {label column : String} {expected live : Option ℤ} :
    compareNumbers label column expected live = [] ↔ Compatible expected live := by
  unfold Compatible
  cases expected <;> cases live <;> simp [compareNumbers]

theorem compareColumn_eq_nil {relation : String} {expected : ManifestColumn} {live : LiveColumn} :
    compareColumn relation expected live = []
      ↔ normalizeExpectedColumnType expected.type = live.type ∧ expected.notNull = live.notNull
        ∧ Compatible expected.precision live.precision ∧ Compatible expected.scale live.scale := by
  unfold compareColumn
  rw [List.append_eq_nil_iff, List.append_eq_nil_iff, List.append_eq_nil_iff,
    compareNumbers_eq_nil, compareNumbers_eq_nil]
  simp [and_assoc]

section Names

variable {α β : Type} {name : α → String} {key : β → String} {expected : List α} {live : List β}

/-- **Nothing is reported about two sides** if they have the same names, and nothing is
reported about what has one name. -/
theorem compareNames_eq_nil (hlive : (live.map key).Nodup) {missing : α → String}
    {unexpected : β → String} {compare : α → β → List String} :
    compareNames name key missing unexpected compare expected live = []
      ↔ (∀ k, k ∈ expected.map name ↔ k ∈ live.map key)
        ∧ ∀ e ∈ expected, ∀ l ∈ live, key l = name e → compare e l = [] := by
  unfold compareNames
  rw [List.append_eq_nil_iff, List.flatMap_eq_nil_iff, List.map_eq_nil_iff,
    List.filter_eq_nil_iff]
  have hunexpected : (∀ l ∈ live,
      ¬ decide (key l ∉ (OrderedMap.index name expected).keys) = true)
      ↔ ∀ k ∈ live.map key, k ∈ expected.map name := by
    simp [OrderedMap.mem_keys_index]
  rw [hunexpected]
  constructor
  · rintro ⟨hall, hsub⟩
    refine ⟨fun k => ⟨fun hk => ?_, hsub k⟩, fun e he l hl heq => ?_⟩
    · obtain ⟨e, he, rfl⟩ := List.mem_map.mp hk
      have hfound := hall e he
      split at hfound
      · cases hfound
      · next l hl =>
        obtain ⟨hmem, heq⟩ := (OrderedMap.get?_index hlive).mp hl
        exact List.mem_map.mpr ⟨l, hmem, heq⟩
    · have hfound := hall e he
      rwa [(OrderedMap.get?_index hlive).mpr ⟨hl, heq⟩] at hfound
  · rintro ⟨hnames, hall⟩
    refine ⟨fun e he => ?_, fun k => (hnames k).mpr⟩
    obtain ⟨l, hl, heq⟩ := List.mem_map.mp ((hnames (name e)).mp (List.mem_map_of_mem he))
    rw [(OrderedMap.get?_index hlive).mpr ⟨hl, heq⟩]
    exact hall e he l hl heq

end Names

theorem compareRelationColumns_eq_nil {expected : ManifestRelation} {live : LiveRelation}
    (hlive : (live.columns.map LiveColumn.name).Nodup) :
    compareRelationColumns expected live = []
      ↔ (∀ c, c ∈ expected.columns.map ManifestColumn.name ↔ c ∈ live.columns.map LiveColumn.name)
        ∧ ∀ e ∈ expected.columns, ∀ l ∈ live.columns, l.name = e.name →
          compareColumn expected.name e l = [] :=
  compareNames_eq_nil hlive

theorem compareRelations_eq_nil {expected : List ManifestRelation} {live : List LiveRelation}
    {label : RelationLabel} (hlive : (live.map LiveRelation.name).Nodup) :
    compareRelations expected live label = []
      ↔ (∀ r, r ∈ expected.map ManifestRelation.name ↔ r ∈ live.map LiveRelation.name)
        ∧ ∀ e ∈ expected, ∀ l ∈ live, l.name = e.name → compareRelationColumns e l = [] :=
  compareNames_eq_nil hlive

theorem comparePrimaryKeys_eq_nil {expected : ManifestTable} {live : LiveTable} :
    comparePrimaryKeys expected live = []
      ↔ joined expected.primaryKey = joined live.primaryKey := by
  unfold comparePrimaryKeys
  simp

theorem compareTables_eq_nil {expected : List ManifestTable} {live : List LiveTable}
    (hlive : (live.map fun table => table.name).Nodup) : compareTables expected live = []
      ↔ (∀ t, t ∈ expected.map (·.name) ↔ t ∈ live.map (·.name))
        ∧ ∀ e ∈ expected, ∀ l ∈ live, l.name = e.name →
          compareRelationColumns e.toManifestRelation l.toLiveRelation = []
            ∧ joined e.primaryKey = joined l.primaryKey := by
  have hrelations : ((live.map LiveTable.toLiveRelation).map LiveRelation.name).Nodup := by
    rwa [List.map_map]
  unfold compareTables
  rw [List.append_eq_nil_iff, compareRelations_eq_nil hrelations, List.map_map, List.map_map,
    List.flatMap_eq_nil_iff]
  constructor
  · rintro ⟨⟨hnames, hcolumns⟩, hkeys⟩
    refine ⟨hnames, fun e he l hl heq => ⟨?_, ?_⟩⟩
    · exact hcolumns _ (List.mem_map_of_mem he) _ (List.mem_map_of_mem hl) heq
    · have hkey := hkeys e he
      rw [(OrderedMap.get?_index hlive).mpr ⟨hl, heq⟩] at hkey
      exact comparePrimaryKeys_eq_nil.mp hkey
  · rintro ⟨hnames, hall⟩
    refine ⟨⟨hnames, fun e he l hl heq => ?_⟩, fun e he => ?_⟩
    · obtain ⟨e', he', rfl⟩ := List.mem_map.mp he
      obtain ⟨l', hl', rfl⟩ := List.mem_map.mp hl
      exact (hall e' he' l' hl' heq).1
    · split
      · rfl
      · next l hl =>
        obtain ⟨hl, heq⟩ := (OrderedMap.get?_index hlive).mp hl
        exact comparePrimaryKeys_eq_nil.mpr (hall e he l hl heq).2

/-! ## What the gate is for -/

/-- What the catalogue of a database returns. -/
structure LiveRows where
  columns : List LiveColumnRow
  primaryKeys : List PrimaryKeyRow
  /-- A table has no two columns of one name. -/
  columns_nodup : (columns.map fun column => (column.tableName, column.columnName)).Nodup

variable (manifest : List ManifestTable) (live : LiveRows)

/-- A column of the manifest, and the row about it. -/
def Paired (expected : ManifestColumn) (row : LiveColumnRow) : Prop :=
  ∃ table ∈ manifest, expected ∈ table.columns ∧ row ∈ live.columns
    ∧ row.tableName = table.name ∧ row.columnName = expected.name

/-- Both sides have the same tables, and each the same columns. -/
structure SameNames : Prop where
  tables : ∀ t, t ∈ manifest.map (·.name) ↔ t ∈ live.columns.map LiveColumnRow.tableName
  columns : ∀ table ∈ manifest, ∀ c, c ∈ table.columns.map ManifestColumn.name
    ↔ c ∈ (columnsOf live.columns table.name).map LiveColumnRow.columnName

/-- Each column has the same type on both sides, and may be null on both or on neither. -/
structure SameTypes : Prop where
  type : ∀ e r, Paired manifest live e r →
    normalizeExpectedColumnType e.type = normalizeLiveColumnType r
  notNull : ∀ e r, Paired manifest live e r → (e.notNull = true ↔ r.isNullable = .no)

/-- The live database is the one that the manifest describes. -/
structure NoDrift : Prop where
  names : SameNames manifest live
  types : SameTypes manifest live
  precision : ∀ e r, Paired manifest live e r → e.type = .numeric →
    e.precision = r.numericPrecision
  scale : ∀ e r, Paired manifest live e r → e.type = .numeric → e.scale = r.numericScale
  primaryKey : ∀ table ∈ manifest, table.primaryKey = primaryKeyOf live.primaryKeys table.name

/-- Nothing that the gate compares differs, where it is to compare it. -/
structure ComparedAgrees : Prop where
  names : SameNames manifest live
  types : SameTypes manifest live
  precision : ∀ e r, Paired manifest live e r → e.type = .numeric →
    Compatible e.precision r.numericPrecision
  scale : ∀ e r, Paired manifest live e r → e.type = .numeric → Compatible e.scale r.numericScale
  primaryKey : ∀ table ∈ manifest,
    joined table.primaryKey = joined (primaryKeyOf live.primaryKeys table.name)

/-- A difference that the gate does not see: a precision or a scale of a numeric column that
one side only has, or two primary keys that are one text. -/
def HasUnseenDifference : Prop :=
  (∃ e r, Paired manifest live e r ∧ e.type = .numeric
    ∧ (e.precision.isSome ≠ r.numericPrecision.isSome ∨ e.scale.isSome ≠ r.numericScale.isSome))
  ∨ ∃ table ∈ manifest, table.primaryKey ≠ primaryKeyOf live.primaryKeys table.name
    ∧ joined table.primaryKey = joined (primaryKeyOf live.primaryKeys table.name)

/-- A precision or a scale that is reported, of a column that is not numeric. -/
def HasFalseAlarm : Prop :=
  ∃ e r, Paired manifest live e r ∧ e.type ≠ .numeric
    ∧ ¬ (Compatible e.precision r.numericPrecision ∧ Compatible e.scale r.numericScale)

variable {manifest live}

theorem eq_iff_compatible (a b : Option ℤ) : a = b ↔ Compatible a b ∧ a.isSome = b.isSome := by
  unfold Compatible
  cases a <;> cases b <;> simp

/-- **What is not drift** is what agrees where it is compared, and differs nowhere else. -/
theorem noDrift_iff : NoDrift manifest live
    ↔ ComparedAgrees manifest live ∧ ¬ HasUnseenDifference manifest live := by
  constructor
  · intro h
    refine ⟨⟨h.names, h.types, fun e r hp hn => ?_, fun e r hp hn => ?_, fun t ht => ?_⟩, ?_⟩
    · exact ((eq_iff_compatible _ _).mp (h.precision e r hp hn)).1
    · exact ((eq_iff_compatible _ _).mp (h.scale e r hp hn)).1
    · rw [h.primaryKey t ht]
    · rintro (⟨e, r, hp, hn, hne | hne⟩ | ⟨t, ht, hne, -⟩)
      · exact hne (by rw [h.precision e r hp hn])
      · exact hne (by rw [h.scale e r hp hn])
      · exact hne (h.primaryKey t ht)
  · rintro ⟨h, hunseen⟩
    refine ⟨h.names, h.types, fun e r hp hn => ?_, fun e r hp hn => ?_, fun t ht => ?_⟩
    · refine (eq_iff_compatible _ _).mpr ⟨h.precision e r hp hn, ?_⟩
      exact Decidable.byContradiction fun hne => hunseen (.inl ⟨e, r, hp, hn, .inl hne⟩)
    · refine (eq_iff_compatible _ _).mpr ⟨h.scale e r hp hn, ?_⟩
      exact Decidable.byContradiction fun hne => hunseen (.inl ⟨e, r, hp, hn, .inr hne⟩)
    · exact Decidable.byContradiction fun hne => hunseen (.inr ⟨t, ht, hne, h.primaryKey t ht⟩)

theorem nodup_columns_liveTable (table : String) :
    ((liveTable live.columns live.primaryKeys table).columns.map LiveColumn.name).Nodup := by
  show (((columnsOf live.columns table).map normalizeLiveColumn).map LiveColumn.name).Nodup
  rw [List.map_map]
  have hnodup := (live.columns_nodup.of_map).filter fun column => column.tableName = table
  refine hnodup.map_on fun r hr r' hr' heq => ?_
  -- rows of one table with one name are one row
  have hname : r.columnName = r'.columnName := heq
  obtain ⟨hr, htable⟩ := List.mem_filter.mp hr
  obtain ⟨hr', htable'⟩ := List.mem_filter.mp hr'
  have htables : r.tableName = r'.tableName :=
    (of_decide_eq_true htable).trans (of_decide_eq_true htable').symm
  exact List.inj_on_of_nodup_map live.columns_nodup hr hr' (Prod.ext htables hname)

/-- What is reported about the columns of a table. -/
theorem compareRelationColumns_liveTable {expected : ManifestRelation} :
    compareRelationColumns expected
        (liveTable live.columns live.primaryKeys expected.name).toLiveRelation = []
      ↔ (∀ c, c ∈ expected.columns.map ManifestColumn.name
          ↔ c ∈ (columnsOf live.columns expected.name).map LiveColumnRow.columnName)
        ∧ ∀ e ∈ expected.columns, ∀ r ∈ columnsOf live.columns expected.name,
          r.columnName = e.name → compareColumn expected.name e (normalizeLiveColumn r) = [] := by
  rw [compareRelationColumns_eq_nil (nodup_columns_liveTable _)]
  refine and_congr (forall_congr' fun c => ?_) (forall₂_congr fun e _ => ?_)
  · show (c ∈ _ ↔ c ∈ ((columnsOf _ _).map normalizeLiveColumn).map LiveColumn.name) ↔ _
    rw [List.map_map]
    rfl
  · exact List.forall_mem_map

/-- **What the gate reports nothing about.** -/
theorem compareTables_buildLiveTables_eq_nil {localeCompare : String → String → ℤ} :
    compareTables manifest (buildLiveTables localeCompare live.columns live.primaryKeys) = []
      ↔ SameNames manifest live ∧ SameTypes manifest live
        ∧ (∀ e r, Paired manifest live e r → Compatible e.precision r.numericPrecision
          ∧ Compatible e.scale r.numericScale)
        ∧ ∀ table ∈ manifest,
          joined table.primaryKey = joined (primaryKeyOf live.primaryKeys table.name) := by
  have hlive : ∀ t, t ∈ (buildLiveTables localeCompare live.columns live.primaryKeys).map (·.name)
      ↔ t ∈ live.columns.map LiveColumnRow.tableName := by
    intro t
    rw [List.mem_map]
    constructor
    · rintro ⟨l, hl, rfl⟩
      exact (mem_buildLiveTables.mp hl).1
    · intro ht
      exact ⟨liveTable live.columns live.primaryKeys t, mem_buildLiveTables.mpr ⟨ht, rfl⟩, rfl⟩
  rw [compareTables_eq_nil (nodup_buildLiveTables localeCompare _ _)]
  constructor
  · rintro ⟨hnames, hall⟩
    have htables := fun t => (hnames t).trans (hlive t)
    have htable : ∀ table ∈ manifest,
        compareRelationColumns table.toManifestRelation
            (liveTable live.columns live.primaryKeys table.name).toLiveRelation = []
          ∧ joined table.primaryKey = joined (primaryKeyOf live.primaryKeys table.name) := by
      intro table ht
      refine hall table ht _ (mem_buildLiveTables.mpr ⟨?_, rfl⟩) rfl
      exact (htables table.name).mp (List.mem_map_of_mem ht)
    have hpair : ∀ e r, Paired manifest live e r →
        ∃ relation, compareColumn relation e (normalizeLiveColumn r) = [] := by
      rintro e r ⟨table, ht, he, hr, htr, hcr⟩
      have hcolumns := compareRelationColumns_liveTable.mp (htable table ht).1
      have hmem : r ∈ columnsOf live.columns table.name :=
        List.mem_filter.mpr ⟨hr, decide_eq_true htr⟩
      exact ⟨_, hcolumns.2 e he r hmem hcr⟩
    refine ⟨⟨htables, fun table ht => ?_⟩, ⟨fun e r hp => ?_, fun e r hp => ?_⟩, fun e r hp => ?_,
      fun table ht => (htable table ht).2⟩
    · exact (compareRelationColumns_liveTable.mp (htable table ht).1).1
    · obtain ⟨_, h⟩ := hpair e r hp
      exact (compareColumn_eq_nil.mp h).1
    · obtain ⟨_, h⟩ := hpair e r hp
      rw [(compareColumn_eq_nil.mp h).2.1]
      exact decide_eq_true_iff
    · obtain ⟨_, h⟩ := hpair e r hp
      exact (compareColumn_eq_nil.mp h).2.2
  · rintro ⟨hnames, htypes, hnumbers, hkeys⟩
    refine ⟨fun t => (hnames.tables t).trans (hlive t).symm, fun table ht l hl heq => ?_⟩
    rw [(mem_buildLiveTables.mp hl).2, heq]
    refine ⟨compareRelationColumns_liveTable.mpr ⟨hnames.columns table ht, ?_⟩, hkeys table ht⟩
    intro e he r hr hcr
    obtain ⟨hr, htr⟩ := List.mem_filter.mp hr
    have hp : Paired manifest live e r := ⟨table, ht, he, hr, of_decide_eq_true htr, hcr⟩
    refine compareColumn_eq_nil.mpr ⟨htypes.type e r hp, ?_, hnumbers e r hp⟩
    exact Bool.eq_iff_iff.mpr ((htypes.notNull e r hp).trans decide_eq_true_iff.symm)

theorem compareTables_eq_nil_iff {localeCompare : String → String → ℤ} :
    compareTables manifest (buildLiveTables localeCompare live.columns live.primaryKeys) = []
      ↔ ComparedAgrees manifest live ∧ ¬ HasFalseAlarm manifest live := by
  rw [compareTables_buildLiveTables_eq_nil]
  constructor
  · rintro ⟨hnames, htypes, hnumbers, hkeys⟩
    refine ⟨⟨hnames, htypes, fun e r hp _ => (hnumbers e r hp).1,
      fun e r hp _ => (hnumbers e r hp).2, hkeys⟩, ?_⟩
    rintro ⟨e, r, hp, -, hnot⟩
    exact hnot (hnumbers e r hp)
  · rintro ⟨h, halarm⟩
    refine ⟨h.names, h.types, fun e r hp => ?_, h.primaryKey⟩
    by_cases hn : e.type = .numeric
    · exact ⟨h.precision e r hp hn, h.scale e r hp hn⟩
    · exact Classical.byContradiction fun hnot => halarm ⟨e, r, hp, hn, hnot⟩

/-- **The gate passes exactly the databases without drift**, if and only if two sides that
agree where they are compared differ unseen exactly where they raise a false alarm. -/
theorem compareTables_exact_iff (manifest : List ManifestTable) (live : LiveRows)
    (localeCompare : String → String → ℤ) :
    (compareTables manifest (buildLiveTables localeCompare live.columns live.primaryKeys) = []
        ↔ NoDrift manifest live)
      ↔ (ComparedAgrees manifest live →
        (HasUnseenDifference manifest live ↔ HasFalseAlarm manifest live)) := by
  rw [compareTables_eq_nil_iff, noDrift_iff, and_congr_right_iff]
  exact imp_congr_right fun _ => not_iff_not.trans iff_comm

/-! ## A numeric column that was given a scale -/

/-- An amount without bounds. -/
def vaultManifest : List ManifestTable :=
  [{ columns := [{ name := "assets", notNull := true, type := .numeric }]
     name := "vault"
     primaryKey := ["assets"] }]

/-- The same amount, of ten digits, two of them after the point. -/
def narrowedVault : LiveRows where
  columns :=
    [{ columnName := "assets", dataType := "numeric", isNullable := .no
       numericPrecision := some 10, numericScale := some 2, tableName := "vault"
       udtName := "numeric" }]
  primaryKeys := [{ columnName := "assets", tableName := "vault" }]
  columns_nodup := List.nodup_singleton _

/-- **The gate passes a column that no longer holds what it held.** -/
theorem compareTables_narrowedVault : ¬ (compareTables vaultManifest
      (buildLiveTables (fun _ _ => 0) narrowedVault.columns narrowedVault.primaryKeys) = []
    ↔ NoDrift vaultManifest narrowedVault) := by
  have hpass : compareTables vaultManifest
      (buildLiveTables (fun _ _ => 0) narrowedVault.columns narrowedVault.primaryKeys) = [] := by
    decide +kernel
  intro h
  have hprecision := (h.mp hpass).precision
    { name := "assets", notNull := true, type := .numeric } _
    ⟨_, List.mem_singleton_self _, List.mem_singleton_self _, List.mem_singleton_self _, rfl, rfl⟩
    rfl
  exact absurd hprecision (by decide)

end TimescaleVerification
