import IntuitionCore.Ingestion.Contract
import IntuitionCore.Projections.Handlers
import Mathlib.Data.Finset.Sort
import Mathlib.Data.String.Basic

/-!
# The SurrealDB sink

A projection turns an event into operations on a graph: a node is given some
fields, an edge is drawn, a number is added to some fields of a node. The sink
compiles the operations of a batch into one transaction.

The values of an operation are JSON values. A number that may be too large for
one is a text with a prefix, and so is a time; a text that looks like the name
of a record of a known table is taken for a link to it. What is kept in the end
is a SurrealDB value.

How SurrealDB reads a decimal, how a time is printed, and what `serde_json`
reads as a number is left to them, and is part of `SurrealFormats`. That adding
two decimals in SurrealDB adds the numbers is taken for granted.
-/

/-- A JSON value as projections put it into operations. -/
inductive SinkValue where
  | null
  | bool (b : Bool)
  | number (n : ℤ)
  | string (s : String)
  deriving DecidableEq, Repr

/-- The identity of a record: a table and an id. -/
structure RecordId where
  table : String
  id : String
  deriving DecidableEq, Repr

/-- An operation on a graph. -/
inductive SinkOperation where
  /-- Give a node some fields; the node is made if it is not there. -/
  | upsertNode (id : RecordId) (fields : List (String × SinkValue))
  /-- Draw an edge between two nodes. -/
  | upsertEdge (source : RecordId) (edgeTable : String) (target : RecordId)
      (idSuffix : Option String) (fields : List (String × SinkValue))
  /-- Add to fields of a node; the node is made if it is not there. -/
  | incrementFields (id : RecordId) (increments : List (String × SinkValue))
  /-- Put a triple of the chain in the place of its drafts. -/
  | reconcileTripleDraft (id : RecordId) (subject predicate object : String)
      (fields : List (String × SinkValue))
  deriving DecidableEq, Repr

/-- A value of a field of a record. -/
inductive SurrealValue where
  | noneValue
  | bool (b : Bool)
  | int (n : ℤ)
  | decimal (x : ℚ)
  | datetime (text : String)
  | record (id : RecordId)
  | text (s : String)
  deriving DecidableEq, Repr

/-- What SurrealDB and other crates make of texts. -/
structure SurrealFormats extends Externals where
  /-- The number a text is cast to by `<decimal>`. -/
  castDecimal : String → Option ℚ
  /-- Whether a text reads as a JSON number. -/
  isJsonNumber : String → Bool
  /-- A time, as it is printed. -/
  toRfc3339 : ℤ → String

/-- Formats that read and print numbers in digits. -/
def SurrealFormats.exact : SurrealFormats where
  toExternals := Externals.exact
  castDecimal s := some (Externals.read s.toList).val
  isJsonNumber s := s.toList.all Char.isDigit
  toRfc3339 ts := toString ts

/-! ## Texts that stand for other values -/

/-- What follows a prefix in a text, if it has the prefix. -/
def stripPrefix (pre s : String) : Option String :=
  if pre.toList.isPrefixOf s.toList then some (.ofList (s.toList.drop pre.toList.length)) else none

/-- What was put after a prefix follows it. -/
@[simp] theorem stripPrefix_append (pre s : String) : stripPrefix pre (pre ++ s) = some s := by
  unfold stripPrefix
  rw [String.toList_append, List.drop_left, String.ofList_toList]
  exact if_pos (List.isPrefixOf_iff_prefix.mpr (List.prefix_append _ _))

/-- What follows a prefix was put after it. -/
theorem stripPrefix_eq_some {pre s r : String} : stripPrefix pre s = some r ↔ s = pre ++ r := by
  constructor
  · intro h
    unfold stripPrefix at h
    obtain ⟨hpre, hr⟩ := Option.ite_none_right_eq_some.mp h
    obtain ⟨rest, hrest⟩ := List.isPrefixOf_iff_prefix.mp hpre
    rw [← Option.some.inj hr, ← String.toList_inj, String.toList_append, String.toList_ofList,
      ← hrest, List.drop_left]
  · rintro rfl
    exact stripPrefix_append pre r

/-- The prefix of a number. -/
def decimalPrefix : String := "decimal:"

/-- The prefix of a time. -/
def datetimePrefix : String := "datetime:"

/-- A number given as a text. -/
def decimalValue (raw : String) : SinkValue := .string (decimalPrefix ++ raw)

/-- The opposite of a number given as a text. -/
def negDecimalValue (raw : String) : SinkValue := .string (decimalPrefix ++ ("-" ++ raw))

/-- A time. -/
def datetimeValue (fmt : SurrealFormats) (ts : ℤ) : SinkValue :=
  .string (datetimePrefix ++ fmt.toRfc3339 ts)

/-- The tables a text can link to. -/
def knownRecordTables : List String :=
  ["account", "atom", "triple", "vault", "position", "deposit", "withdraw"]

/-- The table and the id a text of the form `table:id` links to. -/
def parseRecordLink (s : String) : Option (String × String) :=
  let table := s.toList.takeWhile fun c => c ≠ ':'
  match s.toList.dropWhile fun c => c ≠ ':' with
  | [] => none
  | _ :: id =>
    if table.isEmpty || id.isEmpty then none
    else if !knownRecordTables.contains (.ofList table) then none
    else if ['/', '/'].isPrefixOf id then none
    else some (.ofList table, .ofList id)

/-- Whether a text is a simple decimal: digits after an optional sign, and more
of them after an optional point. -/
def isDecimalLiteral (raw : String) : Bool :=
  let body := (stripPrefix "-" raw).getD raw
  let whole := body.toList.takeWhile fun c => c ≠ '.'
  !whole.isEmpty && whole.all Char.isDigit &&
    match body.toList.dropWhile fun c => c ≠ '.' with
    | [] => true
    | _ :: frac => !frac.isEmpty && frac.all Char.isDigit

/-- The 64-bit integer a text reads as. -/
def parseI64 (raw : String) : Option ℤ :=
  let digits (cs : List Char) : Option ℤ :=
    if !cs.isEmpty && cs.all Char.isDigit then some (Nat.ofDigitChars 10 cs 0 : ℕ) else none
  let value := match raw.toList with
    | '-' :: cs => (digits cs).map fun n => -n
    | '+' :: cs => digits cs
    | cs => digits cs
  value.filter fun n => -2 ^ 63 ≤ n && n < 2 ^ 63

/-! ## Values that fit their fields -/

def coerceRecordField (value : SinkValue) (targetTable : String) : SinkValue :=
  match value with
  | .string raw =>
    if (parseRecordLink raw).isSome then .string raw else .string s!"{targetTable}:{raw}"
  | _ => value

def coerceDecimalField (value : SinkValue) : SinkValue :=
  match value with
  | .string raw =>
    if (stripPrefix decimalPrefix raw).isSome then .string raw
    else if isDecimalLiteral raw then .string (decimalPrefix ++ raw)
    else .string raw
  | _ => value

def coerceIntField (value : SinkValue) : SinkValue :=
  match value with
  | .string raw =>
    match parseI64 raw with
    | some n => .number n
    | none => .string raw
  | _ => value

def coerceDatetimeField (value : SinkValue) : SinkValue :=
  match value with
  | .string raw =>
    if (stripPrefix datetimePrefix raw).isSome then .string raw
    else .string (datetimePrefix ++ raw)
  | _ => value

/-- Fit a value to a field of a node. The fields that hold lists are left out. -/
def normalizeNodeField (table field : String) (value : SinkValue) : SinkValue :=
  match table, field with
  | "account", "deposited" | "account", "withdrawn" | "account", "net" => coerceDecimalField value
  | "atom", "createdBy" => coerceRecordField value "account"
  | "atom", "vault" => coerceRecordField value "vault"
  | "triple", "createdBy" => coerceRecordField value "account"
  | "triple", "subject" | "triple", "predicate" | "triple", "object" =>
    coerceRecordField value "atom"
  | "triple", "vault" => coerceRecordField value "vault"
  | "artifact", "createdBy" => coerceRecordField value "account"
  | "vault", "createdBy" => coerceRecordField value "account"
  | "vault", "deposited" | "vault", "price" => coerceDecimalField value
  | "vault", "bondingCurve" => coerceIntField value
  | "position", "account" => coerceRecordField value "account"
  | "position", "vault" => coerceRecordField value "vault"
  | "position", "amount" => coerceDecimalField value
  | "stack", "forkedFrom" => coerceRecordField value "stack"
  | "stack", "root" => coerceRecordField value "atom"
  | _, _ => value

/-- Fit a value to a field of an edge. -/
def normalizeEdgeField (edgeTable field : String) (value : SinkValue) : SinkValue :=
  match edgeTable, field with
  | "artifact_link", "createdBy" => coerceRecordField value "account"
  | "opinion", "rating" => coerceIntField value
  | "deposit", "amount" | "withdraw", "amount" => coerceDecimalField value
  | "deposit", "curveId" | "withdraw", "curveId" | "deposit", "blockNumber"
  | "withdraw", "blockNumber" => coerceIntField value
  | "deposit", "updatedAt" | "withdraw", "updatedAt" => coerceDatetimeField value
  | "tag", "createdBy" => coerceRecordField value "account"
  | _, _ => value

/-- Fit a value that is added to a field of a node. -/
def normalizeIncrementField (table field : String) (value : SinkValue) : SinkValue :=
  match table, field with
  | "account", "deposited" | "account", "withdrawn" | "account", "net" => coerceDecimalField value
  | "position", "amount" => coerceDecimalField value
  | "vault", "deposited" | "vault", "price" => coerceDecimalField value
  | _, _ => value

theorem coerceDecimalField_decimalValue (raw : String) :
    coerceDecimalField (decimalValue raw) = decimalValue raw := by
  show (if (stripPrefix decimalPrefix (decimalPrefix ++ raw)).isSome then _ else _) = _
  rw [stripPrefix_append]
  rfl

/-- A number given as a text fits every field that is added to. -/
theorem normalizeIncrementField_decimalValue (table field raw : String) :
    normalizeIncrementField table field (decimalValue raw) = decimalValue raw := by
  unfold normalizeIncrementField
  split <;> first | exact coerceDecimalField_decimalValue raw | rfl

section Sink

variable (fmt : SurrealFormats)

/-- The SurrealDB value a JSON value is written as; a number too large for
SurrealDB is cast to a decimal. -/
def valueToSurql : SinkValue → Option SurrealValue
  | .null => some .noneValue
  | .bool b => some (.bool b)
  | .number n =>
    if -2 ^ 63 ≤ n ∧ n < 2 ^ 63 then some (.int n)
    else (fmt.castDecimal (toString n)).map .decimal
  | .string s =>
    match stripPrefix decimalPrefix s with
    | some raw => (fmt.castDecimal raw).map .decimal
    | none =>
      match stripPrefix datetimePrefix s with
      | some raw => some (.datetime raw)
      | none =>
        match parseRecordLink s with
        | some (table, id) => some (.record ⟨table, id⟩)
        | none => some (.text s)

/-- **A number given as a text is written as the number it is cast to.** -/
theorem valueToSurql_decimalValue (raw : String) :
    valueToSurql fmt (decimalValue raw) = (fmt.castDecimal raw).map .decimal := by
  show (match stripPrefix decimalPrefix (decimalPrefix ++ raw) with
    | some raw => _
    | none => _) = _
  rw [stripPrefix_append]

/-! ## The database -/

namespace SurrealValue

/-- The number a value is, if it is one. -/
def number? : SurrealValue → Option ℚ
  | .int n => some n
  | .decimal x => some x
  | _ => none

/-- The value of a field after a number is added to it. A field that is not
there is given the number; what is not a number cannot be added to. -/
def add (old : Option SurrealValue) (x : SurrealValue) : Option SurrealValue :=
  match old with
  | none | some .noneValue => some x
  | some (.int n) =>
    match x with
    | .int m => some (.int (n + m))
    | _ => x.number?.map fun y => .decimal (n + y)
  | some v => do return .decimal ((← v.number?) + (← x.number?))

end SurrealValue

/-- The identity of an edge: its table, the ids of its ends, and a suffix. -/
structure EdgeId where
  edgeTable : String
  sourceId : String
  targetId : String
  suffix : Option String
  deriving DecidableEq, Repr

/-- An edge. -/
structure EdgeRow where
  source : RecordId
  target : RecordId
  fields : List (String × SurrealValue)
  deriving DecidableEq, Repr

/-- A SurrealDB database: the fields of its nodes, and its edges. -/
structure SurrealDb where
  fields : Table (RecordId × String) SurrealValue := ∅
  edges : Table EdgeId EdgeRow := ∅

namespace SurrealSink

/-- Set some fields of a node, and leave its others alone. -/
def mergeFields (db : SurrealDb) (id : RecordId) (values : List (String × SurrealValue)) :
    SurrealDb :=
  { db with fields := values.foldl (fun t v => t.insert (id, v.1) v.2) db.fields }

/-- Add to one field of a node. -/
def incrementField (id : RecordId) (db : SurrealDb) (increment : String × SinkValue) :
    Option SurrealDb := do
  let x ← valueToSurql fmt (normalizeIncrementField id.table increment.1 increment.2)
  let sum ← SurrealValue.add (db.fields.lookup (id, increment.1)) x
  return { db with fields := db.fields.insert (id, increment.1) sum }

/-- Fit the fields of a node, and write them. -/
def nodeValues (table : String) (fields : List (String × SinkValue)) :
    Option (List (String × SurrealValue)) :=
  fields.mapM fun field => do
    return (field.1, ← valueToSurql fmt (normalizeNodeField table field.1 field.2))

/-- The edges that may refer to a draft of a triple: their table, and whether
they refer to it where they start. -/
def tripleEdgeRewrites : List (String × Bool) :=
  [("artifact_link", true), ("bookmark", false), ("tag", false), ("post_refers_item", false),
    ("comment_on", false)]

/-- The ids of the drafts of a triple: the other triples of the same parts that
say who drafted them. -/
def draftsOf (db : SurrealDb) (id : RecordId) (subject predicate object : String) :
    List String :=
  (((db.fields.keys.image Prod.fst).filter fun draft =>
      draft.table = "triple" ∧ draft ≠ id
        ∧ db.fields.lookup (draft, "subject") = some (.record ⟨"atom", subject⟩)
        ∧ db.fields.lookup (draft, "predicate") = some (.record ⟨"atom", predicate⟩)
        ∧ db.fields.lookup (draft, "object") = some (.record ⟨"atom", object⟩)
        ∧ (db.fields.lookup (draft, "draftedBy")).any (· ≠ .noneValue)).image RecordId.id).sort

/-- Let an edge refer to another record than a draft. -/
def rewriteEdge (id draft : RecordId) (edge : EdgeId) (row : EdgeRow) : EdgeRow :=
  if (edge.edgeTable, true) ∈ tripleEdgeRewrites ∧ row.source = draft then
    { row with source := id }
  else if (edge.edgeTable, false) ∈ tripleEdgeRewrites ∧ row.target = draft then
    { row with target := id }
  else row

/-- Let the edges of a draft refer to another record, and delete the draft. -/
def replaceDraft (id : RecordId) (db : SurrealDb) (draft : RecordId) : SurrealDb where
  fields := db.fields.deleteRows fun key _ => key.1 = draft
  edges := db.edges.mapRows (rewriteEdge id draft)

/-- Replace the drafts of a triple by it; who drafted the first of them is
kept. -/
def reconcileTripleDraft (db : SurrealDb) (id : RecordId) (subject predicate object : String)
    (values : List (String × SurrealValue)) : SurrealDb :=
  let drafts := (draftsOf db id subject predicate object).map (RecordId.mk "triple")
  let merged := mergeFields (drafts.foldl (replaceDraft id) db) id values
  match drafts.head?.bind fun draft => db.fields.lookup (draft, "draftedBy") with
  | some draftedBy => mergeFields merged id [("draftedBy", draftedBy)]
  | none => merged

/-- Execute one operation. -/
def applyOp (db : SurrealDb) : SinkOperation → Option SurrealDb
  | .upsertNode id fields => do
    return mergeFields db id (← nodeValues fmt id.table fields)
  | .upsertEdge source edgeTable target idSuffix fields => do
    let values ← fields.mapM fun field => do
      return (field.1, ← valueToSurql fmt (normalizeEdgeField edgeTable field.1 field.2))
    return { db with
      edges := db.edges.insert ⟨edgeTable, source.id, target.id, idSuffix⟩
        ⟨source, target, values⟩ }
  | .incrementFields id increments => increments.foldlM (incrementField fmt id) db
  | .reconcileTripleDraft id subject predicate object fields => do
    return reconcileTripleDraft db id subject predicate object (← nodeValues fmt id.table fields)

/-- Execute the operations of a batch in one transaction: a statement that fails
takes the others with it. -/
def applyBatch (db : SurrealDb) (ops : List SinkOperation) : Option SurrealDb :=
  ops.foldlM (applyOp fmt) db

end SurrealSink

end Sink
