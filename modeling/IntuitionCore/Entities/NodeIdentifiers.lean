import IntuitionCore.Entities.Actions
import IntuitionCore.Library.Chunks
import IntuitionCore.Library.Keyset
import IntuitionCore.Processing.Nodes
import Mathlib.Data.List.Dedup

/-!
# The aliases of a node

A node has one primary IID. The other identifiers that its classification found are
kept as rows of a table, at most 32 for each node, under the node and the IID. When a
classification completes, the rows of the node are reconciled with the projection that it
stores: rows whose IID is gone are deleted, and the others inserted unless their key is there.
A maintenance command inserts the rows of the stored projections of a page of nodes.
-/

namespace NodeIdentifiers

/-- The only source that the table admits. -/
inductive IdentifierSource where
  | rung
  deriving DecidableEq, Repr

/-- The columns of a row besides its key. -/
structure IdentifierColumns where
  scheme : String
  rung : String
  source : IdentifierSource
  deriving DecidableEq, Repr

/-- The columns of a node that the statements read. -/
structure IdentifierNode where
  iid : Option String := none
  classificationResult : Option KgJson := none

variable (ν : Type)

/-- A row that is to be stored. -/
structure IdentifierRow extends IdentifierColumns where
  nodeId : ν
  iid : String
  deriving DecidableEq, Repr

/-- Both tables: the rows refer to nodes. -/
@[ext] structure IdentifierDb where
  nodes : Table ν IdentifierNode
  nodeIdentifiers : Table (ν × String) IdentifierColumns
  references : ∀ key ∈ nodeIdentifiers, key.1 ∈ nodes

variable {ν}

/-! ## Projections -/

/-- A text that is not blank. -/
def isString : Option KgJson → Bool
  | some (.string s) => jsTrim s ≠ []
  | _ => false

def isOptionalString (value : Option KgJson) : Bool := value.isNone || isString value

/-- An entry of the rungs as it may be stored. -/
def isStoredRung : KgJson → Bool
  | .object fields =>
    isString (fields.lookup "rung") && isString (fields.lookup "value")
      && isOptionalString (fields.lookup "iid")
      && match fields.lookup "aliasOnly" with
        | some (.boolean _) => true
        | _ => false
  | _ => false

/-- The shape of a stored projection. -/
def isStoredIdentityRungProjection : Option KgJson → Bool
  | some (.object fields) =>
    isOptionalString (fields.lookup "category")
      && (match fields.lookup "primary" with
        | none => true
        | some (.object primary) =>
          isString (primary.lookup "rung") && isString (primary.lookup "iid")
        | some _ => false)
      && (match fields.lookup "provenance" with
        | some (.object provenance) =>
          isString (provenance.lookup "producer") && isString (provenance.lookup "version")
            && isOptionalString (provenance.lookup "specificationVersion")
        | _ => false)
      && match fields.lookup "rungs" with
        | some (.array rungs) => rungs.all isStoredRung
        | _ => false
  | _ => false

/-- The scheme of an IID: the part after its first colon, up to the next. -/
def schemeOf (iid : String) : Option String := ((iid.toList.splitOn ':').map String.ofList)[1]?

def identifierRungMaxItems : ℕ := 32

/-- The row of an entry, unless it is left out. -/
def identifierRow (nodeId : ν) (primaryIid : Option String) (rows : List (IdentifierRow ν))
    (entry : KgJson) : Option (IdentifierRow ν) := do
  let .string iid ← entry.get? "iid" | none
  let .string rung ← entry.get? "rung" | none
  let scheme ← schemeOf iid
  if iid = "" ∨ scheme = "" ∨ primaryIid = some iid ∨ primaryIid.bind schemeOf = some scheme
      ∨ iid ∈ rows.map (·.iid) then
    none
  else
    some { nodeId, iid, scheme, rung, source := .rung }

/-- The rows of some entries, after those that are there. -/
def projectEntries (nodeId : ν) (primaryIid : Option String) :
    List (IdentifierRow ν) → List KgJson → List (IdentifierRow ν)
  | rows, [] => rows
  | rows, entry :: entries =>
    match identifierRow nodeId primaryIid rows entry with
    | none => projectEntries nodeId primaryIid rows entries
    | some row =>
      if (rows ++ [row]).length = identifierRungMaxItems then rows ++ [row]
      else projectEntries nodeId primaryIid (rows ++ [row]) entries

def projectNodeIdentifiers (nodeId : ν) (identityRungs : Option KgJson)
    (primaryIid : Option String) : List (IdentifierRow ν) :=
  if isStoredIdentityRungProjection identityRungs then
    match identityRungs.bind (KgJson.get? "rungs") with
    | some (.array rungs) => projectEntries nodeId primaryIid [] rungs
    | _ => []
  else []

/-! ## Statements -/

def primaryLookupMaxItems : ℕ := 32000

def rowsPerInsert : ℕ := 13107

/-- A row is inserted unless its key is there. -/
def insertRow [DecidableEq ν] (t : Table (ν × String) IdentifierColumns)
    (row : IdentifierRow ν) : Table (ν × String) IdentifierColumns :=
  t.insertIfAbsent (row.nodeId, row.iid) row.toIdentifierColumns

/-- **Of several rows with a key the first is inserted**, if there is none yet. -/
lemma lookup_foldl_insertRow [DecidableEq ν] (rows : List (IdentifierRow ν))
    (t : Table (ν × String) IdentifierColumns) (key : ν × String) :
    (rows.foldl insertRow t).lookup key
      = (t.lookup key).or
          ((rows.find? fun row => (row.nodeId, row.iid) = key).map (·.toIdentifierColumns)) := by
  induction rows generalizing t with
  | nil => simp
  | cons row rows ih =>
    rw [List.foldl_cons, ih, insertRow, Table.insertIfAbsent, Table.lookup_upsert, List.find?_cons]
    by_cases hk : key = (row.nodeId, row.iid)
    · subst hk
      cases t.lookup (row.nodeId, row.iid) with
      | none => simp
      | some columns => simp
    · simp [hk, Ne.symm hk]

/-- A key is there if it was, or if a row has it. -/
lemma mem_foldl_insertRow [DecidableEq ν] {rows : List (IdentifierRow ν)}
    {t : Table (ν × String) IdentifierColumns} {key : ν × String}
    (h : key ∈ rows.foldl insertRow t) :
    key ∈ t ∨ ∃ row ∈ rows, (row.nodeId, row.iid) = key := by
  rw [← Finmap.lookup_isSome, lookup_foldl_insertRow, Option.isSome_or, Bool.or_eq_true,
    Finmap.lookup_isSome] at h
  refine h.imp_right fun h => ?_
  rw [Option.isSome_map, List.find?_isSome] at h
  obtain ⟨row, hr, hk⟩ := h
  exact ⟨row, hr, of_decide_eq_true hk⟩

/-- Rows inserted in batches are rows inserted. -/
lemma foldl_chunks_insertRow [DecidableEq ν] (rows : List (IdentifierRow ν))
    (t : Table (ν × String) IdentifierColumns) :
    (Chunks.chunks rowsPerInsert rows).foldl (fun t batch => batch.foldl insertRow t) t
      = rows.foldl insertRow t := by
  rw [← List.foldl_flatten, Chunks.flatten_chunks (by decide)]

namespace IdentifierDb

variable [DecidableEq ν] (db : IdentifierDb ν)

/-- The nodes that have an IID as their primary one, looked up in batches of the IIDs. -/
def owners (iids : List String) (iid : String) : Finset ν :=
  ((Chunks.chunks primaryLookupMaxItems iids).map fun batch =>
    db.nodes.keysWhere fun _ node => ∃ found ∈ node.iid, found ∈ batch ∧ found = iid).foldr
      (· ∪ ·) ∅

/-- The rows whose IID is not the primary one of another node. -/
def excludeNodeIdentifierPrimaryClaims (rows : List (IdentifierRow ν)) :
    List (IdentifierRow ν) :=
  let iids := (rows.map (·.iid)).dedup
  rows.filter fun row => ¬ ∃ id ∈ db.owners iids row.iid, id ≠ row.nodeId

/-- The rows are inserted in batches; a row of no node fails. -/
def upsertNodeIdentifierRows (rows : List (IdentifierRow ν)) : Option (IdentifierDb ν) :=
  if h : ∀ row ∈ rows, row.nodeId ∈ db.nodes then
    some
      { db with
        nodeIdentifiers :=
          (Chunks.chunks rowsPerInsert rows).foldl (fun t batch => batch.foldl insertRow t)
            db.nodeIdentifiers
        references := by
          intro key hkey
          rw [foldl_chunks_insertRow] at hkey
          obtain hkey | ⟨row, hrow, rfl⟩ := mem_foldl_insertRow hkey
          · exact db.references key hkey
          · exact h row hrow }
  else none

/-- The rows of a node that have none of some IIDs are deleted. -/
def deleteExcept (nodeId : ν) (iids : List String) : IdentifierDb ν where
  nodes := db.nodes
  nodeIdentifiers := db.nodeIdentifiers.deleteRows fun key columns =>
    key.1 = nodeId ∧ columns.source = .rung ∧ key.2 ∉ iids
  references := by
    intro key hkey
    rw [← Finmap.lookup_isSome, Table.lookup_deleteRows] at hkey
    refine db.references key (Finmap.lookup_isSome.mp ?_)
    cases hl : db.nodeIdentifiers.lookup key with
    | none => simp [hl] at hkey
    | some columns => rfl

def reconcileNodeIdentifiers (nodeId : ν) (identityRungs : Option KgJson)
    (primaryIid : Option String) : Option (IdentifierDb ν) :=
  if isStoredIdentityRungProjection identityRungs then
    let rows := db.excludeNodeIdentifierPrimaryClaims
      (projectNodeIdentifiers nodeId identityRungs primaryIid)
    (db.deleteExcept nodeId (rows.map (·.iid))).upsertNodeIdentifierRows rows
  else some db

end IdentifierDb

/-! ## The backfill -/

/-- The projection that a node stores. -/
def IdentifierNode.identityRungs (node : IdentifierNode) : Option KgJson :=
  node.classificationResult.bind (KgJson.get? "identityRungs")

variable (ν) in
structure IdentifierBackfillOptions where
  limit : ℕ := 100
  after : Option ν := none
  confirmed : Bool := false

/-- What a backfill prints of its page. -/
structure BackfilledPage (ν : Type) where
  count : ℕ
  aliases : ℕ
  nextAfter : Option ν
  deriving DecidableEq, Repr

namespace IdentifierDb

variable [LinearOrder ν] (db : IdentifierDb ν)

/-- The nodes of a page that store a projection. -/
def listIdentifierBackfillCandidates (limit : ℕ) (after : Option ν) : Option (List ν) :=
  if 1 ≤ limit ∧ limit ≤ 1000 then
    some <| (Keyset.inOrder (db.nodes.keysWhere fun id node =>
      node.identityRungs.isSome ∧ Keyset.IsAfter after id)).take limit
  else none

/-- The rows of the stored projection of a node. -/
def candidateRows (id : ν) : List (IdentifierRow ν) :=
  match db.nodes.lookup id with
  | some node => projectNodeIdentifiers id node.identityRungs node.iid
  | none => []

def runIdentifierBackfill (options : IdentifierBackfillOptions ν) :
    Option (IdentifierDb ν × BackfilledPage ν) := do
  let candidates ← db.listIdentifierBackfillCandidates options.limit options.after
  let rows := db.excludeNodeIdentifierPrimaryClaims (candidates.flatMap db.candidateRows)
  let db' ← if options.confirmed then db.upsertNodeIdentifierRows rows else some db
  return (db',
    { count := candidates.length, aliases := rows.length, nextAfter := candidates.getLast? })

end IdentifierDb

/-! ## Projected rows -/

lemma identifierRow_some {nodeId : ν} {primaryIid : Option String} {rows : List (IdentifierRow ν)}
    {entry : KgJson} {row : IdentifierRow ν}
    (h : identifierRow nodeId primaryIid rows entry = some row) :
    row.nodeId = nodeId ∧ row.iid ∉ rows.map (·.iid) := by
  unfold identifierRow at h
  simp only [Option.bind_eq_bind, Option.bind_eq_some_iff] at h
  obtain ⟨iid, -, h⟩ := h
  split at h
  case h_2 => cases h
  case h_1 iid =>
    obtain ⟨rung, -, h⟩ := Option.bind_eq_some_iff.mp h
    split at h
    case h_2 => cases h
    case h_1 rung =>
      obtain ⟨scheme, -, h⟩ := Option.bind_eq_some_iff.mp h
      split at h
      case isTrue => cases h
      case isFalse hn =>
        cases h
        push Not at hn
        exact ⟨rfl, hn.2.2.2.2⟩

/-- The rows of a node have different IIDs. -/
structure RowsOf (nodeId : ν) (rows : List (IdentifierRow ν)) : Prop where
  own : ∀ row ∈ rows, row.nodeId = nodeId
  nodup : (rows.map (·.iid)).Nodup

lemma RowsOf.push {nodeId : ν} {rows : List (IdentifierRow ν)} (h : RowsOf nodeId rows)
    {row : IdentifierRow ν} (hrow : row.nodeId = nodeId) (hnew : row.iid ∉ rows.map (·.iid)) :
    RowsOf nodeId (rows ++ [row]) where
  own := by
    intro r hr
    obtain hr | hr := List.mem_append.mp hr
    · exact h.own r hr
    · rw [List.mem_singleton.mp hr, hrow]
  nodup := by
    rw [List.map_append, List.map_singleton, List.nodup_append]
    refine ⟨h.nodup, List.nodup_singleton _, fun a ha b hb => ?_⟩
    rw [List.mem_singleton.mp hb]
    exact fun heq => hnew (heq ▸ ha)

lemma rowsOf_projectEntries {nodeId : ν} {primaryIid : Option String} (entries : List KgJson)
    {rows : List (IdentifierRow ν)} (h : RowsOf nodeId rows) :
    RowsOf nodeId (projectEntries nodeId primaryIid rows entries) := by
  induction entries generalizing rows with
  | nil => exact h
  | cons entry entries ih =>
    rw [projectEntries]
    cases hr : identifierRow nodeId primaryIid rows entry with
    | none => exact ih h
    | some row =>
      obtain ⟨hown, hnew⟩ := identifierRow_some hr
      have hpush := h.push hown hnew
      dsimp only
      split
      · exact hpush
      · exact ih hpush

/-- A projection has rows of its node, with different IIDs. -/
lemma rowsOf_projectNodeIdentifiers (nodeId : ν) (identityRungs : Option KgJson)
    (primaryIid : Option String) :
    RowsOf nodeId (projectNodeIdentifiers nodeId identityRungs primaryIid) := by
  have hnil : RowsOf nodeId ([] : List (IdentifierRow ν)) := ⟨by simp, List.nodup_nil⟩
  unfold projectNodeIdentifiers
  split
  · split
    · exact rowsOf_projectEntries _ hnil
    · exact hnil
  · exact hnil

namespace IdentifierDb

/-! ## Ownership -/

section Owners

variable [DecidableEq ν] {db db' : IdentifierDb ν}

/-- No other node has the IID of a row as its primary one. -/
def Unclaimed (db : IdentifierDb ν) (row : IdentifierRow ν) : Prop :=
  ∀ other node, db.nodes.lookup other = some node → node.iid = some row.iid →
    other = row.nodeId

lemma mem_foldr_union {α : Type} (f : α → Finset ν) (xs : List α) (id : ν) :
    id ∈ (xs.map f).foldr (· ∪ ·) ∅ ↔ ∃ x ∈ xs, id ∈ f x := by
  induction xs with
  | nil => simp
  | cons x xs ih => simp [ih]

lemma mem_owners {iids : List String} {iid : String} {id : ν} :
    id ∈ db.owners iids iid
      ↔ iid ∈ iids ∧ ∃ node, db.nodes.lookup id = some node ∧ node.iid = some iid := by
  have hbatch : iid ∈ iids ↔ ∃ batch ∈ Chunks.chunks primaryLookupMaxItems iids, iid ∈ batch := by
    rw [← List.mem_flatten, Chunks.flatten_chunks (by decide)]
  rw [owners, mem_foldr_union, hbatch]
  simp only [Table.mem_keysWhere]
  constructor
  · rintro ⟨batch, hb, node, hn, _, hi, hmem, rfl⟩
    exact ⟨⟨batch, hb, hmem⟩, node, hn, hi⟩
  · rintro ⟨⟨batch, hb, hmem⟩, node, hn, hi⟩
    exact ⟨batch, hb, node, hn, iid, hi, hmem, rfl⟩

/-- The rows that no other node claims are kept. -/
lemma mem_excludeNodeIdentifierPrimaryClaims {rows : List (IdentifierRow ν)}
    {row : IdentifierRow ν} :
    row ∈ db.excludeNodeIdentifierPrimaryClaims rows ↔ row ∈ rows ∧ db.Unclaimed row := by
  rw [excludeNodeIdentifierPrimaryClaims, List.mem_filter, decide_eq_true_iff]
  refine and_congr_right fun hrow => ?_
  have hiid : row.iid ∈ (rows.map (·.iid)).dedup :=
    List.mem_dedup.mpr (List.mem_map_of_mem hrow)
  constructor
  · intro h other node hn hi
    by_contra hne
    exact h ⟨other, mem_owners.mpr ⟨hiid, node, hn, hi⟩, hne⟩
  · rintro h ⟨id, hid, hne⟩
    obtain ⟨-, node, hn, hi⟩ := mem_owners.mp hid
    exact hne (h id node hn hi)

lemma rowsOf_exclude {nodeId : ν} {rows : List (IdentifierRow ν)} (h : RowsOf nodeId rows) :
    RowsOf nodeId (db.excludeNodeIdentifierPrimaryClaims rows) where
  own row hrow := h.own row (mem_excludeNodeIdentifierPrimaryClaims.mp hrow).1
  nodup := h.nodup.sublist (List.filter_sublist.map _)

end Owners

/-! ## The tables after a statement -/

section Statements

variable [DecidableEq ν] {db db' : IdentifierDb ν}

lemma upsertNodeIdentifierRows_eq_some {rows : List (IdentifierRow ν)}
    (h : db.upsertNodeIdentifierRows rows = some db') :
    db'.nodes = db.nodes ∧ db'.nodeIdentifiers = rows.foldl insertRow db.nodeIdentifiers := by
  unfold upsertNodeIdentifierRows at h
  split at h
  · cases h
    exact ⟨rfl, foldl_chunks_insertRow rows _⟩
  · cases h

/-- A row of a node is inserted unless there is one. -/
lemma lookup_of_mem_rows {nodeId : ν} {rows : List (IdentifierRow ν)} (hrows : RowsOf nodeId rows)
    (h : db.upsertNodeIdentifierRows rows = some db') {row : IdentifierRow ν} (hrow : row ∈ rows) :
    db'.nodeIdentifiers.lookup (nodeId, row.iid)
      = some ((db.nodeIdentifiers.lookup (nodeId, row.iid)).getD row.toIdentifierColumns) := by
  have hfind : rows.find? (fun r => (r.nodeId, r.iid) = (nodeId, row.iid)) = some row := by
    obtain ⟨found, hfound⟩ : ∃ found,
        rows.find? (fun r => (r.nodeId, r.iid) = (nodeId, row.iid)) = some found := by
      rw [← Option.isSome_iff_exists, List.find?_isSome]
      exact ⟨row, hrow, decide_eq_true (by rw [hrows.own row hrow])⟩
    have hiid : found.iid = row.iid := by
      have hkey := List.find?_some hfound
      exact congrArg Prod.snd (of_decide_eq_true hkey)
    rw [hfound, List.inj_on_of_nodup_map hrows.nodup (List.mem_of_find?_eq_some hfound) hrow hiid]
  rw [(upsertNodeIdentifierRows_eq_some h).2, lookup_foldl_insertRow, hfind]
  cases db.nodeIdentifiers.lookup (nodeId, row.iid) with
  | none => rfl
  | some columns => rfl

/-- A key of no row keeps what it has. -/
lemma lookup_of_not_mem_rows {rows : List (IdentifierRow ν)}
    (h : db.upsertNodeIdentifierRows rows = some db') {key : ν × String}
    (hkey : ∀ row ∈ rows, (row.nodeId, row.iid) ≠ key) :
    db'.nodeIdentifiers.lookup key = db.nodeIdentifiers.lookup key := by
  have hfind : rows.find? (fun r => (r.nodeId, r.iid) = key) = none := by
    rw [List.find?_eq_none]
    exact fun row hrow => by simpa using hkey row hrow
  rw [(upsertNodeIdentifierRows_eq_some h).2, lookup_foldl_insertRow, hfind]
  simp

lemma lookup_deleteExcept (nodeId : ν) (iids : List String) (key : ν × String) :
    (db.deleteExcept nodeId iids).nodeIdentifiers.lookup key
      = if key.1 = nodeId ∧ key.2 ∉ iids then none else db.nodeIdentifiers.lookup key := by
  refine (Table.lookup_deleteRows _ _ _).trans ?_
  -- every row has the only source
  have hsource : ∀ columns : IdentifierColumns, columns.source = .rung := fun columns => by
    cases columns.source
    rfl
  cases db.nodeIdentifiers.lookup key with
  | none => simp
  | some columns => by_cases hk : key.1 = nodeId ∧ key.2 ∉ iids <;> simp [hk, hsource]

end Statements

/-! ## Reconciliation -/

section Reconcile

variable [DecidableEq ν] {db db' : IdentifierDb ν} {nodeId : ν} {identityRungs : Option KgJson}
  {primaryIid : Option String}

/-- A row of the projection that no other node claims. -/
def IsKept (db : IdentifierDb ν) (nodeId : ν) (identityRungs : Option KgJson)
    (primaryIid : Option String) (row : IdentifierRow ν) : Prop :=
  row ∈ projectNodeIdentifiers nodeId identityRungs primaryIid ∧ db.Unclaimed row

/-- The node of a projection can be reconciled. -/
lemma exists_reconcileNodeIdentifiers (primaryIid : Option String) (hn : nodeId ∈ db.nodes)
    (hstored : isStoredIdentityRungProjection identityRungs = true) :
    ∃ db', db.reconcileNodeIdentifiers nodeId identityRungs primaryIid = some db' := by
  have hown : ∀ row ∈ db.excludeNodeIdentifierPrimaryClaims
      (projectNodeIdentifiers nodeId identityRungs primaryIid), row.nodeId ∈ db.nodes := by
    intro row hrow
    rw [(rowsOf_exclude (rowsOf_projectNodeIdentifiers _ _ _)).own row hrow]
    exact hn
  rw [reconcileNodeIdentifiers, if_pos hstored]
  exact ⟨_, dif_pos hown⟩

/-- **What a reconciliation leaves**: a row under each IID that is kept, which is the old one if
there was one, no other row of the node, and the rows of other nodes. -/
structure Leaves (db db' : IdentifierDb ν) (nodeId : ν) (identityRungs : Option KgJson)
    (primaryIid : Option String) : Prop where
  nodes : db'.nodes = db.nodes
  kept : ∀ row, db.IsKept nodeId identityRungs primaryIid row →
    db'.nodeIdentifiers.lookup (nodeId, row.iid)
      = some ((db.nodeIdentifiers.lookup (nodeId, row.iid)).getD row.toIdentifierColumns)
  deleted : ∀ iid, (∀ row, db.IsKept nodeId identityRungs primaryIid row → row.iid ≠ iid) →
    db'.nodeIdentifiers.lookup (nodeId, iid) = none
  others : ∀ other ≠ nodeId, ∀ iid,
    db'.nodeIdentifiers.lookup (other, iid) = db.nodeIdentifiers.lookup (other, iid)

lemma leaves_of_reconcile (hstored : isStoredIdentityRungProjection identityRungs = true)
    (h : db.reconcileNodeIdentifiers nodeId identityRungs primaryIid = some db') :
    db.Leaves db' nodeId identityRungs primaryIid := by
  rw [reconcileNodeIdentifiers, if_pos hstored] at h
  have hrows : RowsOf nodeId (db.excludeNodeIdentifierPrimaryClaims
      (projectNodeIdentifiers nodeId identityRungs primaryIid)) :=
    rowsOf_exclude (rowsOf_projectNodeIdentifiers nodeId identityRungs primaryIid)
  have hmem : ∀ row, row ∈ db.excludeNodeIdentifierPrimaryClaims
      (projectNodeIdentifiers nodeId identityRungs primaryIid)
        ↔ db.IsKept nodeId identityRungs primaryIid row := fun row =>
    mem_excludeNodeIdentifierPrimaryClaims
  generalize db.excludeNodeIdentifierPrimaryClaims
    (projectNodeIdentifiers nodeId identityRungs primaryIid) = rows at h hrows hmem
  constructor
  case nodes => exact (upsertNodeIdentifierRows_eq_some h).1
  case kept =>
    intro row hrow
    have hrow' := (hmem row).mpr hrow
    rw [lookup_of_mem_rows hrows h hrow', lookup_deleteExcept, if_neg]
    exact fun hk => hk.2 (List.mem_map_of_mem hrow')
  case deleted =>
    intro iid hiid
    have hnot : iid ∉ rows.map (·.iid) := by
      rintro hin
      obtain ⟨row, hrow, rfl⟩ := List.mem_map.mp hin
      exact hiid row ((hmem row).mp hrow) rfl
    rw [lookup_of_not_mem_rows h, lookup_deleteExcept, if_pos ⟨rfl, hnot⟩]
    rintro row hrow ⟨-, rfl⟩
    exact hnot (List.mem_map_of_mem hrow)
  case others =>
    intro other hne iid
    rw [lookup_of_not_mem_rows h, lookup_deleteExcept, if_neg fun hk => hne hk.1]
    rintro row hrow ⟨rfl, -⟩
    exact hne (hrows.own row hrow)

/-- A second reconciliation finds the tables as the first one leaves them. -/
lemma Leaves.again (h : db.Leaves db' nodeId identityRungs primaryIid) {db'' : IdentifierDb ν}
    (h' : db'.Leaves db'' nodeId identityRungs primaryIid) : db'' = db' := by
  have hkept : ∀ row, db'.IsKept nodeId identityRungs primaryIid row
      ↔ db.IsKept nodeId identityRungs primaryIid row := by
    intro row
    unfold IsKept Unclaimed
    rw [h.nodes]
  refine IdentifierDb.ext h'.nodes (Finmap.ext_lookup fun key => ?_)
  obtain ⟨other, iid⟩ := key
  by_cases hother : other = nodeId
  · subst hother
    by_cases hiid : ∃ row, db.IsKept other identityRungs primaryIid row ∧ row.iid = iid
    · obtain ⟨row, hrow, rfl⟩ := hiid
      rw [h'.kept row ((hkept row).mpr hrow), h.kept row hrow]
      rfl
    · push Not at hiid
      rw [h'.deleted iid fun row hrow => hiid row ((hkept row).mp hrow), h.deleted iid hiid]
  · exact h'.others other hother iid

end Reconcile

/-! ## What a reconciliation is to be -/

section Exact

variable [LinearOrder ν]

/-- **The rows of the node are those of its projection**, whatever they were, the others are
unchanged, and to reconcile again or to insert the rows of a page changes nothing of the node. -/
structure ReconciledExactly (db db' : IdentifierDb ν) (nodeId : ν)
    (identityRungs : Option KgJson) (primaryIid : Option String) : Prop where
  exact : ∀ iid columns, db'.nodeIdentifiers.lookup (nodeId, iid) = some columns
    ↔ ∃ row, db.IsKept nodeId identityRungs primaryIid row ∧ row.iid = iid
      ∧ row.toIdentifierColumns = columns
  others : ∀ other ≠ nodeId, ∀ iid,
    db'.nodeIdentifiers.lookup (other, iid) = db.nodeIdentifiers.lookup (other, iid)
  nodes : db'.nodes = db.nodes
  again : db'.reconcileNodeIdentifiers nodeId identityRungs primaryIid = some db'
  backfill : ∀ node, db.nodes.lookup nodeId = some node → node.iid = primaryIid →
    node.identityRungs = identityRungs →
    ∀ options db'' page, db'.runIdentifierBackfill options = some (db'', page) →
      ∀ iid, db''.nodeIdentifiers.lookup (nodeId, iid) = db'.nodeIdentifiers.lookup (nodeId, iid)

/-- No identifier that is kept was stored under another rung or scheme. -/
def KeptAgree (db : IdentifierDb ν) (nodeId : ν) (identityRungs : Option KgJson)
    (primaryIid : Option String) : Prop :=
  ∀ row, db.IsKept nodeId identityRungs primaryIid row →
    ∀ old, db.nodeIdentifiers.lookup (nodeId, row.iid) = some old →
      old.rung = row.rung ∧ old.scheme = row.scheme

variable {db db' : IdentifierDb ν} {nodeId : ν} {identityRungs : Option KgJson}
  {primaryIid : Option String}

/-- Where the identifiers agree, a row that is kept is the one of the projection. -/
lemma Leaves.kept_eq (h : db.Leaves db' nodeId identityRungs primaryIid)
    (hagree : db.KeptAgree nodeId identityRungs primaryIid) (row : IdentifierRow ν)
    (hrow : db.IsKept nodeId identityRungs primaryIid row) :
    db'.nodeIdentifiers.lookup (nodeId, row.iid) = some row.toIdentifierColumns := by
  rw [h.kept row hrow]
  cases hold : db.nodeIdentifiers.lookup (nodeId, row.iid) with
  | none => rfl
  | some old =>
    obtain ⟨hr, hs⟩ := hagree row hrow old hold
    rcases row with ⟨⟨scheme, rung, ⟨⟩⟩, id, iid⟩
    rcases old with ⟨scheme', rung', ⟨⟩⟩
    cases hr
    cases hs
    rfl

/-- A backfill inserts rows of stored projections only, under keys that are not there. -/
lemma lookup_runIdentifierBackfill {options : IdentifierBackfillOptions ν}
    {page : BackfilledPage ν} (h : db.runIdentifierBackfill options = some (db', page))
    (key : ν × String) :
    db'.nodeIdentifiers.lookup key = db.nodeIdentifiers.lookup key
      ∨ db.nodeIdentifiers.lookup key = none ∧ ∃ id, ∃ row ∈ db.candidateRows id,
        db.Unclaimed row ∧ (row.nodeId, row.iid) = key := by
  unfold runIdentifierBackfill at h
  obtain ⟨candidates, -, h⟩ := Option.bind_eq_some_iff.mp h
  split at h
  case isFalse =>
    obtain ⟨db'', hup, h⟩ := Option.bind_eq_some_iff.mp h
    cases hup
    cases h
    exact .inl rfl
  case isTrue =>
    obtain ⟨db'', hup, h⟩ := Option.bind_eq_some_iff.mp h
    cases h
    by_cases hkey : ∃ row ∈ db.excludeNodeIdentifierPrimaryClaims
        (candidates.flatMap db.candidateRows), (row.nodeId, row.iid) = key
    · cases hl : db.nodeIdentifiers.lookup key with
      | some columns =>
        rw [(upsertNodeIdentifierRows_eq_some hup).2, lookup_foldl_insertRow, hl]
        exact .inl rfl
      | none =>
        obtain ⟨row, hrow, hk⟩ := hkey
        obtain ⟨hrow, hfree⟩ := mem_excludeNodeIdentifierPrimaryClaims.mp hrow
        obtain ⟨id, -, hrow⟩ := List.mem_flatMap.mp hrow
        exact .inr ⟨rfl, id, row, hrow, hfree, hk⟩
    · push Not at hkey
      exact .inl (lookup_of_not_mem_rows hup hkey)

/-- The rows of a node that stores the projection are those of the projection. -/
lemma mem_candidateRows {id : ν} {row : IdentifierRow ν} (hrow : row ∈ db.candidateRows id) :
    row.nodeId = id ∧ ∃ node, db.nodes.lookup id = some node
      ∧ row ∈ projectNodeIdentifiers id node.identityRungs node.iid := by
  unfold candidateRows at hrow
  split at hrow
  case h_2 => cases hrow
  case h_1 node hn => exact ⟨(rowsOf_projectNodeIdentifiers _ _ _).own row hrow, node, hn, hrow⟩

/-- A backfill adds no row of the node. -/
lemma Leaves.backfill (h : db.Leaves db' nodeId identityRungs primaryIid) {node : IdentifierNode}
    (hnode : db.nodes.lookup nodeId = some node) (hiid : node.iid = primaryIid)
    (hrungs : node.identityRungs = identityRungs) {options : IdentifierBackfillOptions ν}
    {db'' : IdentifierDb ν} {page : BackfilledPage ν}
    (hb : db'.runIdentifierBackfill options = some (db'', page)) (iid : String) :
    db''.nodeIdentifiers.lookup (nodeId, iid) = db'.nodeIdentifiers.lookup (nodeId, iid) := by
  refine (lookup_runIdentifierBackfill hb (nodeId, iid)).resolve_right ?_
  rintro ⟨hnone, id, row, hrow, hfree, hkey⟩
  obtain ⟨hid, stored, hstored, hrow⟩ := mem_candidateRows hrow
  obtain ⟨hnode', rfl⟩ := Prod.mk.injEq _ _ _ _ ▸ hkey
  subst hid
  obtain rfl : stored = node := by
    rw [h.nodes, hnode', hnode] at hstored
    exact (Option.some.inj hstored).symm
  -- the row is one that the reconciliation kept
  rw [hiid, hrungs, hnode'] at hrow
  unfold Unclaimed at hfree
  rw [h.nodes] at hfree
  rw [h.kept row ⟨hrow, hfree⟩] at hnone
  cases hnone

/-- **A reconciliation is exact if and only if the identifiers that it keeps agree.** -/
theorem reconcileNodeIdentifiers_exact_iff (db : IdentifierDb ν) (nodeId : ν)
    (identityRungs : Option KgJson) (primaryIid : Option String) (hn : nodeId ∈ db.nodes)
    (hstored : isStoredIdentityRungProjection identityRungs = true) :
    ∃ db', db.reconcileNodeIdentifiers nodeId identityRungs primaryIid = some db'
      ∧ (db.ReconciledExactly db' nodeId identityRungs primaryIid
        ↔ db.KeptAgree nodeId identityRungs primaryIid) := by
  obtain ⟨db', hdb'⟩ := exists_reconcileNodeIdentifiers primaryIid hn hstored
  have hl := leaves_of_reconcile hstored hdb'
  refine ⟨db', hdb', fun h => ?_, fun h => ⟨?_, hl.others, hl.nodes, ?_, ?_⟩⟩
  · intro row hrow old hold
    have hnew := (h.exact row.iid row.toIdentifierColumns).mpr ⟨row, hrow, rfl, rfl⟩
    rw [hl.kept row hrow, hold] at hnew
    cases hnew
    exact ⟨rfl, rfl⟩
  · intro iid columns
    constructor
    · intro hlook
      by_cases hiid : ∃ row, db.IsKept nodeId identityRungs primaryIid row ∧ row.iid = iid
      · obtain ⟨row, hrow, rfl⟩ := hiid
        refine ⟨row, hrow, rfl, ?_⟩
        rw [hl.kept_eq h row hrow] at hlook
        exact Option.some.inj hlook
      · push Not at hiid
        rw [hl.deleted iid hiid] at hlook
        cases hlook
    · rintro ⟨row, hrow, rfl, rfl⟩
      exact hl.kept_eq h row hrow
  · have hn' : nodeId ∈ db'.nodes := hl.nodes ▸ hn
    obtain ⟨db'', hdb''⟩ := exists_reconcileNodeIdentifiers primaryIid hn' hstored
    rw [hdb'', hl.again (leaves_of_reconcile hstored hdb'')]
  · exact fun node hnode hiid hrungs options db'' page hb => hl.backfill hnode hiid hrungs hb

end Exact

end IdentifierDb

/-! ## An identifier that changes its rung -/

/-- The projection of a node that a provider knows by its Spotify album. -/
def albumProjection : KgJson :=
  .object
    [("rungs", .array [.object
      [("rung", .string "spotify:album"), ("value", .string "id"),
        ("iid", .string "int:spotify:album:id"), ("aliasOnly", .boolean false)]]),
     ("provenance", .object [("producer", .string "ladder"), ("version", .string "1")])]

/-- The row of the album, under a rung. -/
def albumRow (rung : String) : IdentifierRow String :=
  { nodeId := "node", iid := "int:spotify:album:id", scheme := "spotify", rung, source := .rung }

/-- A node without aliases, and one that knows the album under a rung. -/
def albumDb (rung : Option String) : IdentifierDb String where
  nodes := Finmap.singleton "node"
    { iid := some "int:isbn:primary"
      classificationResult := some (.object [("identityRungs", albumProjection)]) }
  nodeIdentifiers :=
    match rung with
    | none => ∅
    | some rung =>
      Finmap.singleton ("node", "int:spotify:album:id") (albumRow rung).toIdentifierColumns
  references := by
    intro key hkey
    cases rung with
    | none => cases Finmap.notMem_empty hkey
    | some rung =>
      rw [(Finmap.mem_singleton _ _ _).mp hkey]
      exact (Finmap.mem_singleton _ _ _).mpr rfl

lemma mem_nodes_albumDb (rung : Option String) : "node" ∈ (albumDb rung).nodes :=
  (Finmap.mem_singleton _ _ _).mpr rfl

lemma isStored_albumProjection : isStoredIdentityRungProjection (some albumProjection) = true := by
  decide +kernel

/-- The album is kept under the rung of the projection. -/
lemma isKept_albumRow (rung : Option String) :
    (albumDb rung).IsKept "node" (some albumProjection) (some "int:isbn:primary")
      (albumRow "spotify:album") := by
  refine ⟨by decide +kernel, fun other node hother hiid => ?_⟩
  have hmem : other ∈ (albumDb rung).nodes := Finmap.mem_of_lookup_eq_some hother
  exact (Finmap.mem_singleton _ _ _).mp hmem

/-- An album without an old row is reconciled exactly. -/
theorem reconcileNodeIdentifiers_exact_iff_album :
    ∃ db', (albumDb none).reconcileNodeIdentifiers "node" (some albumProjection)
        (some "int:isbn:primary") = some db'
      ∧ (albumDb none).ReconciledExactly db' "node" (some albumProjection)
        (some "int:isbn:primary") := by
  obtain ⟨db', hdb', hiff⟩ := IdentifierDb.reconcileNodeIdentifiers_exact_iff (albumDb none) "node"
    (some albumProjection) (some "int:isbn:primary") (mem_nodes_albumDb none)
    isStored_albumProjection
  refine ⟨db', hdb', hiff.mpr fun row hrow old hold => ?_⟩
  cases Finmap.lookup_empty (β := fun _ => IdentifierColumns) ("node", row.iid) ▸ hold

/-- **The rung of an old row stays**: an album that was found as a handle of the provider is not
known by its rung once it has one. -/
theorem reconcileNodeIdentifiers_staleRung :
    ∃ db', (albumDb (some "handle")).reconcileNodeIdentifiers "node" (some albumProjection)
        (some "int:isbn:primary") = some db'
      ∧ db'.nodeIdentifiers.lookup ("node", "int:spotify:album:id")
        = some (albumRow "handle").toIdentifierColumns
      ∧ ¬ (albumDb (some "handle")).ReconciledExactly db' "node" (some albumProjection)
        (some "int:isbn:primary") := by
  obtain ⟨db', hdb'⟩ := IdentifierDb.exists_reconcileNodeIdentifiers (some "int:isbn:primary")
    (mem_nodes_albumDb (some "handle")) isStored_albumProjection
  have hkept := isKept_albumRow (some "handle")
  have hlook := (IdentifierDb.leaves_of_reconcile isStored_albumProjection hdb').kept _ hkept
  have hold : (albumDb (some "handle")).nodeIdentifiers.lookup ("node", "int:spotify:album:id")
      = some (albumRow "handle").toIdentifierColumns := Finmap.lookup_singleton_eq
  refine ⟨db', hdb', hlook.trans (by rw [albumRow, hold]; rfl), fun h => ?_⟩
  have hnew := (h.exact _ _).mpr ⟨_, hkept, rfl, rfl⟩
  rw [hlook, albumRow, hold] at hnew
  exact absurd hnew (by decide)

end NodeIdentifiers
