import IntuitionCore.Entities.Plan
import IntuitionCore.Library.Run

/-!
# Drafts of triples

A triple can be drafted before it is on the chain: the draft is a record of the
table `triple` under an id of its own, which says who drafted it. When the triple
is created on the chain, the sink looks for the drafts of its parts, lets the
edges that refer to them refer to the triple instead, deletes them, and writes
the triple. Who drafted the first of them is copied to the triple.

So a triple of the chain that has replaced a draft says who drafted it, which is
all that tells a draft from a triple of the chain. Another triple of the same
parts takes it for one more draft, and deletes it. The edges come to no harm, and
an operation that is executed again finds no drafts and changes nothing.
-/

/-! ## Records -/

namespace SurrealDb

/-- The records that have a field. -/
def records (db : SurrealDb) : Finset RecordId := db.fields.keys.image Prod.fst

theorem mem_records {db : SurrealDb} {id : RecordId} :
    id ∈ db.records ↔ ∃ field, (db.fields.lookup (id, field)).isSome := by
  simp [records, Finmap.mem_keys, Finmap.lookup_isSome]

end SurrealDb

namespace SurrealSink

variable {db db' : SurrealDb} {id draft r : RecordId} {subject predicate object : String}
  {values : List (String × SurrealValue)}

/-- **The fields that are set have the value given last**, and the others are as
they were. -/
theorem lookup_mergeFields (key : RecordId × String) :
    (mergeFields db id values).fields.lookup key
      = if key.1 = id then (values.reverse.lookup key.2).or (db.fields.lookup key)
        else db.fields.lookup key := by
  show (values.foldl (fun fields v => fields.insert (id, v.1) v.2) db.fields).lookup key = _
  generalize db.fields = fields
  induction values generalizing fields with
  | nil => simp
  | cons v values ih =>
    rw [List.foldl_cons, ih, List.reverse_cons, List.lookup_append]
    by_cases hid : key.1 = id
    · rw [if_pos hid, if_pos hid, Option.or_assoc, Table.lookup_cons_eq_ite]
      by_cases hv : key.2 = v.1
      · have hkey : key = (id, v.1) := Prod.ext hid hv
        rw [if_pos hv, hkey, Finmap.lookup_insert]
        rfl
      · rw [if_neg hv, Finmap.lookup_insert_of_ne _ fun h => hv (congrArg Prod.snd h)]
        rfl
    · rw [if_neg hid, if_neg hid, Finmap.lookup_insert_of_ne _ fun h => hid (congrArg Prod.fst h)]

/-- Setting fields twice is setting them once. -/
theorem mergeFields_mergeFields :
    mergeFields (mergeFields db id values) id values = mergeFields db id values := by
  refine congrArg (SurrealDb.mk · db.edges) (Finmap.ext_lookup fun key => ?_)
  show (mergeFields (mergeFields db id values) id values).fields.lookup key
    = (mergeFields db id values).fields.lookup key
  rw [lookup_mergeFields, lookup_mergeFields]
  by_cases hid : key.1 = id
  · rw [if_pos hid, if_pos hid, ← Option.or_assoc, Option.or_self]
  · rw [if_neg hid, if_neg hid]

/-- Fields that differ can be set in any order. -/
theorem mergeFields_comm {values' : List (String × SurrealValue)}
    (h : ∀ field, (values.reverse.lookup field).isSome → values'.reverse.lookup field = none) :
    mergeFields (mergeFields db id values) id values'
      = mergeFields (mergeFields db id values') id values := by
  refine congrArg (SurrealDb.mk · db.edges) (Finmap.ext_lookup fun key => ?_)
  show (mergeFields (mergeFields db id values) id values').fields.lookup key
    = (mergeFields (mergeFields db id values') id values).fields.lookup key
  rw [lookup_mergeFields, lookup_mergeFields, lookup_mergeFields, lookup_mergeFields]
  by_cases hid : key.1 = id
  · rw [if_pos hid, if_pos hid, if_pos hid, if_pos hid]
    cases hfield : values.reverse.lookup key.2 with
    | none => rfl
    | some v => rw [h key.2 (hfield ▸ rfl)]; rfl
  · rw [if_neg hid, if_neg hid, if_neg hid, if_neg hid]

/-- A record that some fields are set of is there. -/
theorem mem_records_mergeFields (hvalues : values ≠ []) :
    r ∈ (mergeFields db id values).records ↔ r = id ∨ r ∈ db.records := by
  simp only [SurrealDb.mem_records, lookup_mergeFields]
  by_cases hr : r = id
  · simp only [hr, if_true, true_or, iff_true]
    obtain ⟨v, hv⟩ := List.exists_mem_of_ne_nil values hvalues
    refine ⟨v.1, ?_⟩
    rw [Option.isSome_or, Bool.or_eq_true]
    refine Or.inl (List.lookup_isSome_iff.mpr ⟨v, List.mem_reverse.mpr hv, by simp⟩)
  · simp only [hr, if_false, false_or]

/-! ## Drafts -/

/-- The fields of a record by which it is taken for a draft of some parts. -/
def IsDraft (field : String → Option SurrealValue) (subject predicate object : String) : Prop :=
  field "subject" = some (.record ⟨"atom", subject⟩)
    ∧ field "predicate" = some (.record ⟨"atom", predicate⟩)
    ∧ field "object" = some (.record ⟨"atom", object⟩)
    ∧ (field "draftedBy").any (· ≠ .noneValue)

theorem mem_draftsOf {other : String} :
    other ∈ draftsOf db id subject predicate object
      ↔ RecordId.mk "triple" other ≠ id
        ∧ IsDraft (fun field => db.fields.lookup (⟨"triple", other⟩, field)) subject predicate
          object := by
  unfold draftsOf IsDraft
  rw [Finset.mem_sort, Finset.mem_image]
  constructor
  · rintro ⟨⟨table, other⟩, h, rfl⟩
    obtain ⟨-, rfl, hne, hparts⟩ := Finset.mem_filter.mp h
    exact ⟨hne, hparts⟩
  · rintro ⟨hne, hparts⟩
    refine ⟨⟨"triple", other⟩, Finset.mem_filter.mpr ⟨?_, rfl, hne, hparts⟩, rfl⟩
    exact SurrealDb.mem_records.mpr ⟨"subject", Option.isSome_of_eq_some hparts.1⟩

/-- The records of the drafts of a triple. -/
def draftRecords (db : SurrealDb) (id : RecordId) (subject predicate object : String) :
    List RecordId :=
  (draftsOf db id subject predicate object).map (RecordId.mk "triple")

theorem mem_draftRecords :
    r ∈ draftRecords db id subject predicate object
      ↔ r.table = "triple" ∧ r ≠ id
        ∧ IsDraft (fun field => db.fields.lookup (r, field)) subject predicate object := by
  unfold draftRecords
  rw [List.mem_map]
  constructor
  · rintro ⟨other, h, rfl⟩
    exact ⟨rfl, mem_draftsOf.mp h⟩
  · obtain ⟨table, other⟩ := r
    rintro ⟨rfl, h⟩
    exact ⟨other, mem_draftsOf.mpr h, rfl⟩

/-- The drafts of a triple are gone once they are replaced. -/
theorem lookup_replaceDrafts (drafts : List RecordId) (key : RecordId × String) :
    (drafts.foldl (replaceDraft id) db).fields.lookup key
      = if key.1 ∈ drafts then none else db.fields.lookup key := by
  induction drafts generalizing db with
  | nil => rfl
  | cons draft drafts ih =>
    rw [List.foldl_cons, ih]
    show (if _ then none else (db.fields.deleteRows fun key _ => key.1 = draft).lookup key) = _
    rw [Table.lookup_deleteRows]
    by_cases hrest : key.1 ∈ drafts
    · rw [if_pos hrest, if_pos (List.mem_cons_of_mem _ hrest)]
    · by_cases hdraft : key.1 = draft
      · rw [if_neg hrest, if_pos (hdraft ▸ List.mem_cons_self)]
        exact Option.filter_eq_none_iff.mpr fun v _ => by simp [hdraft]
      · rw [if_neg hrest, if_neg (by simp [hdraft, hrest])]
        cases db.fields.lookup key with
        | none => rfl
        | some v => simp [Option.filter_some, hdraft]

/-! ## Edges -/

/-- Where an edge refers to a draft, if it refers to one at all. -/
def draftEnd? (edgeTable : String) (row : EdgeRow) : Option RecordId :=
  (tripleEdgeRewrites.lookup edgeTable).map fun atSource =>
    if atSource then row.source else row.target

/-- The edges of a table refer to drafts where they start, or where they end, and
not both. -/
theorem mem_tripleEdgeRewrites {edgeTable : String} {atSource : Bool} :
    (edgeTable, atSource) ∈ tripleEdgeRewrites
      ↔ tripleEdgeRewrites.lookup edgeTable = some atSource := by
  constructor
  · intro h
    simp only [tripleEdgeRewrites, List.mem_cons, Prod.mk.injEq, List.not_mem_nil, or_false] at h
    obtain ⟨rfl, rfl⟩ | ⟨rfl, rfl⟩ | ⟨rfl, rfl⟩ | ⟨rfl, rfl⟩ | ⟨rfl, rfl⟩ := h <;> decide
  · intro h
    obtain ⟨front, back, heq, -⟩ := List.lookup_eq_some_iff.mp h
    exact heq ▸ List.mem_append_right front List.mem_cons_self

/-- An edge refers to the triple if it referred to the draft, and otherwise to
what it referred to. -/
theorem draftEnd?_rewriteEdge (edge : EdgeId) (row : EdgeRow) :
    draftEnd? edge.edgeTable (rewriteEdge id draft edge row)
      = (draftEnd? edge.edgeTable row).map fun r => if r = draft then id else r := by
  unfold draftEnd? rewriteEdge
  simp only [mem_tripleEdgeRewrites]
  cases tripleEdgeRewrites.lookup edge.edgeTable with
  | none => simp
  | some atSource =>
    cases atSource with
    | true => by_cases h : row.source = draft <;> simp [h]
    | false => by_cases h : row.target = draft <;> simp [h]

/-- The edges after some drafts were replaced, one after the other. -/
theorem lookup_edges_replaceDrafts (drafts : List RecordId) (edge : EdgeId) :
    (drafts.foldl (replaceDraft id) db).edges.lookup edge
      = (db.edges.lookup edge).map fun row =>
        drafts.foldl (fun row draft => rewriteEdge id draft edge row) row := by
  induction drafts generalizing db with
  | nil => exact Option.map_id'.symm
  | cons draft drafts ih =>
    rw [List.foldl_cons, ih]
    show ((db.edges.mapRows (rewriteEdge id draft)).lookup edge).map _ = _
    rw [Table.lookup_mapRows, Option.map_map]
    rfl

/-- **An edge that referred to one of the drafts refers to the triple.** -/
theorem draftEnd?_replaceDrafts {drafts : List RecordId} (hid : id ∉ drafts) (edge : EdgeId)
    (row : EdgeRow) :
    draftEnd? edge.edgeTable (drafts.foldl (fun row draft => rewriteEdge id draft edge row) row)
      = (draftEnd? edge.edgeTable row).map fun r => if r ∈ drafts then id else r := by
  induction drafts generalizing row with
  | nil => simp
  | cons draft drafts ih =>
    obtain ⟨hne, hid⟩ := not_or.mp (mt List.mem_cons.mpr hid)
    rw [List.foldl_cons, ih hid, draftEnd?_rewriteEdge, Option.map_map]
    refine congrArg (Option.map · _) (funext fun r => ?_)
    show (if (if r = draft then id else r) ∈ drafts then id else if r = draft then id else r) = _
    by_cases hr : r = draft
    · rw [if_pos hr, if_neg hid, if_pos (hr ▸ List.mem_cons_self)]
    · simp [hr]

/-! ## Reconciliation -/

/-- Who drafted the first of the drafts, as a field to set. -/
def draftedByOf (db : SurrealDb) (id : RecordId) (subject predicate object : String) :
    List (String × SurrealValue) :=
  ((draftRecords db id subject predicate object).head?.bind
    fun draft => db.fields.lookup (draft, "draftedBy")).toList.map fun v => ("draftedBy", v)

/-- What a triple of the chain does to the drafts of it, and then to its own
record. -/
theorem reconcileTripleDraft_eq :
    reconcileTripleDraft db id subject predicate object values
      = mergeFields (mergeFields
          ((draftRecords db id subject predicate object).foldl (replaceDraft id) db) id values)
          id (draftedByOf db id subject predicate object) := by
  unfold reconcileTripleDraft draftedByOf draftRecords
  simp only
  split
  · next draftedBy hdraftedBy =>
    rw [hdraftedBy]
    rfl
  · next hnone =>
    rw [hnone]
    rfl

/-- **The other records are left alone**, but for the drafts, which are gone. -/
theorem lookup_reconcileTripleDraft_of_ne (hr : r ≠ id) (field : String) :
    (reconcileTripleDraft db id subject predicate object values).fields.lookup (r, field)
      = if r ∈ draftRecords db id subject predicate object then none
        else db.fields.lookup (r, field) := by
  rw [reconcileTripleDraft_eq, lookup_mergeFields, if_neg hr, lookup_mergeFields, if_neg hr,
    lookup_replaceDrafts]

/-- **The triple is there afterwards**, and of the others all but the drafts. -/
theorem mem_records_reconcileTripleDraft (hvalues : values ≠ []) :
    r ∈ (reconcileTripleDraft db id subject predicate object values).records
      ↔ r = id ∨ r ∈ db.records ∧ r ∉ draftRecords db id subject predicate object := by
  by_cases hr : r = id
  · refine iff_of_true ?_ (Or.inl hr)
    rw [reconcileTripleDraft_eq]
    cases draftedByOf db id subject predicate object with
    | nil => exact (mem_records_mergeFields hvalues).mpr (Or.inl hr)
    | cons v vs => exact (mem_records_mergeFields (List.cons_ne_nil v vs)).mpr (Or.inl hr)
  · simp only [SurrealDb.mem_records, lookup_reconcileTripleDraft_of_ne hr, hr, false_or]
    by_cases hdraft : r ∈ draftRecords db id subject predicate object <;> simp [hdraft]

/-- An edge refers to the triple afterwards if it referred to one of the drafts,
and otherwise to what it referred to. -/
theorem draftEnd?_of_lookup_reconcileTripleDraft {edge : EdgeId} {row' : EdgeRow}
    (h : (reconcileTripleDraft db id subject predicate object values).edges.lookup edge
      = some row') :
    ∃ row, db.edges.lookup edge = some row
      ∧ draftEnd? edge.edgeTable row' = (draftEnd? edge.edgeTable row).map fun r =>
        if r ∈ draftRecords db id subject predicate object then id else r := by
  rw [reconcileTripleDraft_eq] at h
  replace h : ((draftRecords db id subject predicate object).foldl
    (replaceDraft id) db).edges.lookup edge = some row' := h
  rw [lookup_edges_replaceDrafts] at h
  obtain ⟨row, hrow, rfl⟩ := Option.map_eq_some_iff.mp h
  exact ⟨row, hrow, draftEnd?_replaceDrafts (fun hid => (mem_draftRecords.mp hid).2.1 rfl) edge row⟩

/-- A triple that was put in the place of its drafts has no drafts left. -/
theorem draftRecords_reconcileTripleDraft :
    draftRecords (reconcileTripleDraft db id subject predicate object values) id subject predicate
      object = [] := by
  refine List.eq_nil_iff_forall_not_mem.mpr fun r hr => ?_
  obtain ⟨htable, hne, hdraft⟩ := mem_draftRecords.mp hr
  simp only [lookup_reconcileTripleDraft_of_ne hne] at hdraft
  by_cases hmem : r ∈ draftRecords db id subject predicate object
  · simp only [hmem, if_true] at hdraft
    exact absurd hdraft.1 (by simp)
  · simp only [hmem, if_false] at hdraft
    exact hmem (mem_draftRecords.mpr ⟨htable, hne, hdraft⟩)

/-- **To reconcile a triple again changes nothing.** -/
theorem reconcileTripleDraft_reconcileTripleDraft
    (hvalues : values.reverse.lookup "draftedBy" = none) :
    reconcileTripleDraft (reconcileTripleDraft db id subject predicate object values) id subject
        predicate object values
      = reconcileTripleDraft db id subject predicate object values := by
  have hagain : ∀ db', draftRecords db' id subject predicate object = []
      → reconcileTripleDraft db' id subject predicate object values
        = mergeFields db' id values := by
    intro db' hnone
    rw [reconcileTripleDraft_eq, draftedByOf, hnone]
    rfl
  rw [hagain _ draftRecords_reconcileTripleDraft, reconcileTripleDraft_eq]
  -- who drafted the triple is none of the fields that are set again
  refine (mergeFields_comm fun field hfield => ?_).symm.trans
    (congrArg (mergeFields · id _) mergeFields_mergeFields)
  refine List.lookup_eq_none_iff.mpr fun v hv => bne_iff_ne.mpr fun heq => ?_
  obtain ⟨x, -, rfl⟩ := List.mem_map.mp (List.mem_reverse.mp hv)
  rw [heq, hvalues] at hfield
  exact absurd hfield (by simp)

/-- **A triple that has replaced a draft is taken for a draft**, if its fields are
links to the parts. -/
theorem isDraft_reconcileTripleDraft
    (hdrafts : draftRecords db id subject predicate object ≠ [])
    (hsubject : values.reverse.lookup "subject" = some (.record ⟨"atom", subject⟩))
    (hpredicate : values.reverse.lookup "predicate" = some (.record ⟨"atom", predicate⟩))
    (hobject : values.reverse.lookup "object" = some (.record ⟨"atom", object⟩)) :
    IsDraft (fun field => (reconcileTripleDraft db id subject predicate object values).fields.lookup
      (id, field)) subject predicate object := by
  obtain ⟨draft, drafts, hcons⟩ := List.exists_cons_of_ne_nil hdrafts
  have hdraft := (mem_draftRecords.mp (hcons ▸ List.mem_cons_self : draft ∈ _)).2.2
  obtain ⟨v, hv, hsome⟩ := (Option.any_eq_true _ _).mp hdraft.2.2.2
  have hdraftedBy : draftedByOf db id subject predicate object = [("draftedBy", v)] := by
    rw [draftedByOf, hcons]
    simp [hv]
  simp only [IsDraft, reconcileTripleDraft_eq, lookup_mergeFields, hdraftedBy, if_true,
    List.reverse_singleton]
  refine ⟨?_, ?_, ?_, ?_⟩ <;> simp_all [List.lookup_cons]

/-- **The second triple deletes the first**, if the first has replaced a draft. -/
theorem not_mem_records_reconcileTripleDraft {id' : RecordId}
    {values' : List (String × SurrealValue)} (hvalues' : values' ≠ []) (hne : id ≠ id')
    (htable : id.table = "triple")
    (hdraft : IsDraft (fun field => db.fields.lookup (id, field)) subject predicate object) :
    id ∉ (reconcileTripleDraft db id' subject predicate object values').records := by
  rw [mem_records_reconcileTripleDraft hvalues']
  rintro (h | h)
  · exact hne h
  · exact h.2 (mem_draftRecords.mpr ⟨htable, hne, hdraft⟩)

end SurrealSink

/-! ## Operations of a plan -/

/-- The operation on the triple that a plan has for the creation of one. -/
def TripleProjection.tripleOp (creator termId subjectId predicateId objectId : String)
    (ts : SinkValue) : SinkOperation :=
  .reconcileTripleDraft ⟨"triple", termId⟩ subjectId predicateId objectId
    [("subject", .string subjectId), ("predicate", .string predicateId),
      ("object", .string objectId), ("createdBy", .string creator), ("onchain", .bool true),
      ("updatedAt", ts), ("vault", .string termId)]

/-- The other operations of the plan give an account and a vault their fields. -/
theorem TripleProjection.buildRawTripleOps_eq
    (creator termId subjectId predicateId objectId : String) (ts : SinkValue) :
    ∃ account vault, TripleProjection.buildRawTripleOps creator termId subjectId predicateId
        objectId ts
      = [.upsertNode ⟨"account", creator⟩ account, .upsertNode ⟨"vault", termId⟩ vault,
        TripleProjection.tripleOp creator termId subjectId predicateId objectId ts] :=
  ⟨_, _, rfl⟩

section Reconciliation

variable (fmt : SurrealFormats)

/-- The fields that are written are the ones given. -/
theorem SurrealSink.map_fst_nodeValues {table : String} {fields : List (String × SinkValue)}
    {values : List (String × SurrealValue)}
    (h : SurrealSink.nodeValues fmt table fields = some values) :
    values.map Prod.fst = fields.map Prod.fst := by
  unfold SurrealSink.nodeValues at h
  induction fields generalizing values with
  | nil =>
    cases h
    rfl
  | cons field fields ih =>
    rw [List.mapM_cons] at h
    obtain ⟨v, hv, h⟩ := Option.bind_eq_some_iff.mp h
    obtain ⟨vs, hvs, h⟩ := Option.bind_eq_some_iff.mp h
    obtain ⟨x, -, hx⟩ := Option.bind_eq_some_iff.mp hv
    cases hx
    cases h
    exact congrArg _ (ih hvs)

/-- **The operation on the triple writes no `draftedBy` of its own.** -/
theorem applyOp_tripleOp {db db' : SurrealDb}
    {creator termId subjectId predicateId objectId : String} {ts : SinkValue}
    (h : SurrealSink.applyOp fmt db
      (TripleProjection.tripleOp creator termId subjectId predicateId objectId ts) = some db') :
    ∃ values : List (String × SurrealValue), values ≠ []
      ∧ values.reverse.lookup "draftedBy" = none
      ∧ ∀ db₁, SurrealSink.applyOp fmt db₁
          (TripleProjection.tripleOp creator termId subjectId predicateId objectId ts)
        = some (SurrealSink.reconcileTripleDraft db₁ ⟨"triple", termId⟩ subjectId predicateId
            objectId values) := by
  obtain ⟨values, hvalues, -⟩ := Option.bind_eq_some_iff.mp h
  have hnames := SurrealSink.map_fst_nodeValues fmt hvalues
  refine ⟨values, ?_, ?_, fun db₁ => Option.bind_eq_some_iff.mpr ⟨values, hvalues, rfl⟩⟩
  · rintro rfl
    exact absurd hnames (by simp)
  · refine List.lookup_eq_none_iff.mpr fun v hv => bne_iff_ne.mpr fun heq => ?_
    have hmem := List.mem_map_of_mem (f := Prod.fst) (List.mem_reverse.mp hv)
    rw [hnames, ← heq] at hmem
    simp at hmem

/-! ## Runs -/

/-- A draft of a triple, and who drafted it. -/
structure TripleDraft where
  id : String
  subject : String
  predicate : String
  object : String
  draftedBy : SurrealValue
  isDrafted : draftedBy ≠ .noneValue

/-- The fields of the record of a draft. -/
def TripleDraft.fields (draft : TripleDraft) : List (String × SurrealValue) :=
  [("subject", .record ⟨"atom", draft.subject⟩), ("predicate", .record ⟨"atom", draft.predicate⟩),
    ("object", .record ⟨"atom", draft.object⟩), ("draftedBy", draft.draftedBy)]

/-- A database of triples. The triples of the chain are those an operation was
executed for. -/
structure TripleGraph where
  db : SurrealDb := {}
  onchain : Finset String := ∅
  /-- The operation that was just executed. -/
  last : Option SinkOperation := none

/-- What is done to the triples: drafts and edges are made by others, and the
sink executes the operation for a triple that was created on the chain. -/
inductive GraphAction where
  | createDraft (draft : TripleDraft)
  | drawEdge (edge : EdgeId) (row : EdgeRow)
  | reconcileTripleDraft (creator termId subjectId predicateId objectId : String)
      (blockTimestamp : ℤ)

namespace TripleGraph

variable {g g' : TripleGraph}

/-- An edge that refers to a triple refers to one that is there. -/
def EndExists (db : SurrealDb) (edge : EdgeId) (row : EdgeRow) : Prop :=
  ∀ r ∈ SurrealSink.draftEnd? edge.edgeTable row, r.table = "triple" → r ∈ db.records

instance (db : SurrealDb) (edge : EdgeId) (row : EdgeRow) : Decidable (EndExists db edge row) :=
  inferInstanceAs (Decidable (∀ r ∈ SurrealSink.draftEnd? edge.edgeTable row, _))

/-- A draft has an id that no triple has, and an edge is drawn to a triple that
is there. -/
def step (g : TripleGraph) : GraphAction → Option TripleGraph
  | .createDraft draft =>
    if RecordId.mk "triple" draft.id ∈ g.db.records then none
    else some { g with
      db := SurrealSink.mergeFields g.db ⟨"triple", draft.id⟩ draft.fields, last := none }
  | .drawEdge edge row =>
    if EndExists g.db edge row then
      some { g with db := { g.db with edges := g.db.edges.insert edge row }, last := none }
    else none
  | .reconcileTripleDraft creator termId subjectId predicateId objectId blockTimestamp => do
    let op := TripleProjection.tripleOp creator termId subjectId predicateId objectId
      (datetimeValue fmt blockTimestamp)
    return {
      db := ← SurrealSink.applyOp fmt g.db op, onchain := insert termId g.onchain, last := some op }

/-- Each triple of the chain is there, each edge refers to a triple that is
there, and the operation that was just executed changes nothing more. -/
structure TriplesKept (g : TripleGraph) : Prop where
  onchain : ∀ termId ∈ g.onchain, RecordId.mk "triple" termId ∈ g.db.records
  edges : ∀ edge row, g.db.edges.lookup edge = some row → EndExists g.db edge row
  again : ∀ op ∈ g.last, SurrealSink.applyOp fmt g.db op = some g.db

/-- No other triple of the chain has the parts of the triple and says who drafted
it. -/
def SparesTriples (g : TripleGraph) : GraphAction → Prop
  | .reconcileTripleDraft _ termId subjectId predicateId objectId _ =>
    ∀ other ∈ g.onchain, other ≠ termId →
      ¬ SurrealSink.IsDraft (fun field => g.db.fields.lookup (⟨"triple", other⟩, field)) subjectId
        predicateId objectId
  | _ => True

variable {fmt}

/-- A draft and an edge that are made keep the triples. -/
theorem triplesKept_createDraft {draft : TripleDraft} (hkept : TriplesKept fmt g)
    (h : step fmt g (.createDraft draft) = some g') : TriplesKept fmt g' := by
  obtain ⟨-, hg'⟩ := Option.ite_none_left_eq_some.mp h
  cases hg'
  have hmem : ∀ r, r ∈ g.db.records
      → r ∈ (SurrealSink.mergeFields g.db ⟨"triple", draft.id⟩ draft.fields).records :=
    fun r hr => (SurrealSink.mem_records_mergeFields (List.cons_ne_nil _ _)).mpr (Or.inr hr)
  exact ⟨fun termId ht => hmem _ (hkept.onchain termId ht),
    fun edge row hrow r hr htriple => hmem r (hkept.edges edge row hrow r hr htriple),
    fun op hop => absurd hop (Option.not_mem_none op)⟩

theorem triplesKept_drawEdge {edge : EdgeId} {row : EdgeRow} (hkept : TriplesKept fmt g)
    (h : step fmt g (.drawEdge edge row) = some g') : TriplesKept fmt g' := by
  obtain ⟨hend, hg'⟩ := Option.ite_none_right_eq_some.mp h
  cases hg'
  refine ⟨hkept.onchain, fun edge' row' hrow' => ?_,
    fun op hop => absurd hop (Option.not_mem_none op)⟩
  replace hrow' : (g.db.edges.insert edge row).lookup edge' = some row' := hrow'
  by_cases hedge : edge' = edge
  · subst hedge
    rw [Finmap.lookup_insert] at hrow'
    exact Option.some.inj hrow' ▸ hend
  · rw [Finmap.lookup_insert_of_ne _ hedge] at hrow'
    exact hkept.edges edge' row' hrow'

/-- **The operation for a triple keeps the triples exactly if it spares them.** -/
theorem triplesKept_reconcile_iff
    {creator termId subjectId predicateId objectId : String} {blockTimestamp : ℤ}
    (hkept : TriplesKept fmt g)
    (h : step fmt g (.reconcileTripleDraft creator termId subjectId predicateId objectId
      blockTimestamp) = some g') :
    TriplesKept fmt g'
      ↔ SparesTriples g (.reconcileTripleDraft creator termId subjectId predicateId objectId
        blockTimestamp) := by
  obtain ⟨db', hdb', hg'⟩ := Option.bind_eq_some_iff.mp h
  cases hg'
  obtain ⟨values, hvalues, hdraftedBy, happly⟩ := applyOp_tripleOp fmt hdb'
  obtain rfl := Option.some.inj (hdb'.symm.trans (happly g.db))
  have hmem : ∀ r, r ∈ (SurrealSink.reconcileTripleDraft g.db ⟨"triple", termId⟩ subjectId
      predicateId objectId values).records ↔ _ :=
    fun r => SurrealSink.mem_records_reconcileTripleDraft hvalues
  constructor
  · intro hkept' other hother hne hdraft
    have hrecord := hkept'.onchain other (Finset.mem_insert_of_mem hother)
    exact SurrealSink.not_mem_records_reconcileTripleDraft hvalues
      (fun heq => hne (congrArg RecordId.id heq)) rfl hdraft hrecord
  · intro hspares
    refine ⟨fun other hother => (hmem _).mpr ?_, fun edge row' hrow' r hr htriple => ?_,
      fun op hop => ?_⟩
    · by_cases hne : other = termId
      · exact Or.inl (congrArg _ hne)
      · have hother' := (Finset.mem_insert.mp hother).resolve_left hne
        refine Or.inr ⟨hkept.onchain other hother', fun hdraft => ?_⟩
        exact hspares other hother' hne (SurrealSink.mem_draftRecords.mp hdraft).2.2
    · obtain ⟨row, hrow, hend⟩ := SurrealSink.draftEnd?_of_lookup_reconcileTripleDraft hrow'
      rw [hend] at hr
      obtain ⟨r₀, hr₀, rfl⟩ := Option.map_eq_some_iff.mp hr
      refine (hmem _).mpr ?_
      by_cases hdraft : r₀ ∈ SurrealSink.draftRecords g.db ⟨"triple", termId⟩ subjectId predicateId
          objectId
      · exact Or.inl (if_pos hdraft)
      · rw [if_neg hdraft] at htriple ⊢
        exact Or.inr ⟨hkept.edges edge row hrow r₀ hr₀ htriple, hdraft⟩
    · cases hop
      rw [happly, SurrealSink.reconcileTripleDraft_reconcileTripleDraft hdraftedBy]

end TripleGraph

/-- **The triples of the chain are kept exactly if each operation spares those
that say who drafted them.** The edges always refer to triples that are there, as
far as these are kept, and an operation that is executed again always changes
nothing. -/
theorem onchain_triples_kept_iff (actions : List GraphAction) :
    Run.Always (TripleGraph.step fmt) (TripleGraph.TriplesKept fmt) {} actions
      ↔ Run.EachStep (TripleGraph.step fmt) TripleGraph.SparesTriples {} actions := by
  refine Run.always_iff_eachStep (I := fun _ => True) (fun _ _ _ _ _ => trivial)
    (fun g a g' _ hkept hstep => ?_) trivial ?_ actions
  · cases a with
    | createDraft draft =>
      exact iff_of_true (TripleGraph.triplesKept_createDraft hkept hstep) trivial
    | drawEdge edge row => exact iff_of_true (TripleGraph.triplesKept_drawEdge hkept hstep) trivial
    | reconcileTripleDraft creator termId subjectId predicateId objectId blockTimestamp =>
      exact TripleGraph.triplesKept_reconcile_iff hkept hstep
  · exact ⟨fun termId ht => absurd ht (Finset.notMem_empty termId),
      fun edge row hrow => absurd hrow (Option.some_ne_none row).symm,
      fun op hop => absurd hop (Option.not_mem_none op)⟩

end Reconciliation

/-! ## Two triples of the same parts -/

/-- A draft, and two triples of its parts that are created on the chain. -/
def draftAndTwoTriples : List GraphAction :=
  [.createDraft ⟨"draft", "0x1", "0x2", "0x3", .record ⟨"account", "0xu"⟩, by decide⟩,
    .reconcileTripleDraft "0xc" "0xa" "0x1" "0x2" "0x3" 0,
    .reconcileTripleDraft "0xc" "0xb" "0x1" "0x2" "0x3" 1]

/-- **The second triple deletes the first one**, which says who drafted it. -/
theorem draftAndTwoTriples_not_kept :
    ¬ ∀ (fmt : SurrealFormats) (actions : List GraphAction),
      Run.Always (TripleGraph.step fmt) (TripleGraph.TriplesKept fmt) {} actions := by
  intro h
  have hend : (Run.follow (TripleGraph.step .exact) {} draftAndTwoTriples).map
      (fun g => (decide ("0xa" ∈ g.onchain), decide (RecordId.mk "triple" "0xa" ∈ g.db.records)))
      = some (true, false) := by decide +kernel
  obtain ⟨g, hg, hlost⟩ := Option.map_eq_some_iff.mp hend
  have hkept := ((h .exact draftAndTwoTriples).of_follow hg).onchain "0xa"
  simp only [Prod.mk.injEq, decide_eq_true_eq, decide_eq_false_iff_not] at hlost
  exact hlost.2 (hkept hlost.1)
