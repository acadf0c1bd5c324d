import IntuitionCore.Entities.Plan
import IntuitionCore.Library.Quoting

/-!
# The data of an atom in SurrealQL

A value of a field is written into a statement as a literal. A text is put between
quotes, and is read as the same text again, whatever characters it has. But a text with
one of two prefixes is written as a number or as a time, and one that looks like the
name of a record as a link to it. These are for values that projections make. The data
of an atom is what anybody put into it, and goes the same way.

What SurrealDB reads is left to it. Of its literals it is taken that a quoted text is
read up to the closing quote, where a backslash stands before what is not written as
itself, that a cast gives a decimal or fails, and that the two calls give a time, or
fail, and a link.
-/

/-! ## Literals -/

/-- How texts are quoted in SurrealQL. -/
def surqlQuotes : QuoteStyle Char where
  quote := '\x27'
  mark := '\\'
  code c :=
    if c = '\\' then some '\\'
    else if c = '\x27' then some '\x27'
    else if c = '\n' then some 'n'
    else if c = '\r' then some 'r'
    else none
  decode c :=
    if c = '\\' then some '\\'
    else if c = '\x27' then some '\x27'
    else if c = 'n' then some '\n'
    else if c = 'r' then some '\r'
    else none
  decode_of_code x y h := by
    split_ifs at h with h₁ h₂ h₃ h₄ <;> cases h <;> subst_vars <;> rfl
  code_quote := rfl
  code_mark := rfl
  mark_ne_quote := by decide

/-- Escape a text for a literal between single quotes. -/
def escapeSurrealString (s : String) : String := .ofList (surqlQuotes.escape s.toList)

/-- The literal a value is written as. -/
def surqlLiteral : SinkValue → String
  | .null => "NONE"
  | .bool b => if b then "true" else "false"
  | .number n =>
    if -2 ^ 63 ≤ n ∧ n < 2 ^ 63 then toString n else "<decimal>'" ++ toString n ++ "'"
  | .string s =>
    match stripPrefix decimalPrefix s with
    | some raw => "<decimal>'" ++ escapeSurrealString raw ++ "'"
    | none =>
      match stripPrefix datetimePrefix s with
      | some raw => "type::datetime('" ++ escapeSurrealString raw ++ "')"
      | none =>
        match parseRecordLink s with
        | some (table, id) =>
          "type::record('" ++ escapeSurrealString table ++ "', '" ++ escapeSurrealString id ++ "')"
        | none => "'" ++ escapeSurrealString s ++ "'"

/-- What stands between two quotes is read as a text. -/
def Quotes (body s : String) : Prop :=
  surqlQuotes.read (body.toList ++ ['\x27']) = some (s.toList, [])

/-- **An escaped text is read as the text.** -/
theorem quotes_escapeSurrealString (s : String) : Quotes (escapeSurrealString s) s := by
  unfold Quotes escapeSurrealString
  rw [String.toList_ofList]
  exact surqlQuotes.read_escape s.toList []

/-- How SurrealDB reads a literal; `none` if it cannot, and the statement fails. -/
abbrev SurqlReader := String → Option SurrealValue

/-- What is taken of SurrealDB. -/
structure SurqlReader.Lawful (ql : SurqlReader) (fmt : SurrealFormats) : Prop where
  text : ∀ body s, Quotes body s → ql ("'" ++ body ++ "'") = some (.text s)
  decimal : ∀ body s, Quotes body s →
    ql ("<decimal>'" ++ body ++ "'") = (fmt.castDecimal s).map .decimal
  datetime : ∀ body s, Quotes body s → ∀ v ∈ ql ("type::datetime('" ++ body ++ "')"),
    ∃ t, v = .datetime t
  record : ∀ body body' table id, Quotes body table → Quotes body' id →
    ql ("type::record('" ++ body ++ "', '" ++ body' ++ "')") = some (.record ⟨table, id⟩)

/-! ## Atoms -/

/-- The bytes of a text, in hexadecimal digits. -/
def IsPayload (atomDataHex s : String) : Prop :=
  hexDecode ((stripPrefix "0x" atomDataHex).getD atomDataHex).toList = some s.toUTF8.data.toList

/-- A text that stands for itself: it can be kept by PostgreSQL, has neither of the
prefixes, and is not the name of a record. -/
def IsPlain (s : String) : Prop :=
  '\x00' ∉ s.toList ∧ stripPrefix decimalPrefix s = none ∧ stripPrefix datetimePrefix s = none
    ∧ parseRecordLink s = none

/-- The literal that an operation writes to a field of a node of a table. -/
def fieldLiteral (table field : String) : SinkOperation → Option String
  | .upsertNode id fields =>
    if id.table = table then
      (fields.lookup field).map fun value => surqlLiteral (normalizeNodeField table field value)
    else none
  | _ => none

namespace CoreEntitiesProjection

variable (fmt : SurrealFormats) (payload : StoredEvent → JsonObject)

/-- The literal that is written to the data of an atom. -/
def dataLiteral (metadata : EventMetadata) (data : AtomCreatedRecord) : Option String :=
  (buildAtomOpsTyped fmt metadata data).findSome? (fieldLiteral "atom" "data")

/-- A batch can be planned, and its operations are executed. -/
def GoesThrough (db : SurrealDb) (events : List ParsedEvent) : Prop :=
  ∃ ops rows, buildWritePlan fmt payload events = .ok (ops, rows)
    ∧ (SurrealSink.applyBatch fmt db ops).isSome

/-- **The data of an atom keeps its meaning**: it is written as a literal that is read
as the text, and no batch fails because of it. -/
def DataKept (ql : SurqlReader) (metadata : EventMetadata) (data : AtomCreatedRecord)
    (s : String) : Prop :=
  (∃ literal ∈ dataLiteral fmt metadata data, ql literal = some (.text s))
    ∧ ∀ payload db before after,
      GoesThrough fmt payload db
          (before ++ .atomCreated metadata { data with atomData := "0x" } :: after) →
        GoesThrough fmt payload db (before ++ .atomCreated metadata data :: after)

end CoreEntitiesProjection

/-! ## Texts without a colon -/

/-- What is decoded is hexadecimal digits. -/
theorem isSome_of_hexDecode {cs : List Char} {bytes : List UInt8}
    (h : hexDecode cs = some bytes) : ∀ c ∈ cs, (hexDigit? c).isSome := by
  induction cs using hexDecode.induct generalizing bytes with
  | case1 => nofun
  | case2 c => cases h
  | case3 c d cs ih =>
    obtain ⟨hi, hc, h⟩ := Option.bind_eq_some_iff.mp h
    obtain ⟨lo, hd, h⟩ := Option.bind_eq_some_iff.mp h
    obtain ⟨rest, hrest, -⟩ := Option.bind_eq_some_iff.mp h
    simpa [hc, hd] using ih hrest

/-- A payload has no other characters than digits and the one of its prefix. -/
theorem IsPayload.notMem {atomDataHex s : String} (h : IsPayload atomDataHex s) {c : Char}
    (hdigit : hexDigit? c = none) (hx : c ≠ 'x') : c ∉ atomDataHex.toList := by
  unfold IsPayload at h
  have hzero : c ≠ '0' := by
    rintro rfl
    cases hdigit
  intro hmem
  cases hstrip : stripPrefix "0x" atomDataHex with
  | none =>
    rw [hstrip] at h
    have hsome := isSome_of_hexDecode h c hmem
    rw [hdigit] at hsome
    cases hsome
  | some rest =>
    rw [hstrip] at h
    rw [stripPrefix_eq_some.mp hstrip, String.toList_append] at hmem
    obtain hmem | hmem := List.mem_append.mp hmem
    · simp [hzero, hx] at hmem
    · have hsome := isSome_of_hexDecode h c hmem
      rw [hdigit] at hsome
      cases hsome

/-- A text without a colon has neither of the prefixes, and is not the name of a
record. -/
theorem not_special_of_notMem {s : String} (h : ':' ∉ s.toList) :
    stripPrefix decimalPrefix s = none ∧ stripPrefix datetimePrefix s = none
      ∧ parseRecordLink s = none := by
  have hstrip : ∀ pre : String, ':' ∈ pre.toList → stripPrefix pre s = none := fun pre hpre => by
    refine Option.eq_none_iff_forall_ne_some.mpr fun r hr => h ?_
    rw [stripPrefix_eq_some.mp hr, String.toList_append]
    exact List.mem_append_left _ hpre
  refine ⟨hstrip _ (by decide), hstrip _ (by decide), ?_⟩
  have hdrop : s.toList.dropWhile (fun c => c ≠ ':') = [] := by
    refine List.dropWhile_eq_nil_iff.mpr fun c hc => ?_
    exact decide_eq_true fun heq => h (heq ▸ hc)
  unfold parseRecordLink
  simp only [hdrop]

section Literal

variable {fmt : SurrealFormats} {ql : SurqlReader} {s : String}

/-- **A text that is not special is written as itself**, and stored as itself. -/
theorem surqlLiteral_of_not_special
    (h : stripPrefix decimalPrefix s = none ∧ stripPrefix datetimePrefix s = none
      ∧ parseRecordLink s = none) :
    surqlLiteral (.string s) = "'" ++ escapeSurrealString s ++ "'"
      ∧ valueToSurql fmt (.string s) = some (.text s) := by
  obtain ⟨hdecimal, hdatetime, hrecord⟩ := h
  constructor
  · unfold surqlLiteral
    simp only [hdecimal, hdatetime, hrecord]
  · unfold valueToSurql
    simp only [hdecimal, hdatetime, hrecord]

/-- **A literal is read as a text exactly if the text is not special**; it is then
the same text. -/
theorem read_surqlLiteral_eq_text_iff (hql : ql.Lawful fmt) {t : String} :
    ql (surqlLiteral (.string s)) = some (.text t)
      ↔ (stripPrefix decimalPrefix s = none ∧ stripPrefix datetimePrefix s = none
        ∧ parseRecordLink s = none) ∧ t = s := by
  cases hdecimal : stripPrefix decimalPrefix s with
  | some raw =>
    simp [surqlLiteral, hdecimal, hql.decimal _ _ (quotes_escapeSurrealString raw)]
  | none =>
    cases hdatetime : stripPrefix datetimePrefix s with
    | some raw =>
      refine iff_of_false (fun h => ?_) (by simp)
      simp only [surqlLiteral, hdecimal, hdatetime] at h
      obtain ⟨_, h'⟩ := hql.datetime _ _ (quotes_escapeSurrealString raw) _ h
      cases h'
    | none =>
      cases hrecord : parseRecordLink s with
      | some link =>
        simp [surqlLiteral, hdecimal, hdatetime, hrecord,
          hql.record _ _ _ _ (quotes_escapeSurrealString link.1)
            (quotes_escapeSurrealString link.2)]
      | none =>
        simp [surqlLiteral, hdecimal, hdatetime, hrecord,
          hql.text _ _ (quotes_escapeSurrealString s), eq_comm]

end Literal

/-! ## Batches -/

section Batches

variable {fmt : SurrealFormats} {payload : StoredEvent → JsonObject}

/-- Fields can be written exactly if each of them can. -/
theorem isSome_nodeValues {table : String} {fields : List (String × SinkValue)} :
    (SurrealSink.nodeValues fmt table fields).isSome
      ↔ ∀ field ∈ fields, (valueToSurql fmt (normalizeNodeField table field.1 field.2)).isSome := by
  unfold SurrealSink.nodeValues
  induction fields with
  | nil => simp
  | cons field fields ih =>
    rw [List.forall_mem_cons, ← ih, List.mapM_cons]
    cases valueToSurql fmt (normalizeNodeField table field.1 field.2) with
    | none => simp
    | some v =>
      cases fields.mapM fun field : String × SinkValue => do
          return (field.1, ← valueToSurql fmt (normalizeNodeField table field.1 field.2)) <;> simp

end Batches

namespace CoreEntitiesProjection

variable {fmt : SurrealFormats} {payload : StoredEvent → JsonObject}

/-- The fields that an operation of a plan writes can be written. -/
def Writable (fmt : SurrealFormats) : SinkOperation → Prop
  | .upsertNode id fields => (SurrealSink.nodeValues fmt id.table fields).isSome
  | .reconcileTripleDraft id _ _ _ fields => (SurrealSink.nodeValues fmt id.table fields).isSome
  | _ => False

/-- An event can be planned, and its operations can be executed. -/
def EventGoesThrough (fmt : SurrealFormats) (payload : StoredEvent → JsonObject)
    (event : ParsedEvent) : Prop :=
  ∃ ops rows, planEvent fmt payload event = .ok (ops, rows) ∧ ∀ op ∈ ops, Writable fmt op

/-- Whether fields can be written does not depend on the database. -/
theorem isSome_applyOp_upsertNode (db : SurrealDb) (id : RecordId)
    (fields : List (String × SinkValue)) :
    (SurrealSink.applyOp fmt db (.upsertNode id fields)).isSome
      ↔ Writable fmt (.upsertNode id fields) := by
  cases hvalues : SurrealSink.nodeValues fmt id.table fields <;>
    simp [SurrealSink.applyOp, Writable, hvalues]

theorem isSome_applyOp_reconcile (db : SurrealDb) (id : RecordId)
    (subject predicate object : String) (fields : List (String × SinkValue)) :
    (SurrealSink.applyOp fmt db (.reconcileTripleDraft id subject predicate object fields)).isSome
      ↔ Writable fmt (.reconcileTripleDraft id subject predicate object fields) := by
  cases hvalues : SurrealSink.nodeValues fmt id.table fields <;>
    simp [SurrealSink.applyOp, Writable, hvalues]

theorem isSome_applyOp_atom {creator termId atomDataHex : String} {ts : SinkValue}
    (db : SurrealDb) : ∀ op ∈ buildAtomOpsRaw creator termId atomDataHex ts,
      ((SurrealSink.applyOp fmt db op).isSome ↔ Writable fmt op) := by
  intro op hop
  simp only [buildAtomOpsRaw, List.mem_cons, List.not_mem_nil, or_false] at hop
  obtain rfl | rfl | rfl := hop <;> exact isSome_applyOp_upsertNode db _ _

theorem isSome_applyOp_triple {creator termId subjectId predicateId objectId : String}
    {ts : SinkValue} (db : SurrealDb) :
    ∀ op ∈ TripleProjection.buildRawTripleOps creator termId subjectId predicateId objectId ts,
      ((SurrealSink.applyOp fmt db op).isSome ↔ Writable fmt op) := by
  intro op hop
  simp only [TripleProjection.buildRawTripleOps, List.mem_cons, List.not_mem_nil, or_false] at hop
  obtain rfl | rfl | rfl := hop
  · exact isSome_applyOp_upsertNode db _ _
  · exact isSome_applyOp_upsertNode db _ _
  · exact isSome_applyOp_reconcile db _ _ _ _ _

/-- An operation of a plan is executed exactly if its fields can be written. -/
theorem isSome_applyOp_iff {event : ParsedEvent} {ops : List SinkOperation} {rows : List PgTermRow}
    (h : planEvent fmt payload event = .ok (ops, rows)) (db : SurrealDb) :
    ∀ op ∈ ops, ((SurrealSink.applyOp fmt db op).isSome ↔ Writable fmt op) := by
  cases event with
  | atomCreated metadata data =>
    cases h
    exact isSome_applyOp_atom db
  | tripleCreated metadata data =>
    cases h
    exact isSome_applyOp_triple db
  | unknown raw =>
    simp only [planEvent] at h
    split_ifs at h
    · obtain ⟨creator, -, h⟩ := Result.bind_eq_ok.mp h
      obtain ⟨termId, -, h⟩ := Result.bind_eq_ok.mp h
      obtain ⟨atomDataHex, -, h⟩ := Result.bind_eq_ok.mp h
      cases h
      exact isSome_applyOp_atom db
    · obtain ⟨creator, -, h⟩ := Result.bind_eq_ok.mp h
      obtain ⟨termId, -, h⟩ := Result.bind_eq_ok.mp h
      obtain ⟨subjectId, -, h⟩ := Result.bind_eq_ok.mp h
      obtain ⟨predicateId, -, h⟩ := Result.bind_eq_ok.mp h
      obtain ⟨objectId, -, h⟩ := Result.bind_eq_ok.mp h
      cases h
      exact isSome_applyOp_triple db
    · cases h
      exact fun op hop => absurd hop List.not_mem_nil
  | _ =>
    cases h
    exact fun op hop => absurd hop List.not_mem_nil

/-- Operations of a kind that does not depend on the database are executed together
exactly if each is. -/
theorem isSome_applyBatch_iff {ops : List SinkOperation}
    (h : ∀ db, ∀ op ∈ ops, ((SurrealSink.applyOp fmt db op).isSome ↔ Writable fmt op))
    (db : SurrealDb) :
    (SurrealSink.applyBatch fmt db ops).isSome ↔ ∀ op ∈ ops, Writable fmt op := by
  unfold SurrealSink.applyBatch
  induction ops generalizing db with
  | nil => simp
  | cons op ops ih =>
    rw [List.forall_mem_cons, ← h db op List.mem_cons_self, List.foldlM_cons]
    cases hop : SurrealSink.applyOp fmt db op with
    | none => simp
    | some db' =>
      rw [← ih (fun db op hop => h db op (List.mem_cons_of_mem _ hop)) db']
      simp

/-- A batch is planned with operations that can be executed exactly if each of its
events is. -/
theorem exists_plan_iff {events : List ParsedEvent} (idx : ℕ) :
    (∃ ops rows, buildWritePlanFrom fmt payload idx events = .ok (ops, rows)
        ∧ ∀ op ∈ ops, Writable fmt op)
      ↔ ∀ event ∈ events, EventGoesThrough fmt payload event := by
  induction events generalizing idx with
  | nil => simp [buildWritePlanFrom]
  | cons event events ih =>
    rw [List.forall_mem_cons, ← ih (idx + 1)]
    constructor
    · rintro ⟨ops, rows, hok, hwrite⟩
      obtain ⟨⟨ops₁, rows₁⟩, hplan, hok⟩ := Result.bind_eq_ok.mp hok
      obtain ⟨⟨ops₂, rows₂⟩, hrest, hok⟩ := Result.bind_eq_ok.mp hok
      cases hok
      obtain ⟨hwrite₁, hwrite₂⟩ := List.forall_mem_append.mp hwrite
      exact ⟨⟨ops₁, rows₁, Result.mapError_eq_ok.mp hplan, hwrite₁⟩, ops₂, rows₂, hrest, hwrite₂⟩
    · rintro ⟨⟨ops₁, rows₁, hplan, hwrite₁⟩, ops₂, rows₂, hrest, hwrite₂⟩
      refine ⟨ops₁ ++ ops₂, rows₁ ++ rows₂, ?_, List.forall_mem_append.mpr ⟨hwrite₁, hwrite₂⟩⟩
      unfold buildWritePlanFrom
      rw [hplan, hrest]
      rfl

/-- The operations of a planned batch do not depend on the database. -/
theorem isSome_applyOp_of_plan {events : List ParsedEvent} {idx : ℕ} {ops : List SinkOperation}
    {rows : List PgTermRow} (h : buildWritePlanFrom fmt payload idx events = .ok (ops, rows))
    (db : SurrealDb) : ∀ op ∈ ops, ((SurrealSink.applyOp fmt db op).isSome ↔ Writable fmt op) := by
  induction events generalizing idx ops rows with
  | nil =>
    cases h
    exact fun op hop => absurd hop List.not_mem_nil
  | cons event events ih =>
    obtain ⟨⟨ops₁, rows₁⟩, hplan, h⟩ := Result.bind_eq_ok.mp h
    obtain ⟨⟨ops₂, rows₂⟩, hrest, h⟩ := Result.bind_eq_ok.mp h
    cases h
    exact List.forall_mem_append.mpr
      ⟨isSome_applyOp_iff (Result.mapError_eq_ok.mp hplan) db, ih hrest⟩

/-- **A batch goes through exactly if each of its events does.** -/
theorem goesThrough_iff {db : SurrealDb} {events : List ParsedEvent} :
    GoesThrough fmt payload db events ↔ ∀ event ∈ events, EventGoesThrough fmt payload event := by
  rw [← exists_plan_iff 0]
  refine exists₂_congr fun ops rows => and_congr_right fun hplan => ?_
  exact isSome_applyBatch_iff (fun db => isSome_applyOp_of_plan hplan db) db

/-! ## What is written of an atom -/

variable {ql : SurqlReader} {metadata : EventMetadata} {data : AtomCreatedRecord} {s : String}

/-- The literal is that of the text the atom is shown as. -/
theorem dataLiteral_eq : dataLiteral fmt metadata data
    = some (surqlLiteral (.string (displayData data.atomData))) := rfl

/-- The text an atom is shown as is its own, unless PostgreSQL cannot keep it. -/
theorem displayData_eq (hdata : IsPayload data.atomData s) :
    displayData data.atomData = if '\x00' ∈ s.toList then data.atomData else s := by
  have hutf8 : String.fromUTF8? ⟨s.toUTF8.data.toList.toArray⟩ = some s := by
    rw [Array.toArray_toList]
    exact dif_pos s.isValidUTF8
  have hdecode : decodeAtomDataHex data.atomData
      = if '\x00' ∈ s.toList then none else some s := by
    unfold decodeAtomDataHex
    dsimp only
    rw [show hexDecode _ = _ from hdata]
    show (String.fromUTF8? ⟨s.toUTF8.data.toList.toArray⟩).bind _ = _
    rw [hutf8]
    rfl
  unfold displayData
  rw [hdecode]
  by_cases hnull : '\x00' ∈ s.toList
  · rw [if_pos hnull, if_pos hnull]
    rfl
  · rw [if_neg hnull, if_neg hnull]
    rfl

/-- **The literal is read as the data exactly if this stands for itself.** -/
theorem read_dataLiteral_iff (hql : ql.Lawful fmt) (hdata : IsPayload data.atomData s) :
    (∃ literal ∈ dataLiteral fmt metadata data, ql literal = some (.text s)) ↔ IsPlain s := by
  have hexists : (∃ literal ∈ dataLiteral fmt metadata data, ql literal = some (.text s))
      ↔ ql (surqlLiteral (.string (displayData data.atomData))) = some (.text s) := by
    rw [dataLiteral_eq]
    simp
  rw [hexists, read_surqlLiteral_eq_text_iff hql, displayData_eq hdata]
  unfold IsPlain
  by_cases hnull : '\x00' ∈ s.toList
  · rw [if_pos hnull]
    -- the digits are another text
    refine iff_of_false (fun h => ?_) fun h => h.1 hnull
    exact hdata.notMem (c := '\x00') (by decide) (by decide) (h.2 ▸ hnull)
  · rw [if_neg hnull]
    exact ⟨fun h => ⟨hnull, h.1⟩, fun h => ⟨h.2, rfl⟩⟩

/-- An atom whose data stands for itself goes through if one without data does. -/
theorem EventGoesThrough.of_isPlain (hdata : IsPayload data.atomData s) (hplain : IsPlain s)
    (h : EventGoesThrough fmt payload
      (.atomCreated metadata { data with atomData := "0x" })) :
    EventGoesThrough fmt payload (.atomCreated metadata data) := by
  obtain ⟨ops, rows, hplan, hwrite⟩ := h
  cases hplan
  refine ⟨_, _, rfl, ?_⟩
  have htext : ∀ t, stripPrefix decimalPrefix t = none ∧ stripPrefix datetimePrefix t = none
      ∧ parseRecordLink t = none → (valueToSurql fmt (.string t)).isSome := fun t ht => by
    rw [(surqlLiteral_of_not_special ht).2]
    rfl
  have hshown : (valueToSurql fmt (.string (displayData data.atomData))).isSome := by
    rw [displayData_eq hdata, if_neg hplain.1]
    exact htext s hplain.2
  have hhex : (valueToSurql fmt (.string data.atomData)).isSome :=
    htext _ (not_special_of_notMem (hdata.notMem (by decide) (by decide)))
  simp only [buildAtomOpsTyped, buildAtomOpsRaw, List.forall_mem_cons, Writable,
    isSome_nodeValues] at hwrite ⊢
  obtain ⟨haccount, hvault, ⟨-, -, hatom⟩, hnil⟩ := hwrite
  exact ⟨haccount, hvault, ⟨hshown, hhex, hatom⟩, hnil⟩

end CoreEntitiesProjection

/-- **The data of an atom keeps its meaning exactly if it stands for itself**: it can be
kept by PostgreSQL, does not begin like a number or a time that a projection made, and
is not the name of a record of a known table. -/
theorem atom_data_kept_iff (fmt : SurrealFormats) (ql : SurqlReader) (hql : ql.Lawful fmt)
    (metadata : EventMetadata) (data : AtomCreatedRecord) (s : String)
    (hdata : IsPayload data.atomData s) :
    CoreEntitiesProjection.DataKept fmt ql metadata data s ↔ IsPlain s := by
  constructor
  · exact fun h => (CoreEntitiesProjection.read_dataLiteral_iff hql hdata).mp h.1
  · intro hplain
    refine ⟨(CoreEntitiesProjection.read_dataLiteral_iff hql hdata).mpr hplain, ?_⟩
    intro payload db before after h
    rw [CoreEntitiesProjection.goesThrough_iff] at h ⊢
    simp only [List.forall_mem_append, List.forall_mem_cons] at h ⊢
    exact ⟨h.1, .of_isPlain hdata hplain h.2.1, h.2.2⟩

/-! ## A reader of literals -/

/-- Read literals as SurrealDB does, the times as they are written. -/
def readLiteral (fmt : SurrealFormats) : SurqlReader := fun s =>
  match stripPrefix "<decimal>'" s with
  | some body =>
    match surqlQuotes.read body.toList with
    | some (t, []) => (fmt.castDecimal (.ofList t)).map .decimal
    | _ => none
  | none =>
    match stripPrefix "type::datetime('" s with
    | some body =>
      match surqlQuotes.read body.toList with
      | some (t, [')']) => some (.datetime (.ofList t))
      | _ => none
    | none =>
      match stripPrefix "type::record('" s with
      | some body =>
        match surqlQuotes.read body.toList with
        | some (table, ',' :: ' ' :: '\x27' :: rest) =>
          match surqlQuotes.read rest with
          | some (id, [')']) => some (.record ⟨.ofList table, .ofList id⟩)
          | _ => none
        | _ => none
      | none =>
        match stripPrefix "'" s with
        | some body =>
          match surqlQuotes.read body.toList with
          | some (t, []) => some (.text (.ofList t))
          | _ => none
        | none => none

/-- A text has no prefix that it does not begin with. -/
theorem stripPrefix_eq_none {pre s : String} (h : pre.toList.isPrefixOf s.toList = false) :
    stripPrefix pre s = none := by
  unfold stripPrefix
  rw [h]
  rfl

/-- What is read up to the closing quote. -/
theorem Quotes.read {body s : String} (h : Quotes body s) (rest : List Char) :
    surqlQuotes.read (body.toList ++ '\x27' :: rest) = some (s.toList, rest) := by
  have hread := surqlQuotes.read_append h rest
  rwa [List.append_assoc] at hread

theorem lawful_readLiteral (fmt : SurrealFormats) : (readLiteral fmt).Lawful fmt where
  text body s h := by
    have hread : surqlQuotes.read (body ++ "'").toList = some (s.toList, []) := by
      rw [String.toList_append]
      exact h
    unfold readLiteral
    rw [stripPrefix_eq_none (by simp [List.isPrefixOf]),
      stripPrefix_eq_none (by simp [List.isPrefixOf]),
      stripPrefix_eq_none (by simp [List.isPrefixOf]), String.append_assoc, stripPrefix_append]
    simp only [hread, String.ofList_toList]
  decimal body s h := by
    have hread : surqlQuotes.read (body ++ "'").toList = some (s.toList, []) := by
      rw [String.toList_append]
      exact h
    unfold readLiteral
    rw [String.append_assoc, stripPrefix_append]
    simp only [hread, String.ofList_toList]
  datetime body s h v hv := by
    have hread : surqlQuotes.read (body ++ "')").toList = some (s.toList, [')']) := by
      rw [String.toList_append]
      exact h.read _
    unfold readLiteral at hv
    rw [String.append_assoc, stripPrefix_eq_none (by simp [List.isPrefixOf]),
      stripPrefix_append] at hv
    simp only [hread, Option.mem_def, Option.some.injEq] at hv
    exact ⟨_, hv.symm⟩
  record body body' table id h h' := by
    have hread : surqlQuotes.read (body ++ ("', '" ++ (body' ++ "')"))).toList
        = some (table.toList, ',' :: ' ' :: '\x27' :: (body' ++ "')").toList) := by
      rw [String.toList_append, String.toList_append]
      exact h.read _
    have hread' : surqlQuotes.read (body' ++ "')").toList = some (id.toList, [')']) := by
      rw [String.toList_append]
      exact h'.read _
    unfold readLiteral
    simp only [String.append_assoc]
    rw [stripPrefix_eq_none (by simp [List.isPrefixOf]),
      stripPrefix_eq_none (by simp [List.isPrefixOf]), stripPrefix_append]
    simp only [hread, hread', String.ofList_toList]

/-! ## Two atoms -/

/-- An atom with the data "spotify:track:1", and one with the data "decimal:x". -/
def trackAtom : AtomCreatedRecord :=
  ⟨"0xc", "0xt", "0x73706f746966793a747261636b3a31", "0xw"⟩

def decimalAtom : AtomCreatedRecord :=
  ⟨"0xc", "0xt", "0x646563696d616c3a78", "0xw"⟩

/-- Formats that cast nothing but digits. -/
def SurrealFormats.strict : SurrealFormats :=
  { SurrealFormats.exact with
    castDecimal := fun s =>
      if !s.isEmpty && s.toList.all Char.isDigit then SurrealFormats.exact.castDecimal s else none }

theorem atom_data_kept_iff_trackAtom :
    CoreEntitiesProjection.DataKept .strict (readLiteral .strict)
      (EventMetadata.fromEvent firstDeposit) trackAtom "spotify:track:1" :=
  (atom_data_kept_iff .strict (readLiteral .strict) (lawful_readLiteral .strict)
    (EventMetadata.fromEvent firstDeposit) trackAtom "spotify:track:1"
    (by unfold IsPayload; decide +kernel)).mpr (by unfold IsPlain; decide +kernel)

/-- **Data can lose its meaning**: the literal is a cast of something that is no
number, and the whole batch fails. -/
theorem decimalAtom_not_kept :
    ¬ ∀ (fmt : SurrealFormats) (ql : SurqlReader), ql.Lawful fmt →
      ∀ (metadata : EventMetadata) (data : AtomCreatedRecord) (s : String),
        IsPayload data.atomData s →
          CoreEntitiesProjection.DataKept fmt ql metadata data s := by
  intro h
  have hkept := h .strict (readLiteral .strict) (lawful_readLiteral .strict)
    (EventMetadata.fromEvent firstDeposit) decimalAtom "decimal:x"
    (by unfold IsPayload; decide +kernel)
  -- an atom without data goes through, and this one does not
  obtain ⟨ops, rows, hplan, happly⟩ := hkept.2 (fun _ => ∅) {} [] []
    ⟨_, _, rfl, by decide +kernel⟩
  cases hplan
  exact absurd happly (by decide +kernel)
