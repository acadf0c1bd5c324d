import IntuitionCore.Entities.Stores

/-!
# Events that are planned from their payload

An event that creates an atom or a triple is planned from the record of its
type, or, where its payload does not read as that record, from the texts in the
payload itself. The planner has an arm for each of the two forms, and so has
either writer.

The forms agree: a batch may have any of its events in either form, and the
operations are the same, and so are the inserts, each with the values it binds.
-/

namespace CoreEntitiesProjection

/-! ## The inserts of a row -/

/-- An insert into a table of the KG database, with the values it binds. -/
inductive KgInsert where
  | account (accountId : String)
  | node (termId creator atomData atomDataHex : String) (blockTimestamp : ℤ)
  | atomCreated (creator termId : String) (blockNumber : ℕ) (txHash : String) (logIndex : ℕ)
      (blockTimestamp : ℤ)
  | predicate (predicateId : String)
  | triple (tripleId creator subjectId predicateId objectId : String) (isCounter : Bool)
      (siblingTripleId : Option String) (blockNumber : ℕ) (txHash : String) (blockTimestamp : ℤ)
  | tripleCreated (creator tripleId : String) (blockNumber : ℕ) (txHash : String) (logIndex : ℕ)
      (blockTimestamp : ℤ)
  deriving DecidableEq, Repr

/-- Issue an insert. -/
def KgInsert.issue (tx : KgGraph) : KgInsert → Option KgGraph
  | account accountId => some (upsertKgAccount tx accountId)
  | node termId creator atomData atomDataHex blockTimestamp =>
    some (insertKgNodeAtom tx termId creator atomData atomDataHex blockTimestamp)
  | atomCreated creator termId blockNumber txHash logIndex blockTimestamp =>
    some (insertKgEventAtomCreated tx creator termId blockNumber txHash logIndex blockTimestamp)
  | predicate predicateId => upsertKgPredicateLazy tx predicateId
  | triple tripleId creator subjectId predicateId objectId isCounter siblingTripleId blockNumber
      txHash blockTimestamp =>
    some (insertKgTriple tx tripleId creator subjectId predicateId objectId isCounter
      siblingTripleId blockNumber txHash blockTimestamp)
  | tripleCreated creator tripleId blockNumber txHash logIndex blockTimestamp =>
    some (insertKgEventTripleCreated tx creator tripleId blockNumber txHash logIndex
      blockTimestamp)

/-- The inserts into the KG database for an atom. -/
def atomInserts (creator termId atomData atomDataHex : String) (blockNumber : ℕ)
    (txHash : String) (logIndex : ℕ) (blockTimestamp : ℤ) : List KgInsert :=
  [.account creator,
    .node termId creator atomData atomDataHex blockTimestamp,
    .atomCreated creator termId blockNumber txHash logIndex blockTimestamp]

/-- The inserts into the KG database for a triple. -/
def tripleInserts (creator tripleId subjectId predicateId objectId : String) (blockNumber : ℕ)
    (txHash : String) (logIndex : ℕ) (blockTimestamp : ℤ) : List KgInsert :=
  [.account creator,
    .predicate predicateId,
    .triple tripleId creator subjectId predicateId objectId false none blockNumber txHash
      blockTimestamp,
    .tripleCreated creator tripleId blockNumber txHash logIndex blockTimestamp]

/-- The inserts into the KG database for a row of the plan. -/
def kgInserts : PgTermRow → List KgInsert
  | .atom metadata data =>
    atomInserts data.creator data.termId (displayData data.atomData) data.atomData
      metadata.blockNumber metadata.transactionHash metadata.logIndex metadata.blockTimestamp
  | .atomRaw raw creator termId atomDataHex =>
    atomInserts creator termId (displayData atomDataHex) atomDataHex raw.blockNumber
      raw.transactionHash raw.logIndex raw.blockTimestamp
  | .triple metadata data =>
    tripleInserts data.creator data.termId data.subjectId data.predicateId data.objectId
      metadata.blockNumber metadata.transactionHash metadata.logIndex metadata.blockTimestamp
  | .tripleRaw raw creator termId subjectId predicateId objectId =>
    tripleInserts creator termId subjectId predicateId objectId raw.blockNumber
      raw.transactionHash raw.logIndex raw.blockTimestamp

/-- The insert into `term` for a row of the plan: the key, and the row. -/
def termInsert (row : PgTermRow) : String × TermRow :=
  (row.termId, row.termRow)

theorem applyTripleRow_eq (tx : KgGraph)
    (creator tripleId subjectId predicateId objectId : String) (blockNumber : ℕ)
    (txHash : String) (logIndex : ℕ) (blockTimestamp : ℤ) :
    applyTripleRow tx creator tripleId subjectId predicateId objectId blockNumber txHash logIndex
        blockTimestamp
      = (tripleInserts creator tripleId subjectId predicateId objectId blockNumber txHash logIndex
          blockTimestamp).foldlM KgInsert.issue tx := by
  show _ = (upsertKgPredicateLazy (upsertKgAccount tx creator) predicateId).bind _
  rfl

/-- **A row is applied by issuing its inserts.** -/
theorem applyKgRow_eq (tx : KgGraph) (row : PgTermRow) :
    applyKgRow tx row = (kgInserts row).foldlM KgInsert.issue tx := by
  cases row with
  | atom metadata data | atomRaw raw creator termId atomDataHex => rfl
  | triple metadata data | tripleRaw raw creator termId subjectId predicateId objectId =>
    exact applyTripleRow_eq tx ..

/-- **A plan is written to the KG database by issuing the inserts of its rows.** -/
theorem writeKgBatch_eq (kg : KgGraph) (pgPlan : List PgTermRow) :
    writeKgBatch kg pgPlan = (pgPlan.flatMap kgInserts).foldlM KgInsert.issue kg := by
  unfold writeKgBatch
  induction pgPlan generalizing kg with
  | nil => rfl
  | cons row pgPlan ih =>
    rw [List.foldlM_cons, List.flatMap_cons, List.foldlM_append, applyKgRow_eq]
    exact congrArg _ (funext ih)

/-- **A plan is committed by issuing the insert of each of its rows.** -/
theorem commitPgTransaction_eq (term : Table String TermRow) (pgPlan : List PgTermRow) :
    commitPgTransaction term pgPlan
      = (pgPlan.map termInsert).foldl (fun tx entry => tx.insertIfAbsent entry.1 entry.2) term := by
  rw [List.foldl_map]
  exact congrArg (fun f => pgPlan.foldl f term)
    (funext fun tx => funext fun row => insertTermPg_eq tx row)

/-! ## The forms of an event -/

/-- The required fields of the payload of an event of a type. -/
def requiredFields (eventType : String) : List String :=
  if eventType = "AtomCreated" then ["creator", "term_id", "atom_data"]
  else if eventType = "TripleCreated" then
    ["creator", "term_id", "subject_id", "predicate_id", "object_id"]
  else []

/-- An event is the creation of an atom or of a triple, in either form. -/
def IsCreation : ParsedEvent → Prop
  | .atomCreated _ _ | .tripleCreated _ _ => True
  | .unknown raw => raw.eventType = "AtomCreated" ∨ raw.eventType = "TripleCreated"
  | _ => False

instance : DecidablePred IsCreation := fun event => by
  cases event <;> unfold IsCreation <;> infer_instance

section Forms

variable (payload : StoredEvent → JsonObject)

/-- An event that did not read as the record of its type lacks a required field,
or has one that is not a text. -/
def LacksField : ParsedEvent → Prop
  | .unknown raw => ∃ field ∈ requiredFields raw.eventType, (payload raw).string? field = none
  | _ => False

instance : DecidablePred (LacksField payload) := fun event => by
  cases event <;> unfold LacksField <;> infer_instance

/-- **The forms an event may be given in**: as it is, or, for the creation of an
atom or of a triple, as an unknown event of the same envelope, with the same
texts in its payload. -/
inductive GivenAs : ParsedEvent → ParsedEvent → Prop where
  | self (event : ParsedEvent) : GivenAs event event
  | atomRaw (raw : StoredEvent) (data : AtomCreatedRecord) (htype : raw.eventType = "AtomCreated")
      (hcreator : (payload raw).string? "creator" = some data.creator)
      (htermId : (payload raw).string? "term_id" = some data.termId)
      (hatomData : (payload raw).string? "atom_data" = some data.atomData) :
      GivenAs (.atomCreated (.fromEvent raw) data) (.unknown raw)
  | tripleRaw (raw : StoredEvent) (data : TripleCreatedRecord)
      (htype : raw.eventType = "TripleCreated")
      (hcreator : (payload raw).string? "creator" = some data.creator)
      (htermId : (payload raw).string? "term_id" = some data.termId)
      (hsubjectId : (payload raw).string? "subject_id" = some data.subjectId)
      (hpredicateId : (payload raw).string? "predicate_id" = some data.predicateId)
      (hobjectId : (payload raw).string? "object_id" = some data.objectId) :
      GivenAs (.tripleCreated (.fromEvent raw) data) (.unknown raw)

end Forms

/-! ## The plan of a batch does not depend on the forms -/

/-- What a plan issues: the operations on the graph, and the inserts into both
databases. -/
def issued (plan : List SinkOperation × List PgTermRow) :
    List SinkOperation × List (String × TermRow) × List KgInsert :=
  (plan.1, plan.2.map termInsert, plan.2.flatMap kgInserts)

/-- Two plans that issue the same do the same to both databases. -/
theorem writes_eq_of_issued_eq {plan plan' : List SinkOperation × List PgTermRow}
    (h : issued plan = issued plan') :
    plan.1 = plan'.1
      ∧ (∀ term, commitPgTransaction term plan.2 = commitPgTransaction term plan'.2)
      ∧ ∀ kg, writeKgBatch kg plan.2 = writeKgBatch kg plan'.2 := by
  obtain ⟨hops, hterm, hkg⟩ : plan.1 = plan'.1
      ∧ plan.2.map termInsert = plan'.2.map termInsert
      ∧ plan.2.flatMap kgInserts = plan'.2.flatMap kgInserts := by
    simpa only [issued, Prod.mk.injEq] using h
  refine ⟨hops, fun term => ?_, fun kg => ?_⟩
  · rw [commitPgTransaction_eq, commitPgTransaction_eq, hterm]
  · rw [writeKgBatch_eq, writeKgBatch_eq, hkg]

/-- What a plan issues before what another one does. -/
def issuedBefore (issued issued' : List SinkOperation × List (String × TermRow) × List KgInsert) :
    List SinkOperation × List (String × TermRow) × List KgInsert :=
  (issued.1 ++ issued'.1, issued.2.1 ++ issued'.2.1, issued.2.2 ++ issued'.2.2)

theorem issued_append (plan plan' : List SinkOperation × List PgTermRow) :
    issued (plan.1 ++ plan'.1, plan.2 ++ plan'.2) = issuedBefore (issued plan) (issued plan') := by
  simp only [issued, issuedBefore, List.map_append, List.flatMap_append]

/-- What is issued of a plan behind another one. -/
theorem issued_map_append {ε : Type} (plan : List SinkOperation × List PgTermRow)
    (rest : Except ε (List SinkOperation × List PgTermRow)) :
    (rest.map fun rest => (plan.1 ++ rest.1, plan.2 ++ rest.2)).map issued
      = (rest.map issued).map (issuedBefore (issued plan)) := by
  cases rest with
  | error err => rfl
  | ok rest => exact congrArg Except.ok (issued_append plan rest)

section Plans

variable (fmt : SurrealFormats) {payload : StoredEvent → JsonObject}

/-- A field that is there is found. -/
theorem getStr_of_eq_some {obj : JsonObject} {field s : String}
    (h : obj.string? field = some s) : getStr obj field = .ok s :=
  Result.okOr_eq_ok.mpr h

theorem planEvent_atomCreated {raw : StoredEvent} (htype : raw.eventType = "AtomCreated") :
    planEvent fmt payload (.unknown raw) = (do
      let creator ← getStr (payload raw) "creator"
      let termId ← getStr (payload raw) "term_id"
      let atomDataHex ← getStr (payload raw) "atom_data"
      return (buildAtomOpsRaw creator termId atomDataHex (datetimeValue fmt raw.blockTimestamp),
        [.atomRaw raw creator termId atomDataHex])) :=
  if_pos htype

theorem planEvent_tripleCreated {raw : StoredEvent} (htype : raw.eventType = "TripleCreated") :
    planEvent fmt payload (.unknown raw) = (do
      let creator ← getStr (payload raw) "creator"
      let termId ← getStr (payload raw) "term_id"
      let subjectId ← getStr (payload raw) "subject_id"
      let predicateId ← getStr (payload raw) "predicate_id"
      let objectId ← getStr (payload raw) "object_id"
      return (TripleProjection.buildRawTripleOps creator termId subjectId predicateId objectId
          (datetimeValue fmt raw.blockTimestamp),
        [.tripleRaw raw creator termId subjectId predicateId objectId])) := by
  have hne : ¬ raw.eventType = "AtomCreated" := by
    rw [htype]
    decide
  exact (if_neg hne).trans (if_pos htype)

/-- **An event is planned alike in all its forms.** -/
theorem issued_planEvent_givenAs {event given : ParsedEvent} (h : GivenAs payload event given) :
    (planEvent fmt payload given).map issued = (planEvent fmt payload event).map issued := by
  cases h with
  | self => rfl
  | atomRaw raw data htype hcreator htermId hatomData =>
    rw [planEvent_atomCreated fmt htype, getStr_of_eq_some hcreator, getStr_of_eq_some htermId,
      getStr_of_eq_some hatomData]
    rfl
  | tripleRaw raw data htype hcreator htermId hsubjectId hpredicateId hobjectId =>
    rw [planEvent_tripleCreated fmt htype, getStr_of_eq_some hcreator, getStr_of_eq_some htermId,
      getStr_of_eq_some hsubjectId, getStr_of_eq_some hpredicateId, getStr_of_eq_some hobjectId]
    rfl

/-- A batch whose first event cannot be planned is given up there. -/
theorem buildWritePlanFrom_cons_error {event : ParsedEvent} {err : ProjectionError}
    (h : planEvent fmt payload event = .error err) (events : List ParsedEvent) (idx : ℕ) :
    buildWritePlanFrom fmt payload idx (event :: events) = .error (err, idx) := by
  rw [buildWritePlanFrom, h]
  rfl

/-- A batch whose first event can be planned is planned behind it. -/
theorem buildWritePlanFrom_cons_ok {event : ParsedEvent}
    {plan : List SinkOperation × List PgTermRow} (h : planEvent fmt payload event = .ok plan)
    (events : List ParsedEvent) (idx : ℕ) :
    buildWritePlanFrom fmt payload idx (event :: events)
      = (buildWritePlanFrom fmt payload (idx + 1) events).map
          fun rest => (plan.1 ++ rest.1, plan.2 ++ rest.2) := by
  rw [buildWritePlanFrom, h]
  cases buildWritePlanFrom fmt payload (idx + 1) events <;> rfl

/-- **A batch is planned alike in all the forms of its events.** -/
theorem issued_buildWritePlanFrom_givenAs {events given : List ParsedEvent}
    (h : List.Forall₂ (GivenAs payload) events given) (idx : ℕ) :
    (buildWritePlanFrom fmt payload idx given).map issued
      = (buildWritePlanFrom fmt payload idx events).map issued := by
  induction h generalizing idx with
  | nil => rfl
  | @cons event event' events given hevent _ ih =>
    have hplan := issued_planEvent_givenAs fmt hevent
    cases hp' : planEvent fmt payload event' with
    | error err' =>
      cases hp : planEvent fmt payload event with
      | error err =>
        rw [buildWritePlanFrom_cons_error fmt hp', buildWritePlanFrom_cons_error fmt hp]
        rw [hp', hp] at hplan
        cases hplan
        rfl
      | ok plan => rw [hp', hp] at hplan; cases hplan
    | ok plan' =>
      cases hp : planEvent fmt payload event with
      | error err => rw [hp', hp] at hplan; cases hplan
      | ok plan =>
        have hissued : issued plan' = issued plan := by
          rw [hp', hp] at hplan
          exact Except.ok.inj hplan
        calc (buildWritePlanFrom fmt payload idx (event' :: given)).map issued
            = ((buildWritePlanFrom fmt payload (idx + 1) given).map issued).map
                (issuedBefore (issued plan')) := by
              rw [buildWritePlanFrom_cons_ok fmt hp', issued_map_append]
          _ = ((buildWritePlanFrom fmt payload (idx + 1) events).map issued).map
                (issuedBefore (issued plan)) := by
              rw [ih, hissued]
          _ = (buildWritePlanFrom fmt payload idx (event :: events)).map issued := by
              rw [buildWritePlanFrom_cons_ok fmt hp, issued_map_append]

/-! ## The events that cannot be planned -/

/-- A step that reads a field goes on with its text, or gives up on it. -/
theorem bind_getStr_eq_error {α : Type} {obj : JsonObject} {field : String}
    {k : String → Except ProjectionError α} {err : ProjectionError}
    (h : (getStr obj field >>= k) = .error err) :
    (obj.string? field = none ∧ err = .missingField field)
      ∨ ∃ s, obj.string? field = some s ∧ k s = .error err := by
  unfold getStr at h
  cases hs : obj.string? field with
  | none =>
    rw [hs] at h
    exact .inl ⟨rfl, (Except.error.inj h).symm⟩
  | some s =>
    rw [hs] at h
    exact .inr ⟨s, rfl, h⟩

/-- An unknown event that is neither creation is passed over. -/
theorem planEvent_of_not_isCreation {raw : StoredEvent} (h : ¬ IsCreation (.unknown raw)) :
    planEvent fmt payload (.unknown raw) = .ok ([], []) :=
  (if_neg fun hatom => h (.inl hatom)).trans (if_neg fun htriple => h (.inr htriple))

/-- **An event that can be planned lacks no field**, and has three operations if
it is the creation of an atom or of a triple, and none otherwise. -/
theorem of_planEvent_eq_ok {event : ParsedEvent} {plan : List SinkOperation × List PgTermRow}
    (h : planEvent fmt payload event = .ok plan) :
    ¬ LacksField payload event ∧ plan.1.length = if IsCreation event then 3 else 0 := by
  cases event with
  | atomCreated metadata data | tripleCreated metadata data =>
    cases h
    exact ⟨id, rfl⟩
  | unknown raw =>
    by_cases hatom : raw.eventType = "AtomCreated"
    · rw [planEvent_atomCreated fmt hatom] at h
      simp only [Result.bind_eq_ok, getStr, Result.okOr_eq_ok] at h
      obtain ⟨creator, hcreator, termId, htermId, atomDataHex, hatomData, h⟩ := h
      cases h
      refine ⟨?_, (if_pos (Or.inl hatom)).symm⟩
      show ¬ ∃ field ∈ requiredFields raw.eventType, (payload raw).string? field = none
      rw [hatom]
      simp [requiredFields, hcreator, htermId, hatomData]
    · by_cases htriple : raw.eventType = "TripleCreated"
      · rw [planEvent_tripleCreated fmt htriple] at h
        simp only [Result.bind_eq_ok, getStr, Result.okOr_eq_ok] at h
        obtain ⟨creator, hcreator, termId, htermId, subjectId, hsubjectId, predicateId,
          hpredicateId, objectId, hobjectId, h⟩ := h
        cases h
        refine ⟨?_, (if_pos (Or.inr htriple)).symm⟩
        show ¬ ∃ field ∈ requiredFields raw.eventType, (payload raw).string? field = none
        rw [htriple]
        simp [requiredFields, hcreator, htermId, hsubjectId, hpredicateId, hobjectId]
      · have hnot : ¬ IsCreation (.unknown raw) := not_or.mpr ⟨hatom, htriple⟩
        rw [planEvent_of_not_isCreation fmt hnot] at h
        cases h
        refine ⟨?_, (if_neg hnot).symm⟩
        rintro ⟨field, hfield, -⟩
        rw [requiredFields, if_neg hatom, if_neg htriple] at hfield
        exact absurd hfield List.not_mem_nil
  | _ =>
    cases h
    exact ⟨id, rfl⟩

/-- **An event that cannot be planned lacks a field**, and the error names it. -/
theorem of_planEvent_eq_error {event : ParsedEvent} {err : ProjectionError}
    (h : planEvent fmt payload event = .error err) :
    LacksField payload event ∧ ∃ field, err = .missingField field := by
  cases event with
  | unknown raw =>
    have hlacks (field : String) (hfield : field ∈ requiredFields raw.eventType)
        (hnone : (payload raw).string? field = none ∧ err = .missingField field) :
        LacksField payload (.unknown raw) ∧ ∃ field, err = .missingField field :=
      ⟨⟨field, hfield, hnone.1⟩, field, hnone.2⟩
    by_cases hatom : raw.eventType = "AtomCreated"
    · rw [planEvent_atomCreated fmt hatom] at h
      rw [hatom] at hlacks
      obtain hnone | ⟨creator, _, h⟩ := bind_getStr_eq_error h
      · exact hlacks "creator" (by decide) hnone
      obtain hnone | ⟨termId, _, h⟩ := bind_getStr_eq_error h
      · exact hlacks "term_id" (by decide) hnone
      obtain hnone | ⟨atomDataHex, _, h⟩ := bind_getStr_eq_error h
      · exact hlacks "atom_data" (by decide) hnone
      cases h
    · by_cases htriple : raw.eventType = "TripleCreated"
      · rw [planEvent_tripleCreated fmt htriple] at h
        rw [htriple] at hlacks
        obtain hnone | ⟨creator, _, h⟩ := bind_getStr_eq_error h
        · exact hlacks "creator" (by decide) hnone
        obtain hnone | ⟨termId, _, h⟩ := bind_getStr_eq_error h
        · exact hlacks "term_id" (by decide) hnone
        obtain hnone | ⟨subjectId, _, h⟩ := bind_getStr_eq_error h
        · exact hlacks "subject_id" (by decide) hnone
        obtain hnone | ⟨predicateId, _, h⟩ := bind_getStr_eq_error h
        · exact hlacks "predicate_id" (by decide) hnone
        obtain hnone | ⟨objectId, _, h⟩ := bind_getStr_eq_error h
        · exact hlacks "object_id" (by decide) hnone
        cases h
      · rw [planEvent_of_not_isCreation fmt (not_or.mpr ⟨hatom, htriple⟩)] at h
        cases h
  | _ => cases h

/-- **A batch with no such event is planned**, event by event. -/
theorem buildWritePlanFrom_of_forall_not_lacksField {events : List ParsedEvent}
    (h : ∀ event ∈ events, ¬ LacksField payload event) (idx : ℕ) :
    ∃ ops rows, buildWritePlanFrom fmt payload idx events = .ok (ops.flatten, rows)
      ∧ List.Forall₂
          (fun event ops => ops.length = if IsCreation event then 3 else 0) events ops := by
  induction events generalizing idx with
  | nil => exact ⟨[], [], rfl, .nil⟩
  | cons event events ih =>
    obtain ⟨hevent, hevents⟩ := List.forall_mem_cons.mp h
    cases hp : planEvent fmt payload event with
    | error err => exact absurd (of_planEvent_eq_error fmt hp).1 hevent
    | ok plan =>
      obtain ⟨ops, rows, hrest, hops⟩ := ih hevents (idx + 1)
      refine ⟨plan.1 :: ops, plan.2 ++ rows, ?_, .cons (of_planEvent_eq_ok fmt hp).2 hops⟩
      rw [buildWritePlanFrom_cons_ok fmt hp, hrest]
      rfl

/-- **A batch is given up at the first such event.** -/
theorem buildWritePlanFrom_of_exists_lacksField {events : List ParsedEvent}
    (h : ∃ event ∈ events, LacksField payload event) (idx : ℕ) :
    ∃ field, buildWritePlanFrom fmt payload idx events
      = .error (.missingField field,
          idx + events.findIdx fun event => LacksField payload event) := by
  induction events generalizing idx with
  | nil => exact absurd h (by simp)
  | cons event events ih =>
    cases hp : planEvent fmt payload event with
    | error err =>
      obtain ⟨hlacks, field, rfl⟩ := of_planEvent_eq_error fmt hp
      refine ⟨field, ?_⟩
      rw [buildWritePlanFrom_cons_error fmt hp, List.findIdx_cons, decide_eq_true hlacks]
      rfl
    | ok plan =>
      have hnot := (of_planEvent_eq_ok fmt hp).1
      obtain hlacks | hrest := (List.exists_mem_cons_iff ..).mp h
      · exact absurd hlacks hnot
      obtain ⟨field, hfield⟩ := ih hrest (idx + 1)
      refine ⟨field, ?_⟩
      rw [buildWritePlanFrom_cons_ok fmt hp, hfield, List.findIdx_cons, decide_eq_false hnot,
        cond_false, Nat.add_right_comm idx 1, Nat.add_assoc]
      rfl

/-- **The forms of the events do not matter to a batch.** Whichever events come
as unknown ones of the same envelope and texts, the operations on the graph are
the same, three for each atom and triple and none for the others, and so are
the inserts into both databases. A batch with an event that lacks a field is
given up at the first such event. -/
theorem buildWritePlan_givenAs (fmt : SurrealFormats) (payload : StoredEvent → JsonObject)
    (events : List ParsedEvent) :
    (∀ given, List.Forall₂ (GivenAs payload) events given →
      (buildWritePlan fmt payload given).map issued
          = (buildWritePlan fmt payload events).map issued
        ∧ ∀ plan plan', buildWritePlan fmt payload events = .ok plan →
          buildWritePlan fmt payload given = .ok plan' →
          plan'.1 = plan.1
            ∧ (∀ term, commitPgTransaction term plan'.2 = commitPgTransaction term plan.2)
            ∧ ∀ kg, writeKgBatch kg plan'.2 = writeKgBatch kg plan.2)
      ∧ ((∀ event ∈ events, ¬ LacksField payload event) →
        ∃ ops rows, buildWritePlan fmt payload events = .ok (ops.flatten, rows)
          ∧ List.Forall₂
              (fun event ops => ops.length = if IsCreation event then 3 else 0) events ops)
      ∧ ((∃ event ∈ events, LacksField payload event) →
        ∃ field, buildWritePlan fmt payload events
          = .error (.missingField field,
              events.findIdx fun event => LacksField payload event)) := by
  refine ⟨fun given h => ?_, fun h => ?_, fun h => ?_⟩
  · have hissued := issued_buildWritePlanFrom_givenAs fmt h 0
    refine ⟨hissued, fun plan plan' hplan hplan' => writes_eq_of_issued_eq ?_⟩
    unfold buildWritePlan at hplan hplan'
    rw [hplan, hplan'] at hissued
    exact Except.ok.inj hissued
  · exact buildWritePlanFrom_of_forall_not_lacksField fmt h 0
  · obtain ⟨field, hfield⟩ := buildWritePlanFrom_of_exists_lacksField fmt h 0
    exact ⟨field, by rw [buildWritePlan, hfield, Nat.zero_add]⟩

end Plans

end CoreEntitiesProjection
