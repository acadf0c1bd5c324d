import IntuitionCore.Entities.Actions

/-!
# Who creates an atom first

An atom or a triple may be created by a request to the API and by an event of
the chain. Both insert its row unless there is one, so the row that stays is
that of whoever came first, in all its columns. It is not known to be on the
chain if that was the API; and the row of a triple is not, whoever came first.
-/

/-! ## Histories of creations -/

/-- A request that creates an atom or a triple. -/
inductive ApiRequest where
  | atoms (accountId : Option String) (body : JsonObject) (now : ℤ)
  | triples (accountId : Option String) (body : JsonObject) (now : ℤ)

/-- Something is created, by a request or by an event of the chain as
`core_entities` plans it. -/
inductive Creation where
  | api (request : ApiRequest)
  | chain (row : PgTermRow)

section Histories

variable (ids : ProtocolIds)

/-- Answer a request. -/
def ApiRequest.answer (db : KgGraph) : ApiRequest → Except ApiError (KgGraph × EnsureResult)
  | atoms accountId body now => postAtoms ids db accountId body now
  | triples accountId body now => postTriples ids db accountId body now

/-- The node a request inserts, if it is accepted. -/
def ApiRequest.node? : ApiRequest → Option (String × NodeRow)
  | atoms accountId body now => do
    let input ← body.string? "input"
    return (ids.calculateAtomId input, ensuredNode (atomInput accountId input) now)
  | triples .. => none

/-- The triple a request inserts, if it is accepted. -/
def ApiRequest.triple? : ApiRequest → Option (String × TripleRow)
  | atoms .. => none
  | triples accountId body now => do
    let subjectId ← (bodyTermId body "subject_id").toOption
    let predicateId ← (bodyTermId body "predicate_id").toOption
    let objectId ← (bodyTermId body "object_id").toOption
    let input := tripleInput accountId subjectId predicateId objectId
    let subject ← (normalizeRef input.subject "subject").toOption
    let predicate ← (normalizeRef input.predicate "predicate").toOption
    let object ← (normalizeRef input.object "object").toOption
    let tripleId ← (kgTripleId ids subject predicate object).toOption
    return (tripleId, ensuredTriple input subject predicate object now)

/-- Create something; a request that is refused, and an event whose transaction
fails, create nothing. -/
def Creation.apply (db : KgGraph) : Creation → Option KgGraph
  | api request => (request.answer ids db).toOption.map Prod.fst
  | chain row => CoreEntitiesProjection.applyKgRow db row

/-- Create one thing after the other. -/
def Creation.run (db : KgGraph) (creations : List Creation) : Option KgGraph :=
  creations.foldlM (Creation.apply ids) db

/-- The node a creation inserts. -/
def Creation.node? : Creation → Option (String × NodeRow)
  | api request => request.node? ids
  | chain row => row.node?.map fun node => (row.termId, node)

/-- The triple a creation inserts. -/
def Creation.triple? : Creation → Option (String × TripleRow)
  | api request => request.triple? ids
  | chain row => row.triple?.map fun triple => (row.termId, triple)

variable {ids} {db db' db₁ db₂ : KgGraph} {request : ApiRequest} {row : PgTermRow}
  {before between after creations : List Creation} {id : String}

/-- **A request that is accepted inserts its row.** -/
theorem ApiRequest.answer_eq_ok {result : EnsureResult}
    (h : request.answer ids db = .ok (db', result)) :
    db'.nodes = db.nodes.insertEntry (request.node? ids)
      ∧ db'.triples = db.triples.insertEntry (request.triple? ids) := by
  cases request with
  | atoms accountId body now =>
    obtain ⟨input, hinput, h⟩ := Result.bind_eq_ok.mp h
    have hbody : body.string? "input" = some input :=
      (Option.filter_eq_some_iff.mp (Result.okOr_eq_ok.mp hinput)).1
    obtain ⟨-, -, h⟩ := Result.bind_eq_ok.mp h
    obtain ⟨nodeId, hnodeId, h⟩ := Result.bind_eq_ok.mp (Result.mapError_eq_ok.mp h)
    obtain ⟨db₁, hdb₁, h⟩ := Result.bind_eq_ok.mp h
    obtain ⟨-, -, h⟩ := Result.bind_eq_ok.mp h
    cases h
    obtain ⟨hnodes, htriples⟩ := ensureCreator_keeps hdb₁
    have hid : nodeId = ids.calculateAtomId input := by
      change (if input.isEmpty then _ else _) = _ at hnodeId
      split at hnodeId <;> cases hnodeId
      rfl
    refine ⟨?_, htriples⟩
    show db₁.nodes.insertIfAbsent nodeId _ = db.nodes.insertEntry ((body.string? "input").bind _)
    rw [hnodes, hid, hbody]
    rfl
  | triples accountId body now =>
    obtain ⟨subjectId, hsubjectId, h⟩ := Result.bind_eq_ok.mp h
    obtain ⟨predicateId, hpredicateId, h⟩ := Result.bind_eq_ok.mp h
    obtain ⟨objectId, hobjectId, h⟩ := Result.bind_eq_ok.mp h
    obtain ⟨subject, hsubject, h⟩ := Result.bind_eq_ok.mp (Result.mapError_eq_ok.mp h)
    obtain ⟨predicate, hpredicate, h⟩ := Result.bind_eq_ok.mp h
    obtain ⟨object, hobject, h⟩ := Result.bind_eq_ok.mp h
    obtain ⟨tripleId, htripleId, h⟩ := Result.bind_eq_ok.mp h
    obtain ⟨db₁, hdb₁, h⟩ := Result.bind_eq_ok.mp h
    cases h
    obtain ⟨hnodes, htriples⟩ := ensureCreator_keeps hdb₁
    refine ⟨hnodes, ?_⟩
    have htriple : ApiRequest.triple? ids (triples accountId body now) = some (tripleId,
        ensuredTriple (tripleInput accountId subjectId predicateId objectId) subject predicate
          object now) := by
      simp only [ApiRequest.triple?, Option.bind_eq_bind, Option.bind_eq_some_iff, Option.pure_def,
        Result.toOption_eq_some]
      exact ⟨_, hsubjectId, _, hpredicateId, _, hobjectId, _, hsubject, _, hpredicate, _, hobject,
        _, htripleId, rfl⟩
    show db₁.triples.insertIfAbsent tripleId _ = _
    rw [htriples, htriple]
    rfl

/-- **A creation inserts its row.** -/
theorem Creation.apply_eq_some {c : Creation} (h : c.apply ids db = some db') :
    db'.nodes = db.nodes.insertEntry (c.node? ids)
      ∧ db'.triples = db.triples.insertEntry (c.triple? ids) := by
  cases c with
  | api request =>
    obtain ⟨⟨db₁, result⟩, hanswer, rfl⟩ := Option.map_eq_some_iff.mp h
    exact ApiRequest.answer_eq_ok (Result.toOption_eq_some.mp hanswer)
  | chain row =>
    rw [CoreEntitiesProjection.applyKgRow_eq_some h]
    exact ⟨rfl, rfl⟩

/-- A history inserts the rows of its creations, one after the other. -/
theorem Creation.run_eq_some (h : Creation.run ids db creations = some db') :
    db'.nodes = creations.foldl (fun t c => t.insertEntry (c.node? ids)) db.nodes
      ∧ db'.triples = creations.foldl (fun t c => t.insertEntry (c.triple? ids)) db.triples := by
  unfold Creation.run at h
  induction creations generalizing db with
  | nil =>
    cases h
    exact ⟨rfl, rfl⟩
  | cons c creations ih =>
    obtain ⟨db₁, hdb₁, h⟩ := Option.bind_eq_some_iff.mp h
    obtain ⟨hnodes, htriples⟩ := Creation.apply_eq_some hdb₁
    obtain ⟨hnodes', htriples'⟩ := ih h
    rw [hnodes', htriples', hnodes, htriples]
    exact ⟨rfl, rfl⟩

/-! ## The two orders -/

/-- A row of `kg.nodes` without the times it was written at, and without what
the workers of the KG database have done to it. -/
def NodeRow.content (row : NodeRow) : NodeRow :=
  { row with createdAt := 0, updatedAt := 0, processing := {} }

/-- A row of `kg.triples` without the times it was written at. -/
def TripleRow.content (row : TripleRow) : TripleRow := { row with createdAt := 0, updatedAt := 0 }

/-- **It does not matter who creates a node first**: its row says that it is on
the chain, with the data of the event, and is the same either way. -/
structure NodeCreationsCommute (event : NodeRow) (chainFirst apiFirst : Option NodeRow) :
    Prop where
  onchain : ∀ final ∈ [chainFirst, apiFirst], ∃ row, final = some row ∧ row.isOnchain = true
    ∧ row.data = event.data ∧ row.dataHex = event.dataHex
  same : chainFirst.map NodeRow.content = apiFirst.map NodeRow.content

/-- **It does not matter who creates a triple first**: its row says that it is
on the chain, and is the same either way. -/
structure TripleCreationsCommute (chainFirst apiFirst : Option TripleRow) : Prop where
  onchain : ∀ final ∈ [chainFirst, apiFirst], ∃ row, final = some row ∧ row.isOnchain = true
  same : chainFirst.map TripleRow.content = apiFirst.map TripleRow.content

/-- A node that the API creates first is not on the chain, whatever happens
then. -/
theorem isOnchain_of_api_first {node : NodeRow}
    (h : Creation.run ids db (before ++ .api request :: after) = some db')
    (hnone : db.nodes.lookup id = none)
    (hbefore : ∀ c ∈ before, ∀ row, c.node? ids ≠ some (id, row))
    (hrequest : request.node? ids = some (id, node)) :
    ∃ row, db'.nodes.lookup id = some row ∧ row.isOnchain = false := by
  refine ⟨node, ?_, ?_⟩
  · rw [(Creation.run_eq_some h).1]
    exact Table.lookup_foldl_insertEntry_first _ after hnone hbefore hrequest
  · cases request with
    | atoms accountId body now =>
      obtain ⟨input, -, hnode⟩ := Option.bind_eq_some_iff.mp hrequest
      cases hnode
      rfl
    | triples => cases hrequest

/-- A triple that the chain creates first is not on the chain either. -/
theorem isOnchain_of_chain_first {triple : TripleRow}
    (h : Creation.run ids db (before ++ .chain row :: after) = some db')
    (hnone : db.triples.lookup row.termId = none)
    (hbefore : ∀ c ∈ before, ∀ row', c.triple? ids ≠ some (row.termId, row'))
    (hrow : row.triple? = some triple) :
    ∃ row', db'.triples.lookup row.termId = some row' ∧ row'.isOnchain = false := by
  refine ⟨triple, ?_, ?_⟩
  · rw [(Creation.run_eq_some h).2]
    refine Table.lookup_foldl_insertEntry_first _ after hnone hbefore ?_
    show row.triple?.map _ = _
    rw [hrow]
    rfl
  · cases row <;> cases hrow <;> rfl

/-- **It always matters who creates an atom or a triple first.** -/
theorem creations_never_commute
    (h₁ : Creation.run ids db (before ++ .chain row :: (between ++ .api request :: after))
      = some db₁)
    (h₂ : Creation.run ids db (before ++ .api request :: (between ++ .chain row :: after))
      = some db₂) :
    (∀ node node', row.node? = some node → request.node? ids = some (row.termId, node') →
        db.nodes.lookup row.termId = none →
        (∀ c ∈ before, ∀ r, c.node? ids ≠ some (row.termId, r)) →
        ¬ NodeCreationsCommute node (db₁.nodes.lookup row.termId) (db₂.nodes.lookup row.termId))
      ∧ ∀ triple triple', row.triple? = some triple →
        request.triple? ids = some (row.termId, triple') →
        db.triples.lookup row.termId = none →
        (∀ c ∈ before, ∀ r, c.triple? ids ≠ some (row.termId, r)) →
        ¬ TripleCreationsCommute (db₁.triples.lookup row.termId)
          (db₂.triples.lookup row.termId) := by
  constructor
  · intro node node' _ hrequest hnone hbefore hcommute
    obtain ⟨r, hr, hfalse⟩ := isOnchain_of_api_first h₂ hnone hbefore hrequest
    obtain ⟨r', hr', htrue, -⟩ := hcommute.onchain _ (List.mem_cons_of_mem _ List.mem_cons_self)
    cases hr.symm.trans hr'
    exact Bool.false_ne_true (hfalse.symm.trans htrue)
  · intro triple triple' hrow _ hnone hbefore hcommute
    obtain ⟨r, hr, hfalse⟩ := isOnchain_of_chain_first h₁ hnone hbefore hrow
    obtain ⟨r', hr', htrue⟩ := hcommute.onchain _ List.mem_cons_self
    cases hr.symm.trans hr'
    exact Bool.false_ne_true (hfalse.symm.trans htrue)

end Histories

/-! ## An atom that is created twice -/

section Hello

/-- The id of the atom "hello". -/
def helloId : String := "0xa0e157e5fa1b17d3b54ec73622ce3317296920a06502661617613d59f58e947e"

/-- The ids of atoms, as far as they are known: "hello" may be given as a text
or in digits. -/
def ProtocolIds.known : ProtocolIds where
  calculateAtomId atomData :=
    if atomData = "hello" ∨ atomData = "0x68656c6c6f" then helloId else ""
  calculateTripleId _ _ _ := ""

/-- The atom, as the chain creates it. -/
def helloRow : PgTermRow :=
  .atomRaw { sequenceNumber := 1, blockNumber := 100, transactionHash := "0xtx",
             eventType := "AtomCreated", eventData := {} } "0xa" helloId "0x68656c6c6f"

/-- The atom, as the API is asked to create it. -/
def helloRequest : ApiRequest := .atoms none (.ofFields [("input", .string "hello")]) 1700000002

/-- The atom can be created in both orders, and it matters in which. -/
theorem creations_never_commute_hello :
    ∃ db₁ db₂ node,
      Creation.run .known {} ([] ++ .chain helloRow :: ([] ++ .api helloRequest :: [])) = some db₁
      ∧ Creation.run .known {} ([] ++ .api helloRequest :: ([] ++ .chain helloRow :: [])) = some db₂
      ∧ helloRow.node? = some node
      ∧ ¬ NodeCreationsCommute node (db₁.nodes.lookup helloId) (db₂.nodes.lookup helloId) := by
  obtain ⟨db₁, h₁⟩ := Option.isSome_iff_exists.mp (show (Creation.run .known {}
    ([] ++ .chain helloRow :: ([] ++ .api helloRequest :: []))).isSome = true by decide +kernel)
  obtain ⟨db₂, h₂⟩ := Option.isSome_iff_exists.mp (show (Creation.run .known {}
    ([] ++ .api helloRequest :: ([] ++ .chain helloRow :: []))).isSome = true by decide +kernel)
  have hid : (helloRequest.node? .known).map Prod.fst = some helloId := by decide +kernel
  obtain ⟨⟨id, node⟩, hnode, hid⟩ := Option.map_eq_some_iff.mp hid
  cases hid
  exact ⟨db₁, db₂, _, h₁, h₂, rfl, (creations_never_commute h₁ h₂).1 _ node rfl hnode rfl
    fun c hc => absurd hc List.not_mem_nil⟩

/-- **The atom "hello" is on the chain if the chain creates it first, and not if
the API does.** -/
theorem hello_onchain_depends_on_order :
    ((Creation.run .known {} [.chain helloRow, .api helloRequest]).bind fun db =>
        db.nodes.lookup helloId).map (fun row => (row.isOnchain, row.data, row.dataHex))
      = some (true, some "hello", some "0x68656c6c6f")
    ∧ ((Creation.run .known {} [.api helloRequest, .chain helloRow]).bind fun db =>
        db.nodes.lookup helloId).map (fun row => (row.isOnchain, row.data, row.dataHex))
      = some (false, some "hello", none) := by
  decide +kernel

end Hello
