import IntuitionCore.Api.Access

/-!
# What is hidden stays hidden

An atom or a triple that is not active and public is hidden, and so is what belongs to it: its
artifacts, contexts, identifiers and statistics, and the events about it. Two databases that
differ in nothing else are alike to whoever reads them: every route selects the same rows of
both. That is seen query by query, as each of them selects rows of the public read model,
counts them, or joins them to each other.
-/

namespace KgApi

section Hidden

variable (db db' : KgDb)

/-- The triple of an id, if it is public. -/
def publicTriple (id : String) : Option TripleRow :=
  (db.graph.triples.select fun _ row => publicTriples row).lookup id

/-- An atom is public in neither of two databases. -/
def HiddenNode (id : String) : Prop := publicNode db id = none ∧ publicNode db' id = none

/-- A triple is public in neither of two databases. -/
def HiddenTriple (id : String) : Prop := publicTriple db id = none ∧ publicTriple db' id = none

/-- An artifact belongs to a hidden atom. -/
def HiddenArtifact (id : String) : Prop :=
  ∃ row, (db.artifacts.lookup id = some row ∨ db'.artifacts.lookup id = some row)
    ∧ HiddenNode db db' row.nodeId

/-- An event is about something hidden. -/
def HiddenEvent (row : KgEventRow) : Prop :=
  (row.entityKind = "node" ∧ HiddenNode db db' row.entityId)
    ∨ (row.entityKind = "triple" ∧ HiddenTriple db db' row.entityId)
    ∨ (row.entityKind = "artifact" ∧ HiddenArtifact db db' row.entityId)

/-- The rows of two tables are the same, except for rows that belong to something hidden. -/
def SameExcept {κ ρ : Type} [DecidableEq κ] (t t' : Table κ ρ) (hidden : κ → ρ → Prop) : Prop :=
  ∀ k, t.lookup k = t'.lookup k
    ∨ ∀ row, t.lookup k = some row ∨ t'.lookup k = some row → hidden k row

/-- **Two databases differ only in what is hidden.** -/
structure DiffersOnlyHidden : Prop where
  nodes : SameExcept db.nodes db'.nodes fun id _ => HiddenNode db db' id
  triples : SameExcept db.graph.triples db'.graph.triples fun id _ => HiddenTriple db db' id
  artifacts : SameExcept db.artifacts db'.artifacts fun _ row => HiddenNode db db' row.nodeId
  nodeContexts : SameExcept db.nodeContexts db'.nodeContexts fun _ row =>
    HiddenNode db db' row.nodeId
  nodeIdentifiers : ∀ identifier,
    (identifier ∈ db.nodeIdentifiers ↔ identifier ∈ db'.nodeIdentifiers)
    ∨ HiddenNode db db' identifier.1
  nodeStats : SameExcept db.nodeStats db'.nodeStats fun id _ => HiddenNode db db' id
  events : SameExcept db.graph.events db'.graph.events fun _ row => HiddenEvent db db' row
  accounts : db.graph.accounts = db'.graph.accounts
  predicates : db.graph.predicates = db'.graph.predicates
  apiKeys : db.apiKeys = db'.apiKeys

/-! ## Queries select the same -/

/-- A condition that nothing hidden satisfies selects the same rows of both tables. -/
theorem SameExcept.iff {κ ρ : Type} [DecidableEq κ] {t t' : Table κ ρ} {hidden : κ → ρ → Prop}
    (h : SameExcept t t' hidden) {p : κ → ρ → Prop}
    (hp : ∀ k row, t.lookup k = some row ∨ t'.lookup k = some row → hidden k row → ¬ p k row)
    (k : κ) (row : ρ) : t.lookup k = some row ∧ p k row ↔ t'.lookup k = some row ∧ p k row := by
  obtain heq | hhidden := h k
  · rw [heq]
  · exact iff_of_false (fun ⟨hrow, hpr⟩ => hp k row (.inl hrow) (hhidden row (.inl hrow)) hpr)
      fun ⟨hrow, hpr⟩ => hp k row (.inr hrow) (hhidden row (.inr hrow)) hpr

/-- A row that is not hidden is the same. -/
theorem SameExcept.lookup_eq {κ ρ : Type} [DecidableEq κ] {t t' : Table κ ρ}
    {hidden : κ → ρ → Prop} (h : SameExcept t t' hidden) {k : κ} (hk : ∀ row, ¬ hidden k row) :
    t.lookup k = t'.lookup k :=
  (h k).elim (fun heq => heq) fun hhidden => Option.ext fun row =>
    iff_of_false (fun hrow => hk row (hhidden row (.inl hrow)))
      fun hrow => hk row (hhidden row (.inr hrow))

variable {db db'}

/-- An atom that is public is found. -/
theorem publicNode_eq_some {id : String} {row : String × AtomRow} :
    publicNode db id = some row
      ↔ (db.nodes.lookup id = some row.2 ∧ publicNodes row.2) ∧ row.1 = id := by
  unfold publicNode
  rw [Option.map_eq_some_iff]
  constructor
  · rintro ⟨r, hr, rfl⟩
    exact ⟨Table.lookup_select.mp hr, rfl⟩
  · rintro ⟨hr, rfl⟩
    exact ⟨row.2, Table.lookup_select.mpr hr, rfl⟩

theorem publicNode_ne_none {id : String} {row : AtomRow} (hrow : db.nodes.lookup id = some row)
    (hpublic : publicNodes row) : publicNode db id ≠ none := by
  have hfound : publicNode db id = some (id, row) :=
    publicNode_eq_some.mpr ⟨⟨hrow, hpublic⟩, rfl⟩
  rw [hfound]
  rintro ⟨⟩

theorem mem_nodesOfIid {iid id : String} {row : AtomRow} (hrow : db.nodes.lookup id = some row) :
    id ∈ nodesOfIid db iid ↔ row.iid = some iid ∨ (id, iid) ∈ db.nodeIdentifiers := by
  unfold nodesOfIid
  rw [Finset.mem_union, Finmap.mem_keys, ← Finmap.lookup_isSome, Option.isSome_iff_exists]
  refine or_congr ?_ ?_
  · simp only [Table.lookup_select, hrow, Option.some.injEq]
    exact ⟨fun ⟨_, heq, hiid⟩ => heq ▸ hiid, fun hiid => ⟨row, rfl, hiid⟩⟩
  · rw [Finset.mem_image]
    constructor
    · rintro ⟨identifier, hmem, rfl⟩
      obtain ⟨hidentifier, rfl⟩ := Finset.mem_filter.mp hmem
      exact hidentifier
    · exact fun hmem => ⟨(id, iid), Finset.mem_filter.mpr ⟨hmem, rfl⟩, rfl⟩

namespace DiffersOnlyHidden

variable (h : DiffersOnlyHidden db db')

include h in
/-- The public atoms are the same. -/
theorem node_iff (id : String) (row : AtomRow) :
    db.nodes.lookup id = some row ∧ publicNodes row
      ↔ db'.nodes.lookup id = some row ∧ publicNodes row :=
  h.nodes.iff (p := fun _ row => publicNodes row) (fun _ _ hrow hhidden hpublic =>
    hrow.elim (fun hrow => publicNode_ne_none hrow hpublic hhidden.1)
      fun hrow => publicNode_ne_none hrow hpublic hhidden.2) id row

include h in
/-- A query for public atoms selects the same. -/
theorem select_nodes {q q' : String → AtomRow → Prop} [∀ id row, Decidable (q id row)]
    [∀ id row, Decidable (q' id row)]
    (hq : ∀ id row, db.nodes.lookup id = some row → publicNodes row → (q id row ↔ q' id row)) :
    (db.nodes.select fun id row => publicNodes row ∧ q id row)
      = db'.nodes.select fun id row => publicNodes row ∧ q' id row :=
  Table.select_congr fun id row => by
    rw [← and_assoc, ← and_assoc, ← h.node_iff]
    exact and_congr_right fun hrow => hq id row hrow.1 hrow.2

include h in
theorem publicNode_eq (id : String) : publicNode db id = publicNode db' id :=
  congrArg (fun t : Table String AtomRow => (t.lookup id).map fun row => (id, row))
    (Table.select_congr h.node_iff)

include h in
/-- The public triples are the same. -/
theorem triple_iff (id : String) (row : TripleRow) :
    db.graph.triples.lookup id = some row ∧ publicTriples row
      ↔ db'.graph.triples.lookup id = some row ∧ publicTriples row :=
  h.triples.iff (p := fun _ row => publicTriples row) (fun _ row hrow hhidden hpublic =>
    hrow.elim
      (fun hrow => Option.some_ne_none row
        ((Table.lookup_select.mpr ⟨hrow, hpublic⟩).symm.trans hhidden.1))
      fun hrow => Option.some_ne_none row
        ((Table.lookup_select.mpr ⟨hrow, hpublic⟩).symm.trans hhidden.2)) id row

include h in
/-- A query for public triples selects the same. -/
theorem select_triples {q : String → TripleRow → Prop} [∀ id row, Decidable (q id row)] :
    (db.graph.triples.select fun id row => publicTriples row ∧ q id row)
      = db'.graph.triples.select fun id row => publicTriples row ∧ q id row :=
  Table.select_congr fun id row => by
    rw [← and_assoc, ← and_assoc, ← h.triple_iff]

include h in
theorem publicTriple_eq (id : String) : publicTriple db id = publicTriple db' id :=
  congrArg (fun t : Table String TripleRow => t.lookup id) (Table.select_congr h.triple_iff)

/-- What belongs to a public atom is the same. -/
theorem select_of_node {κ ρ : Type} [DecidableEq κ] {t t' : Table κ ρ} {nodeId : ρ → String}
    (ht : SameExcept t t' fun _ row => HiddenNode db db' (nodeId row)) {id : String}
    (hid : publicNode db id ≠ none) :
    (t.select fun _ row => nodeId row = id) = t'.select fun _ row => nodeId row = id :=
  Table.select_congr (ht.iff fun _ _ _ hhidden heq => hid (heq ▸ hhidden.1))

/-! ## The routes answer the same -/

variable {J : Type} {presentation : Presentation J} {lower : Char → Char} {semantic : Bool}
  {query : QueryParams} {id : String}

include h in
theorem getAtoms_eq : getAtoms presentation lower semantic db query
    = getAtoms presentation lower semantic db' query := by
  unfold getAtoms
  dsimp only
  rw [h.select_nodes fun _ _ _ _ => Iff.rfl]

include h in
theorem getIidAtoms_eq {iid : String} : getIidAtoms presentation semantic db iid query
    = getIidAtoms presentation semantic db' iid query := by
  have hiid : ∀ id row, db.nodes.lookup id = some row → publicNodes row →
      (id ∈ nodesOfIid db iid ↔ id ∈ nodesOfIid db' iid) := fun id row hrow hpublic => by
    have hrow' := ((h.node_iff id row).mp ⟨hrow, hpublic⟩).1
    have hne := publicNode_ne_none hrow hpublic
    rw [mem_nodesOfIid hrow, mem_nodesOfIid hrow']
    exact or_congr_right ((h.nodeIdentifiers (id, iid)).resolve_right fun hhidden =>
      hne hhidden.1)
  have hrows : listPublicNodesByIid db iid = listPublicNodesByIid db' iid := by
    unfold listPublicNodesByIid
    refine congrArg (fun t : Table String AtomRow => t.orderBy _)
      (Table.select_congr fun id row => ?_)
    rw [and_comm (a := id ∈ _), and_comm (a := id ∈ _), ← and_assoc, ← and_assoc, ← h.node_iff]
    exact and_congr_right fun hrow => hiid id row hrow.1 hrow.2
  unfold getIidAtoms
  rw [hrows]

include h in
theorem getAtom_eq : getAtom presentation semantic db id
    = getAtom presentation semantic db' id := by
  unfold getAtom
  rw [← h.publicNode_eq]
  cases hrow : publicNode db id with
  | none => rfl
  | some row =>
    have hne : publicNode db id ≠ none := by
      rw [hrow]
      rintro ⟨⟩
    have hcontexts : listNodeContexts db id = listNodeContexts db' id := by
      unfold listNodeContexts
      rw [select_of_node h.nodeContexts hne]
    have hstats : db.nodeStats.lookup id = db'.nodeStats.lookup id :=
      h.nodeStats.lookup_eq fun _ hhidden => hne hhidden.1
    rw [hcontexts]
    show ReadReply.withTexts _ (ReadReply.ok (.atom _ (db.nodeStats.lookup id))) = _
    rw [hstats]
    rfl

include h in
theorem getArtifacts_eq : (getArtifacts db id query : ReadReply J) = getArtifacts db' id query := by
  unfold getArtifacts
  rw [← h.publicNode_eq]
  cases hrow : publicNode db id with
  | none => rfl
  | some row =>
    have hne : publicNode db id ≠ none := by
      rw [hrow]
      rintro ⟨⟩
    have hartifacts : artifactsOf db id = artifactsOf db' id := by
      unfold artifactsOf
      rw [select_of_node h.artifacts hne]
    rw [hartifacts]

include h in
/-- The terms that are joined to a triple are the same. -/
theorem expandTriple_eq (triple : String × TripleRow) :
    expandTriple presentation semantic db triple
      = expandTriple presentation semantic db' triple := by
  unfold expandTriple joinTerm
  rw [h.publicNode_eq, h.publicNode_eq, h.publicNode_eq]

include h in
theorem pageOfTriples_eq (triples : Table String TripleRow) :
    pageOfTriples presentation semantic db query triples
      = pageOfTriples presentation semantic db' query triples := by
  unfold pageOfTriples
  rw [show expandTriple presentation semantic db = expandTriple presentation semantic db' from
    funext h.expandTriple_eq]

include h in
theorem getAtomTriples_eq : getAtomTriples presentation semantic db id query
    = getAtomTriples presentation semantic db' id query := by
  unfold getAtomTriples
  rw [h.pageOfTriples_eq]
  refine congrArg
    (fun t => ReadReply.withTexts [id] (pageOfTriples presentation semantic db' query t))
    (Table.select_congr fun id' row => ?_)
  rw [and_comm (b := publicTriples row), ← and_assoc, ← and_assoc, h.triple_iff]

include h in
theorem getTriples_eq : getTriples presentation semantic db query
    = getTriples presentation semantic db' query := by
  unfold getTriples
  dsimp only
  rw [h.pageOfTriples_eq, h.select_triples]

include h in
theorem getTriple_eq : getTriple presentation semantic db id query
    = getTriple presentation semantic db' id query := by
  unfold getTriple
  dsimp only
  rw [Table.select_congr h.triple_iff, show expandTriple presentation semantic db
    = expandTriple presentation semantic db' from funext h.expandTriple_eq]

include h in
/-- An artifact of a public atom is the same. -/
theorem hasPublicNode_iff (id : String) : hasPublicNode db id ↔ hasPublicNode db' id := by
  unfold hasPublicNode
  refine exists_congr fun row => ?_
  rw [← h.publicNode_eq row.nodeId]
  refine h.artifacts.iff (p := fun _ row => (publicNode db row.nodeId).isSome = true)
    (fun _ row _ hhidden hsome => ?_) id row
  rw [hhidden.1] at hsome
  cases hsome

include h in
theorem publicEvents_iff (row : KgEventRow) : publicEvents db row ↔ publicEvents db' row := by
  unfold publicEvents
  rw [h.publicNode_eq, Table.select_congr h.triple_iff, h.hasPublicNode_iff]

include h in
/-- An artifact of a hidden atom has no public one. -/
theorem not_hasPublicNode {id : String} (hhidden : HiddenArtifact db db' id) :
    ¬ hasPublicNode db id := by
  obtain ⟨row, hrow, hnode⟩ := hhidden
  rintro ⟨row', hrow', hsome⟩
  have hrow'' := ((h.artifacts id).resolve_right fun hhidden => by
    rw [(hhidden row' (.inl hrow')).1] at hsome
    cases hsome)
  rw [← hrow'', or_self, show db.artifacts.lookup id = some row' from hrow',
    Option.some.injEq] at hrow
  rw [hrow, hnode.1] at hsome
  cases hsome

include h in
/-- What is hidden has no public events. -/
theorem not_publicEvents {row : KgEventRow} (hhidden : HiddenEvent db db' row) :
    ¬ publicEvents db row := by
  unfold publicEvents
  obtain ⟨hkind, hnode⟩ | ⟨hkind, htriple⟩ | ⟨hkind, hartifact⟩ := hhidden
  · rw [hkind, hnode.1]
    simp
  · rw [hkind, show (db.graph.triples.select _).lookup row.entityId = none from htriple.1]
    simp
  · rw [hkind]
    rintro (⟨hne, -⟩ | ⟨hne, -⟩ | ⟨-, hpublic⟩ | hne)
    · exact absurd hne (by decide)
    · exact absurd hne (by decide)
    · exact h.not_hasPublicNode hartifact hpublic
    · exact absurd hne (by decide)

include h in
/-- The events that are served are the same. -/
theorem event_iff (key : ℤ × String) (row : KgEventRow) :
    db.graph.events.lookup key = some row ∧ publicEvents db row
      ↔ db'.graph.events.lookup key = some row ∧ publicEvents db' row := by
  rw [← h.publicEvents_iff row]
  exact h.events.iff (p := fun _ row => publicEvents db row)
    (fun _ _ _ hhidden => h.not_publicEvents hhidden) key row

include h in
theorem getEvents_eq : (getEvents db query : ReadReply J) = getEvents db' query := by
  have hrows : ∀ q : KgEventRow → Prop, ∀ [DecidablePred q],
      (db.graph.events.select fun _ row => publicEvents db row ∧ q row)
        = db'.graph.events.select fun _ row => publicEvents db' row ∧ q row := fun q _ =>
    Table.select_congr fun key row => by
      rw [← and_assoc, ← and_assoc, h.event_iff]
  unfold getEvents
  dsimp only
  rw [hrows]

include h in
theorem getStats_eq : (getStats db : ReadReply J) = getStats db' := by
  unfold getStats
  rw [Table.select_congr h.node_iff, Table.select_congr h.triple_iff, h.accounts, h.predicates]

include h in
theorem getPipeline_eq : (getPipeline db : ReadReply J) = getPipeline db' := by
  unfold getPipeline pipelineGroups
  rw [Table.select_congr h.node_iff]

include h in
/-- **Every route answers the same.** -/
theorem respond_eq (path : List String) : respond presentation lower semantic db path query
    = respond presentation lower semantic db' path query := by
  unfold respond
  split
  · rfl
  · rfl
  · exact h.getAtoms_eq
  · rw [h.getIidAtoms_eq]
  · rw [h.getAtom_eq]
  · rw [h.getArtifacts_eq]
  · rw [h.getAtomTriples_eq]
  · exact h.getTriples_eq
  · rw [h.getTriple_eq]
  · exact h.getEvents_eq
  · unfold getPredicates
    rw [h.predicates]
  · exact h.getPipeline_eq
  · exact h.getStats_eq
  · rfl

include h in
/-- A stamp is no difference. -/
theorem stampUsage (keyId : String) (now : ℤ) :
    DiffersOnlyHidden (stampUsage db keyId now) (stampUsage db' keyId now) where
  nodes := h.nodes
  triples := h.triples
  artifacts := h.artifacts
  nodeContexts := h.nodeContexts
  nodeIdentifiers := h.nodeIdentifiers
  nodeStats := h.nodeStats
  events := h.events
  accounts := h.accounts
  predicates := h.predicates
  apiKeys := congrArg (fun keys : Table String ApiKeyRow => keys.mapRows _) h.apiKeys

end DiffersOnlyHidden

/-! ## The API answers the same -/

variable {J : Type} {env : ApiEnv J} {config : ApiConfig} {windows : RateLimiter}
  {req : HttpRequest} {nowMs : ℕ}

/-- A request that reads is answered by a route that reads. -/
theorem route_of_get (hread : req.method = "GET") (identity : Option ApiKeyRow) (now : ℤ) :
    route env config db req identity now
      = (db, { status := (respond env.presentation env.lower config.atomSemanticReadsEnabled db
                  req.path req.query).status
               body := .read (respond env.presentation env.lower config.atomSemanticReadsEnabled db
                  req.path req.query).body }) := by
  unfold route
  rw [hread, if_neg fun hpost => absurd hpost.1 (by decide), if_pos (.inl rfl)]

/-- The response of a route that reads is the same. -/
theorem route_eq (h : DiffersOnlyHidden db db') (hread : req.method = "GET")
    (identity : Option ApiKeyRow) (now : ℤ) :
    (route env config db req identity now).2 = (route env config db' req identity now).2 := by
  rw [route_of_get hread, route_of_get hread, h.respond_eq]

theorem handle_eq (h : DiffersOnlyHidden db db') (hread : req.method = "GET")
    (identity : Option ApiKeyRow) :
    (handle env config ⟨db, windows⟩ req identity nowMs).2
      = (handle env config ⟨db', windows⟩ req identity nowMs).2 := by
  unfold handle
  split
  · exact route_eq h hread identity nowMs
  · dsimp only
    split
    · dsimp only
      rw [route_eq h hread]
    · rfl

/-- **The public read model leaks nothing**: whoever reads gets the same response from two
databases that differ only in what is hidden. -/
theorem reads_leak_nothing (h : DiffersOnlyHidden db db') (hread : req.method = "GET") :
    (serve env config ⟨db, windows⟩ req nowMs).2
      = (serve env config ⟨db', windows⟩ req nowMs).2 := by
  have hmiddleware : middleware env config db req = middleware env config db' req := by
    unfold middleware authenticate findApiKey
    rw [h.apiKeys]
  unfold serve
  dsimp only
  rw [← hmiddleware]
  cases middleware env config db req with
  | error response => rfl
  | ok identity =>
    cases identity with
    | none => exact handle_eq h hread none
    | some key => exact handle_eq (h.stampUsage key.id nowMs) hread (some key)

end Hidden

/-- A database with a draft, and the event that it was created. -/
def withDraft : KgDb where
  graph :=
    { nodes := (∅ : Table String NodeRow).insert "0x01"
        { status := "draft", rawType := "string", createdAt := 0, updatedAt := 0 }
      events := (∅ : Table (ℤ × String) KgEventRow).insert (0, "node:0x01")
        { entityKind := "node", entityId := "0x01", eventType := "node_created" } }

/-- Nobody can tell by the feed of events that there is a draft. -/
theorem reads_leak_nothing_draft :
    (serve keyless {} ⟨withDraft, ∅⟩ { method := "GET", path := ["api", "events"] } 0).2
      = (serve keyless {} ⟨{}, ∅⟩ { method := "GET", path := ["api", "events"] } 0).2 := by
  have hhidden : HiddenNode withDraft {} "0x01" := ⟨rfl, rfl⟩
  have hsame : DiffersOnlyHidden withDraft {} :=
    { nodes := fun id => by
        by_cases hid : id = "0x01"
        · exact .inr fun _ _ => hid ▸ hhidden
        · refine .inl ?_
          unfold KgDb.nodes
          rw [Table.lookup_mapTo, Table.lookup_mapTo, show withDraft.graph.nodes.lookup id = none
            from Finmap.lookup_insert_of_ne _ hid]
          rfl
      triples := fun _ => .inl rfl
      artifacts := fun _ => .inl rfl
      nodeContexts := fun _ => .inl rfl
      nodeIdentifiers := fun _ => .inl Iff.rfl
      nodeStats := fun _ => .inl rfl
      events := fun key => by
        by_cases hkey : key = (0, "node:0x01")
        · refine .inr fun row hrow => ?_
          rw [hkey, show withDraft.graph.events.lookup (0, "node:0x01") = some _
            from Finmap.lookup_insert _] at hrow
          obtain hrow | hrow := hrow
          · exact .inl (Option.some.inj hrow ▸ ⟨rfl, hhidden⟩)
          · cases hrow
        · exact .inl (Finmap.lookup_insert_of_ne _ hkey)
      accounts := rfl
      predicates := rfl
      apiKeys := rfl }
  exact reads_leak_nothing hsame rfl

end KgApi
