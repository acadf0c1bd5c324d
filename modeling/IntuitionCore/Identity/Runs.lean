import IntuitionCore.Identity.AtomView
import IntuitionCore.Identity.Classification
import IntuitionCore.Processing.Freshness

/-!
# What becomes of the identity of an atom

An atom is parsed by one worker and classified by another, which reads what the first has
stored, and the API presents what both have left in the row. Meanwhile operators put stages
back, leases expire and are taken by other runs, and the reading of IIDs is switched on and
off. What the API says of an atom is nevertheless what a parse has found in it.

A parse that finds an identity stores it in its result, and marks the row as that of an IID. A
requeue deletes the result but not the mark, and neither does a later parse that does not
look for IIDs. So the mark stands for the last identity that was found, and the API presents
that one: in full if it is stored, and else as far as the row knows it. That no
classification overwrites the mark rests on when it was claimed, and so on requeues that
cascade.
-/

open AtomParsing AtomClassification AtomView IdentityContract

/-! ## What operations do to the columns of an atom -/

/-- The columns that the stages share. -/
structure AtomColumns where
  data : Option String
  dataHex : Option String
  rawType : String
  iid : Option String
  classificationType : String
  deriving DecidableEq, Repr

/-- The columns after a stage has set some of them. -/
def AtomColumns.promote (c : AtomColumns) (p : NodeProcessingPromotedFields) : AtomColumns :=
  { c with
    rawType := p.rawType.getD c.rawType
    iid := p.iid <|> c.iid
    classificationType := p.classificationType.getD c.classificationType }

def ProcessedNode.atomColumns (n : ProcessedNode) : AtomColumns where
  data := n.data
  dataHex := n.dataHex
  rawType := n.rawType
  iid := n.iid
  classificationType := n.classificationType

namespace ProcessingOp

variable {op : ProcessingOp} {now : ℕ} {n : ProcessedNode} {stage : NodeProcessingStage}

/-- What a completion sets. -/
def promotedFields : ProcessingOp → NodeProcessingPromotedFields
  | .complete _ _ _ fields | .completeWithArtifacts _ _ fields => fields
  | _ => {}

theorem atomColumns_skipStages (stages : List NodeProcessingStage) (reason : String) (now : ℕ)
    (n : ProcessedNode) : (n.skipStages stages reason now).atomColumns = n.atomColumns := by
  refine Result.foldl_keeps (g := ProcessedNode.atomColumns) (fun n first => ?_) stages n
  unfold ProcessedNode.skipIdle
  split <;> rfl

/-- **Only a completion sets the columns that the stages share.** -/
theorem atomColumns_patch (op : ProcessingOp) (now : ℕ) (n : ProcessedNode) :
    (op.patch now n).atomColumns = n.atomColumns.promote op.promotedFields := by
  cases op with
  | skipStages stages reason => exact atomColumns_skipStages stages reason now n
  | skipWithDownstream first runId reason downstreamReason =>
    exact atomColumns_skipStages first.downstreamStages downstreamReason now _
  | requeue input began =>
    exact Result.foldl_keeps (f := fun n stage => n.resetStage stage began)
      (g := ProcessedNode.atomColumns) (fun _ _ => rfl) _ n
  | _ => rfl

/-- A stage is changed that keeps its result. -/
theorem result_of_update {n n' : ProcessedNode} {first : NodeProcessingStage}
    {columns : StageColumns} (h : n'.stage = Function.update n.stage first columns)
    (hcolumns : columns.result = (n.stage first).result) (stage : NodeProcessingStage) :
    (n'.stage stage).result = (n.stage stage).result := by
  rw [h, Function.update_apply]
  split
  · next hstage => rw [hstage, hcolumns]
  · rfl

theorem result_skipStages (n : ProcessedNode) (stages : List NodeProcessingStage)
    (reason : String) (now : ℕ) (stage : NodeProcessingStage) :
    ((n.skipStages stages reason now).stage stage).result = (n.stage stage).result := by
  rw [n.stage_skipStages stages reason now stage]
  split <;> rfl

/-- A stage that goes back to the start. -/
theorem result_resetColumns (n : ProcessedNode) (stage : NodeProcessingStage) :
    (n.resetColumns stage).result = (n.stage stage).result
      ∨ (n.resetColumns stage).result = none := by
  unfold ProcessedNode.resetColumns
  cases hresult : stage.hasResult
  · exact .inl (by simp)
  · exact .inr (by simp)

/-- **What becomes of a result**: it is as it was, or deleted, or what a run reports. -/
theorem result_patch (op : ProcessingOp) (now : ℕ) (n : ProcessedNode)
    (stage : NodeProcessingStage) :
    ((op.patch now n).stage stage).result = (n.stage stage).result
      ∨ ((op.patch now n).stage stage).result = none
      ∨ ∃ runId data promotedFields, op = .complete stage runId data promotedFields
        ∧ ((op.patch now n).stage stage).result = (data <|> (n.stage stage).result) := by
  have hreset {n' : ProcessedNode} (h : n'.stage stage = n.resetColumns stage
      ∨ n'.stage stage = n.stage stage) :
      (n'.stage stage).result = (n.stage stage).result ∨ (n'.stage stage).result = none := by
    obtain h | h := h
    · rw [h]
      exact result_resetColumns n stage
    · exact .inl (congrArg StageColumns.result h)
  cases op with
  | claim | renew | completeWithArtifacts | fail | skip | reap | release =>
    left
    apply result_of_update <;> rfl
  | complete first runId data promotedFields =>
    by_cases hstage : stage = first
    · subst hstage
      cases hresult : stage.hasResult
      · exact .inl (by simp [patch, ProcessedNode.complete, hresult])
      · refine .inr (.inr ⟨runId, data, promotedFields, rfl, ?_⟩)
        simp [patch, ProcessedNode.complete, hresult]
    · refine .inl (congrArg StageColumns.result ?_)
      exact (n.stage_patchStage first stage now _).trans (if_neg hstage)
  | skipStages stages reason => exact .inl (result_skipStages n stages reason now stage)
  | skipWithDownstream first runId reason downstreamReason =>
    have hskip : ((n.skip first reason now).stage stage).result = (n.stage stage).result := by
      apply result_of_update <;> rfl
    exact .inl ((result_skipStages _ _ _ _ stage).trans hskip)
  | requeue input began =>
    refine (hreset ?_).imp_right .inl
    refine (n.stage_requeue input began stage).symm ▸ ?_
    split
    · exact .inl rfl
    · exact .inr rfl
  | reset input began =>
    refine (hreset ?_).imp_right .inl
    refine (n.stage_reset input began stage).symm ▸ ?_
    split
    · next hstage => exact .inl (congrArg n.resetColumns hstage.symm)
    · exact .inr rfl

end ProcessingOp

/-! ## What was found -/

/-- The identity that a parse has found. -/
def ProcessingEvent.identity? : ProcessingEvent → Option NormalizedAtomIdentity
  | .finished .parse _ .completed data => (readParseResult data).bind (·.identity)
  | _ => none

/-- The row that a run was given. -/
def ProcessingEvent.claimedRow? (stage : NodeProcessingStage) (runId : String) :
    ProcessingEvent → Option ProcessedNode
  | .claimed first claimant _ _ row => if first = stage ∧ claimant = runId then some row else none
  | _ => none

/-- The identity that an operation reports. -/
def ProcessingOp.identity? : ProcessingOp → Option NormalizedAtomIdentity
  | .complete .parse _ data _ => (readParseResult data).bind (·.identity)
  | _ => none

/-- The text that the worker of the first stage parses. -/
def ProcessedNode.parseInput? (n : ProcessedNode) : Option String :=
  truthy (n.data <|> n.dataHex)

/-- The identity that the next worker would find. -/
def ProcessedNode.storedIdentity (n : ProcessedNode) : Option NormalizedAtomIdentity :=
  (readParseResult (n.stage .parse).result).bind (·.identity)

namespace TrackedNode

/-- The last identity that a parse has found. -/
def lastIdentity (n : TrackedNode) : Option NormalizedAtomIdentity :=
  n.history.findSome? ProcessingEvent.identity?

def claimedRow? (n : TrackedNode) (stage : NodeProcessingStage) (runId : String) :
    Option ProcessedNode :=
  n.history.findSome? (ProcessingEvent.claimedRow? stage runId)

variable {op : ProcessingOp} {now : ℕ} {n : TrackedNode} {stage : NodeProcessingStage}
  {runId : String}

/-- An identity that is reported is the last one, until another is. -/
theorem lastIdentity_apply (op : ProcessingOp) (now : ℕ) (n : TrackedNode) :
    (op.apply now n).lastIdentity = op.identity?.or n.lastIdentity := by
  have hevents : (op.events now n.toProcessedNode).findSome? ProcessingEvent.identity?
      = op.identity? := by
    cases op with
    | complete stage runId data promotedFields =>
      cases stage with
      | parse => exact List.findSome?_singleton
      | classification | enrichment => rfl
    | fail stage | skip stage | skipWithDownstream stage => cases stage <;> rfl
    | _ => rfl
  unfold lastIdentity
  rw [← hevents]
  exact List.findSome?_append

/-- A run is given the row that its claim leaves. -/
theorem claimedRow?_claim (input : ClaimInput) (claimant : String) (now : ℕ) (n : TrackedNode)
    (stage : NodeProcessingStage) (runId : String) :
    ((ProcessingOp.claim input claimant).apply now n).claimedRow? stage runId
      = if input.stage = stage ∧ claimant = runId then some (n.claim input claimant now)
        else n.claimedRow? stage runId := by
  by_cases h : input.stage = stage ∧ claimant = runId
  · simp [claimedRow?, ProcessingOp.apply, ProcessingOp.events, ProcessingEvent.claimedRow?, h]
  · simp [claimedRow?, ProcessingOp.apply, ProcessingOp.events, ProcessingEvent.claimedRow?, h]

/-- What else is done leaves what a run was given. -/
theorem claimedRow?_apply (h : ∀ input claimant, op = .claim input claimant → input.stage ≠ stage) :
    (op.apply now n).claimedRow? stage runId = n.claimedRow? stage runId := by
  have hevents : (op.events now n.toProcessedNode).findSome?
      (ProcessingEvent.claimedRow? stage runId) = none := by
    cases op with
    | claim input claimant =>
      simp [ProcessingOp.events, ProcessingEvent.claimedRow?, h input claimant rfl]
    | _ => rfl
  have happend : (op.apply now n).claimedRow? stage runId
      = ((op.events now n.toProcessedNode).findSome?
          (ProcessingEvent.claimedRow? stage runId)).or (n.claimedRow? stage runId) :=
    List.findSome?_append
  rw [happend, hevents, Option.none_or]

end TrackedNode

/-! ## What workers report -/

namespace AtomWorkers

/-- What some worker makes of a text. -/
def IsParsed (rawInput : String) (r : CompactParseResult) : Prop :=
  ∃ iidReadEnabled adapter parseLegacy outcome, (∀ a ∈ adapter, a.IsLawful)
    ∧ parseAtomWithIidRead rawInput iidReadEnabled adapter parseLegacy = .ok outcome
    ∧ outcome.result = r

/-- What some worker makes of a row that was parsed. -/
def IsClassified (n : ProcessedNode) (r : WorkerClassificationResult) : Prop :=
  ∃ m iidReadEnabled runtime, m.IsLawful
    ∧ classifyNode m iidReadEnabled (readParseResult (n.stage .parse).result)
        (n.data <|> n.dataHex) runtime = .completed r

/-- What a worker reports when it has parsed a text. -/
def parseReport (runId : String) (r : CompactParseResult) : ProcessingOp :=
  .complete .parse runId (some (compactParseResult.write r)) (AtomParsing.promotedFields r)

/-- A run reports what a worker makes of the row that it was given. Workers of different
versions may do so, with the reading of IIDs switched on or off. -/
def Reports (n : TrackedNode) : ProcessingOp → Prop
  | .complete .parse runId data fields =>
    ∃ row rawInput r, n.claimedRow? .parse runId = some row ∧ row.parseInput? = some rawInput
      ∧ IsParsed rawInput r ∧ data = some (compactParseResult.write r)
      ∧ fields = AtomParsing.promotedFields r
  | .complete .classification runId data fields =>
    ∃ row r, n.claimedRow? .classification runId = some row ∧ IsClassified row r
      ∧ data = some (workerClassificationResult.write r)
      ∧ fields = AtomClassification.promotedFields row.iid r
  | .complete .enrichment _ _ _ => False
  | .completeWithArtifacts _ _ fields =>
    fields.rawType = none ∧ fields.iid = none ∧ fields.classificationType = none
  | _ => True

/-- What a parse finds: an identity of the text, or none. -/
theorem IsParsed.cases {rawInput : String} {r : CompactParseResult} (h : IsParsed rawInput r) :
    (∃ i, r.identity = some i ∧ r.kind = .iid ∧ i.raw = rawInput ∧ CompactIsWellFormed r)
      ∨ (r.identity = none ∧ r.kind ≠ .iid) := by
  obtain ⟨iidReadEnabled, adapter, parseLegacy, outcome, hlawful, hparse, rfl⟩ := h
  have hwell := parse_isWellFormed_iff hlawful hparse
  obtain ⟨a, i, ha, hi, hresult⟩ | ⟨fallback, -, hresult⟩ := parse_cases hparse
  · left
    have hinput : NotBlank outcome.result.normalizedInput := by
      rw [hresult]
      exact (hlawful a ha).iid rawInput i hi
    exact ⟨i.toIdentity rawInput a.provenance, by rw [hresult], by rw [hresult], rfl,
      hwell.mpr hinput⟩
  · right
    obtain ⟨hidentity, -, hkind⟩ := toCompactParseResult_plain parseLegacy
    rw [hresult]
    exact ⟨hidentity, hkind⟩

/-- **The next worker finds the identity that was found.** -/
theorem IsParsed.identity_read {rawInput : String} {r : CompactParseResult}
    (h : IsParsed rawInput r) :
    (readParseResult (some (compactParseResult.write r))).bind (·.identity) = r.identity := by
  obtain ⟨i, -, -, -, hwell⟩ | ⟨hnone, -⟩ := h.cases
  · rw [readParseResult_write.mpr ⟨rfl, hwell⟩, Option.bind_some]
  · cases hread : readParseResult (some (compactParseResult.write r)) with
    | none => exact hnone.symm
    | some r' =>
      obtain ⟨rfl, -⟩ := readParseResult_write.mp hread
      rfl

/-! ## What holds of a row -/

/-- **The mark stands for the last identity that was found**, which is that of the parse if the
parse has one. -/
structure IsMarked (n : TrackedNode) : Prop where
  rawType : n.rawType = "iid" ↔ n.lastIdentity.isSome
  iid : ∀ i ∈ n.lastIdentity, n.iid = some i.canonical
  found : ∀ i ∈ n.lastIdentity, n.parseInput? = some i.raw ∧ IdentityIsWellFormed i
  parsed : ∀ v ∈ (n.stage .parse).result, ∃ rawInput r, v = compactParseResult.write r
    ∧ n.parseInput? = some rawInput ∧ IsParsed rawInput r
    ∧ ∀ i ∈ r.identity, n.lastIdentity = some i

/-- **The columns of a row agree** about the atom: the mark is that of its identity, and the
classification is one of its parse. -/
structure IsCoherent (n : TrackedNode) : Prop extends IsMarked n where
  /-- No run was given another text. -/
  input : ∀ stage runId, ∀ row ∈ n.claimedRow? stage runId,
    row.data = n.data ∧ row.dataHex = n.dataHex
  settled : (n.stage .classification).IsUnderWay → (n.stage .parse).IsSettled
  claimed : (n.stage .classification).status = .processing → ∃ runId row,
    n.runId? .classification = some runId ∧ n.claimedRow? .classification runId = some row
      ∧ row.iid = n.iid ∧ (row.stage .parse).result = (n.stage .parse).result
  classified : (n.stage .classification).status = .completed → ∃ r,
    (n.stage .classification).result = some (workerClassificationResult.write r)
      ∧ IsClassified n.toProcessedNode r ∧ n.classificationType = resolveClassificationType r

variable {op : ProcessingOp} {now : ℕ} {n : TrackedNode}

theorem parseInput?_eq {row n : ProcessedNode} (h : row.data = n.data ∧ row.dataHex = n.dataHex) :
    row.parseInput? = n.parseInput? := by
  unfold ProcessedNode.parseInput?
  rw [h.1, h.2]

/-- Rows with the same text and the same parse are classified alike. -/
theorem IsClassified.congr {row n : ProcessedNode} {r : WorkerClassificationResult}
    (h : IsClassified row r) (htext : row.data = n.data ∧ row.dataHex = n.dataHex)
    (hparsed : (row.stage .parse).result = (n.stage .parse).result) : IsClassified n r := by
  obtain ⟨m, iidReadEnabled, runtime, hlawful, hclassify⟩ := h
  rw [hparsed, htext.1, htext.2] at hclassify
  exact ⟨m, iidReadEnabled, runtime, hlawful, hclassify⟩

theorem isCoherent_new (now : ℕ) (data dataHex : Option String) :
    IsCoherent (.new now data dataHex) where
  input stage runId row h := nomatch h
  rawType := by
    show "string" = "iid" ↔ (none : Option NormalizedAtomIdentity).isSome = true
    decide
  iid i h := nomatch h
  found i h := nomatch h
  parsed v h := nomatch h
  settled h := h.elim nofun nofun
  claimed h := nomatch h
  classified h := nomatch h

/-- A report that is taken is that of the run which was given the row. -/
theorem IsCoherent.claimed_of_guard (hn : IsCoherent n) {runId : String} {row : ProcessedNode}
    (hguard : n.StageRunGuard .classification runId)
    (hrow : n.claimedRow? .classification runId = some row) :
    row.iid = n.iid ∧ (row.stage .parse).result = (n.stage .parse).result := by
  obtain ⟨claimant, row', hclaimant, hrow', hgiven⟩ := hn.claimed hguard.1
  obtain rfl := Option.some.inj (hclaimant.symm.trans hguard.2)
  obtain rfl := Option.some.inj (hrow'.symm.trans hrow)
  exact hgiven

/-- **What a step may do to the columns**: a parse reports what it has found, or a row that is
marked keeps the mark and the IID. -/
theorem IsCoherent.promotes (hn : IsCoherent n) (hreports : Reports n op)
    (hguard : op.Guard now n.toProcessedNode) :
    (∃ runId rawInput r, op = parseReport runId r ∧ n.parseInput? = some rawInput
      ∧ IsParsed rawInput r)
    ∨ (∀ runId data fields, op ≠ .complete .parse runId data fields)
      ∧ op.promotedFields.rawType = none
      ∧ (n.lastIdentity.isSome → op.promotedFields.iid = none) := by
  cases op with
  | complete stage runId data fields =>
    cases stage with
    | parse =>
      obtain ⟨row, rawInput, r, hrow, hinput, hparsed, rfl, rfl⟩ := hreports
      have htext := parseInput?_eq (hn.input .parse runId row hrow)
      exact .inl ⟨runId, rawInput, r, rfl, htext.symm.trans hinput, hparsed⟩
    | classification =>
      obtain ⟨row, r, hrow, -, -, rfl⟩ := hreports
      refine .inr ⟨nofun, rfl, fun hsome => ?_⟩
      obtain ⟨i, hi⟩ := Option.isSome_iff_exists.mp hsome
      have hiid : row.iid = some i.canonical :=
        (hn.claimed_of_guard hguard hrow).1.trans (hn.iid i hi)
      exact if_neg (hiid ▸ Option.some_ne_none _)
    | enrichment => exact hreports.elim
  | completeWithArtifacts runId artifactIds fields =>
    exact .inr ⟨nofun, hreports.1, fun _ => hreports.2.1⟩
  | _ => exact .inr ⟨nofun, rfl, fun _ => rfl⟩

/-- What the columns of an atom are after a step. -/
theorem columns_apply (op : ProcessingOp) (now : ℕ) (n : TrackedNode) :
    (op.apply now n).atomColumns = n.atomColumns.promote op.promotedFields :=
  op.atomColumns_patch now n.toProcessedNode

theorem text_apply (op : ProcessingOp) (now : ℕ) (n : TrackedNode) :
    (op.apply now n).data = n.data ∧ (op.apply now n).dataHex = n.dataHex :=
  ⟨congrArg AtomColumns.data (columns_apply op now n),
    congrArg AtomColumns.dataHex (columns_apply op now n)⟩

/-- Runs are given the text of the atom. -/
theorem IsCoherent.input_apply (hn : IsCoherent n) (op : ProcessingOp) (now : ℕ)
    (stage : NodeProcessingStage) (runId : String) :
    ∀ row ∈ (op.apply now n).claimedRow? stage runId,
      row.data = (op.apply now n).data ∧ row.dataHex = (op.apply now n).dataHex := by
  obtain ⟨hdata, hdataHex⟩ := text_apply op now n
  rw [hdata, hdataHex]
  intro row hrow
  by_cases hclaim : ∃ input claimant, op = .claim input claimant
  · obtain ⟨input, claimant, rfl⟩ := hclaim
    rw [TrackedNode.claimedRow?_claim] at hrow
    split at hrow
    · obtain rfl := Option.mem_some_iff.mp hrow
      exact ⟨rfl, rfl⟩
    · exact hn.input stage runId row hrow
  · rw [TrackedNode.claimedRow?_apply fun input claimant h => absurd ⟨input, claimant, h⟩ hclaim]
      at hrow
    exact hn.input stage runId row hrow

/-- A parse leaves the mark of what it has found. -/
theorem IsMarked.apply_parse (hn : IsMarked n) {rawInput : String} {r : CompactParseResult}
    (hinput : n.parseInput? = some rawInput) (hparsed : IsParsed rawInput r) (now : ℕ)
    (runId : String) : IsMarked ((parseReport runId r).apply now n) := by
  have hidentity : ((parseReport runId r).apply now n).lastIdentity
      = r.identity.or n.lastIdentity := by
    rw [TrackedNode.lastIdentity_apply]
    exact congrArg (Option.or · n.lastIdentity) hparsed.identity_read
  have hrawType : ((parseReport runId r).apply now n).rawType
      = (r.identity.map fun _ => "iid").getD n.rawType := rfl
  have hiid : ((parseReport runId r).apply now n).iid
      = (r.identity.map (·.canonical) <|> n.iid) := rfl
  have hresult : (((parseReport runId r).apply now n).stage .parse).result
      = some (compactParseResult.write r) := by
    simp [parseReport, ProcessingOp.apply, ProcessingOp.patch, ProcessedNode.complete,
      NodeProcessingStage.hasResult]
  obtain ⟨i, hi, -, hraw, hwell⟩ | ⟨hnone, -⟩ := hparsed.cases
  · rw [hi] at hidentity hrawType hiid
    refine ⟨?_, ?_, ?_, ?_⟩
    · rw [hrawType, hidentity]
      exact iff_of_true rfl rfl
    · rw [hidentity, hiid]
      rintro _ ⟨⟩
      rfl
    · rw [hidentity]
      rintro _ ⟨⟩
      exact ⟨hraw ▸ hinput, hwell.identity i hi⟩
    · rw [hresult, hidentity]
      rintro _ ⟨⟩
      exact ⟨rawInput, r, rfl, hinput, hparsed, fun i' hi' => hi.symm.trans hi'⟩
  · rw [hnone] at hidentity hrawType hiid
    refine ⟨?_, ?_, ?_, ?_⟩
    · rw [hrawType, hidentity]
      exact hn.rawType
    · rw [hidentity, hiid]
      exact hn.iid
    · rw [hidentity]
      exact hn.found
    · rw [hresult]
      rintro _ ⟨⟩
      exact ⟨rawInput, r, rfl, hinput, hparsed, fun i hi => absurd (hnone.symm.trans hi) (Option.some_ne_none i).symm⟩

/-- What else is done leaves the mark. -/
theorem IsMarked.apply_of_ne (hn : IsMarked n)
    (hother : ∀ runId data fields, op ≠ .complete .parse runId data fields)
    (hrawType : op.promotedFields.rawType = none)
    (hiid : n.lastIdentity.isSome → op.promotedFields.iid = none) :
    IsMarked (op.apply now n) := by
  have hidentity : (op.apply now n).lastIdentity = n.lastIdentity := by
    rw [TrackedNode.lastIdentity_apply]
    cases op with
    | complete stage runId data fields =>
      cases stage with
      | parse => exact absurd rfl (hother runId data fields)
      | classification | enrichment => rfl
    | _ => rfl
  have htext := parseInput?_eq (text_apply op now n)
  refine ⟨?_, ?_, ?_, ?_⟩
  · have hmark := congrArg AtomColumns.rawType (columns_apply op now n)
    rw [show (op.apply now n).rawType = op.promotedFields.rawType.getD n.rawType from hmark,
      hrawType, hidentity]
    exact hn.rawType
  · have hcolumn := congrArg AtomColumns.iid (columns_apply op now n)
    rw [hidentity, show (op.apply now n).iid = (op.promotedFields.iid <|> n.iid) from hcolumn]
    intro i hi
    rw [hiid (Option.isSome_of_mem hi)]
    exact hn.iid i hi
  · rw [hidentity, htext]
    exact hn.found
  · rw [hidentity, htext]
    obtain hsame | hnone | ⟨runId, data, fields, hop, -⟩ := op.result_patch now n.toProcessedNode .parse
    · exact fun v hv => hn.parsed v (hsame ▸ hv)
    · exact fun v hv => absurd (hnone.symm.trans hv) (Option.some_ne_none v).symm
    · exact absurd hop (hother runId data fields)

/-! ## Classifications that go on -/

/-- The parse that a classification rests on is kept. -/
theorem IsCoherent.keeps (hn : IsCoherent n) (hop : op.Cascades)
    (hguard : op.Guard now n.toProcessedNode)
    (h : op.Continues now n.toProcessedNode .classification) :
    op.Keeps now n.toProcessedNode .parse := by
  obtain ⟨requeue, began, rfl, hmem⟩ | hkeeps :=
    op.keeps_of_isSettled hop hguard (hn.settled h.isUnderWay)
  · exact absurd (requeue.mem_stagesToReset hop (List.mem_singleton_self _) hmem)
      (h.notMem requeue began rfl)
  · exact hkeeps

/-- A classification that is complete is not taken up again. -/
theorem not_processing_of_completed (hop : op.Cascades)
    (hguard : op.Guard now n.toProcessedNode)
    (h : op.Continues now n.toProcessedNode .classification)
    (hcompleted : (n.stage .classification).status = .completed) :
    ((op.apply now n).stage .classification).status ≠ .processing := by
  obtain ⟨requeue, began, rfl, hmem⟩ | hkeeps :=
    op.keeps_of_isSettled hop hguard (StageColumns.isSettled_of_completed hcompleted)
  · exact absurd hmem (h.notMem requeue began rfl)
  · exact hkeeps.isSettled.2.1

/-- While an atom is classified, and once it is, only its classification sets its class or its
IID. -/
theorem IsCoherent.promotes_none (hn : IsCoherent n) (hreports : Reports n op)
    (hguard : op.Guard now n.toProcessedNode) (h : (n.stage .classification).IsUnderWay)
    (hother : ∀ runId data fields, op ≠ .complete .classification runId data fields) :
    op.promotedFields.iid = none ∧ op.promotedFields.classificationType = none := by
  cases op with
  | complete stage runId data fields =>
    cases stage with
    | parse => exact absurd hguard.1 (hn.settled h).2.1
    | classification => exact absurd rfl (hother runId data fields)
    | enrichment => exact hreports.elim
  | completeWithArtifacts runId artifactIds fields => exact hreports.2
  | _ => exact ⟨rfl, rfl⟩

/-- A worker takes up a classification when the parse is complete. -/
theorem IsCoherent.settled_apply (hn : IsCoherent n) (hop : op.Cascades)
    (hguard : op.Guard now n.toProcessedNode)
    (h : ((op.apply now n).stage .classification).IsUnderWay) :
    ((op.apply now n).stage .parse).IsSettled := by
  obtain ⟨input, runId, rfl, hstage⟩ | hcontinues := op.continues_of_isUnderWay hop hguard h
  · have hprerequisite : input.prerequisiteStage = some { stage := .parse } := by
      rw [show input.prerequisiteStage = input.stage.workerPrerequisite from hop, hstage]
      rfl
    have hcompleted : (n.stage .parse).status = .completed :=
      hguard.2.2.1 { stage := .parse } hprerequisite
    have hkept : (n.claim input runId now).stage .parse = n.stage .parse := by
      rw [n.stage_claim input runId now .parse, hstage]
      rfl
    exact hkept.symm ▸ StageColumns.isSettled_of_completed hcompleted
  · exact (hn.keeps hop hguard hcontinues).isSettled

/-- **The run of a classification was given the parse and the IID that are stored.** -/
theorem IsCoherent.claimed_apply (hn : IsCoherent n) (hop : op.Cascades)
    (hreports : Reports n op) (hguard : op.Guard now n.toProcessedNode)
    (h : ((op.apply now n).stage .classification).status = .processing) :
    ∃ runId row, (op.apply now n).runId? .classification = some runId
      ∧ (op.apply now n).claimedRow? .classification runId = some row
      ∧ row.iid = (op.apply now n).iid
      ∧ (row.stage .parse).result = ((op.apply now n).stage .parse).result := by
  by_cases hclaim : ∃ input runId, op = .claim input runId ∧ input.stage = .classification
  · obtain ⟨input, runId, rfl, hstage⟩ := hclaim
    refine ⟨runId, n.claim input runId now, ?_, ?_, rfl, rfl⟩
    · exact (n.runId?_claim input runId now .classification).trans (if_pos hstage.symm)
    · rw [TrackedNode.claimedRow?_claim, if_pos ⟨hstage, rfl⟩]
  · have hcontinues := (op.continues_of_isUnderWay hop hguard (.inl h)).resolve_left hclaim
    have hprocessing : (n.stage .classification).status = .processing :=
      hcontinues.isUnderWay.resolve_right fun hcompleted =>
        not_processing_of_completed hop hguard hcontinues hcompleted h
    obtain ⟨runId, row, hrun, hrow, hiid, hparsed⟩ := hn.claimed hprocessing
    have hpromoted := hn.promotes_none hreports hguard (.inl hprocessing) fun runId data fields => by
      rintro rfl
      simp [ProcessingOp.apply, ProcessingOp.patch, ProcessedNode.complete] at h
    have hcolumn : (op.apply now n).iid = (op.promotedFields.iid <|> n.iid) :=
      congrArg AtomColumns.iid (columns_apply op now n)
    refine ⟨runId, row, hcontinues.runId?.trans hrun, ?_, ?_, ?_⟩
    · rw [TrackedNode.claimedRow?_apply fun input claimant heq hstage =>
        hclaim ⟨input, claimant, heq, hstage⟩]
      exact hrow
    · rw [hcolumn, hpromoted.1]
      exact hiid
    · exact hparsed.trans (hn.keeps hop hguard hcontinues).result.symm

/-- A run that is noted to have completed a classification has reported it. -/
theorem complete_of_finished {n : ProcessedNode} {runId : String} {data : Option KgJson}
    (h : .finished .classification runId .completed data ∈ op.events now n) :
    ∃ fields, op = .complete .classification runId data fields := by
  cases op with
  | complete stage claimant value fields =>
    cases List.mem_singleton.mp h
    exact ⟨fields, rfl⟩
  | _ => simp [ProcessingOp.events] at h

/-- **A classification that is stored is one of the parse that is stored.** -/
theorem IsCoherent.classified_apply (hn : IsCoherent n) (hop : op.Cascades)
    (hreports : Reports n op) (hguard : op.Guard now n.toProcessedNode)
    (h : ((op.apply now n).stage .classification).status = .completed) :
    ∃ r, ((op.apply now n).stage .classification).result
        = some (workerClassificationResult.write r)
      ∧ IsClassified (op.apply now n).toProcessedNode r
      ∧ (op.apply now n).classificationType = resolveClassificationType r := by
  have htext := text_apply op now n
  have hclass : (op.apply now n).classificationType
      = op.promotedFields.classificationType.getD n.classificationType :=
    congrArg AtomColumns.classificationType (columns_apply op now n)
  obtain ⟨input, runId, rfl, hstage⟩ | hcontinues := op.continues_of_isUnderWay hop hguard (.inr h)
  · have hprocessing : ((n.claim input runId now).stage .classification).status = .processing := by
      rw [n.stage_claim input runId now .classification, if_pos hstage.symm]
    exact NodeProcessingStatus.noConfusion (hprocessing.symm.trans h)
  · have hparsed := (hn.keeps hop hguard hcontinues).result
    obtain ⟨hcompleted, hresult⟩ | ⟨runId, data, hrun, hfinished, hresult⟩ := hcontinues.result h
    · obtain ⟨r, hr, hclassified, htype⟩ := hn.classified hcompleted
      have hpromoted := hn.promotes_none hreports hguard (.inr hcompleted)
        fun runId data fields => by
          rintro rfl
          exact NodeProcessingStatus.noConfusion (hcompleted.symm.trans hguard.1)
      refine ⟨r, hresult.trans hr, ?_, ?_⟩
      · exact hclassified.congr ⟨htext.1.symm, htext.2.symm⟩ hparsed.symm
      · rw [hclass, hpromoted.2]
        exact htype
    · obtain ⟨fields, rfl⟩ := complete_of_finished hfinished
      obtain ⟨row, r, hrow, hclassified, rfl, rfl⟩ := hreports
      have hgiven := (hn.claimed_of_guard hguard hrow).2
      refine ⟨r, hresult rfl, ?_, rfl⟩
      have hrowText := hn.input .classification runId row hrow
      exact hclassified.congr ⟨hrowText.1.trans htext.1.symm, hrowText.2.trans htext.2.symm⟩
        (hgiven.trans hparsed.symm)

/-- **Every step keeps the columns in agreement.** -/
theorem IsCoherent.apply (hn : IsCoherent n) (hop : op.Cascades) (hreports : Reports n op)
    (hguard : op.Guard now n.toProcessedNode) : IsCoherent (op.apply now n) where
  toIsMarked := by
    obtain ⟨runId, rawInput, r, rfl, hinput, hparsed⟩ | ⟨hother, hrawType, hiid⟩ :=
      hn.promotes hreports hguard
    · exact hn.toIsMarked.apply_parse hinput hparsed now runId
    · exact hn.toIsMarked.apply_of_ne hother hrawType hiid
  input := hn.input_apply op now
  settled := hn.settled_apply hop hguard
  claimed := hn.claimed_apply hop hreports hguard
  classified := hn.classified_apply hop hreports hguard

/-! ## What the API presents -/

/-- The text of a status. -/
def statusText : NodeProcessingStatus → String
  | .pending => "pending"
  | .processing => "processing"
  | .completed => "completed"
  | .failed => "failed"
  | .skipped => "skipped"

/-- What the API reads of an atom are the columns of its row. -/
structure IsReadOf (atom : AtomViewSource) (n : ProcessedNode) : Prop where
  rawType : atom.rawType = n.rawType
  data : atom.data = n.data
  iid : atom.iid = n.iid
  parseResult : atom.parseResult = (n.stage .parse).result
  classificationType : atom.classificationType = n.classificationType
  classificationStatus : atom.classificationStatus = statusText (n.stage .classification).status
  classificationResult : atom.classificationResult = (n.stage .classification).result

/-- What is to be presented: the last identity that was found, in full if it is stored, and else
as far as the row knows it. -/
def presentedIdentity (n : TrackedNode) : Option AtomIdentityView :=
  n.lastIdentity.map fun i =>
    if n.storedIdentity = some i then .ofIdentity i
    else { raw := n.data, canonical := trim i.canonical }

variable {atom : AtomViewSource}

/-- The result of a parse is that of an IID if the parse has found one. -/
theorem isIid_write (r : CompactParseResult) :
    IsIid (some (compactParseResult.write r)) ↔ r.kind = .iid := by
  have hfield : (field (some (compactParseResult.write r)) "kind").bind KgJson.string?
      = some (kindStr r.kind) := by
    simp [field, compactParseResult, kind, text, Codec.comp, Codec.required, get?_object,
      KgJson.string?]
  unfold IsIid
  rw [hfield]
  constructor
  · intro h
    have hkind := kindOf_kindStr r.kind
    rw [Option.some.inj h] at hkind
    exact (Option.some.inj hkind).symm
  · intro h
    rw [h]
    rfl

/-- An atom whose result is not that of an IID is presented as its row knows it. -/
theorem IsMarked.persistedIid (hn : IsMarked n) (hatom : IsReadOf atom n.toProcessedNode) :
    ((AtomView.persistedIid atom).map fun iid : String =>
        ({ raw := atom.data, canonical := some iid } : AtomIdentityView))
      = n.lastIdentity.map fun i => { raw := n.data, canonical := trim i.canonical } := by
  unfold AtomView.persistedIid
  rw [hatom.rawType, hatom.iid, hatom.data]
  cases hlast : n.lastIdentity with
  | none =>
    have hmark : n.rawType ≠ "iid" := fun h => by simpa [hlast] using hn.rawType.mp h
    rw [if_neg hmark]
    rfl
  | some i =>
    have hmark : n.rawType = "iid" := hn.rawType.mpr (hlast ▸ rfl)
    rw [if_pos hmark, hn.iid i hlast, Option.bind_some,
      readString_string (hn.found i hlast).2.canonical]
    rfl

/-- **The API presents the last identity that was found.** -/
theorem IsMarked.resolveIdentity (hn : IsMarked n) (hatom : IsReadOf atom n.toProcessedNode) :
    resolveIdentity atom = presentedIdentity n := by
  have hpersisted := hn.persistedIid hatom
  have hplain (hkind : ¬ IsIid atom.parseResult) (hstored : n.storedIdentity = none) :
      AtomView.resolveIdentity atom = presentedIdentity n := by
    unfold AtomView.resolveIdentity presentedIdentity
    rw [if_neg hkind, if_neg hkind, hpersisted, hstored]
    cases n.lastIdentity <;> rfl
  cases hresult : (n.stage .parse).result with
  | none =>
    refine hplain ?_ ?_
    · rw [hatom.parseResult, hresult]
      exact nofun
    · unfold ProcessedNode.storedIdentity
      rw [hresult]
      rfl
  | some v =>
    obtain ⟨rawInput, r, rfl, -, hparsed, hlast⟩ := hn.parsed v hresult
    have hstored : n.storedIdentity = r.identity := by
      unfold ProcessedNode.storedIdentity
      rw [hresult]
      exact hparsed.identity_read
    obtain ⟨i, hi, hkind, -, hwell⟩ | ⟨hnone, hkind⟩ := hparsed.cases
    · have hidentity : field atom.parseResult "identity" = some (identity.write i) := by
        rw [hatom.parseResult, hresult]
        simp [field, compactParseResult, get?_object, List.lookup_cons, hi, Codec.optional]
      have hiid : IsIid atom.parseResult := by
        rw [hatom.parseResult, hresult]
        exact (isIid_write r).mpr hkind
      unfold AtomView.resolveIdentity presentedIdentity
      rw [if_pos hiid, hidentity, resolveNestedIdentity_write (hwell.identity i hi), hlast i hi,
        Option.map_some, if_pos (hstored.trans hi)]
      rfl
    · refine hplain ?_ (hstored.trans hnone)
      rw [hatom.parseResult, hresult]
      exact fun hiid => hkind ((isIid_write r).mp hiid)

/-! ## Runs -/

open ProcessingDb

/-- Workers do their work, and requeues cascade. -/
def OnlyWorkers (s : ProcessingDb) (a : Action) : Prop :=
  a.OperatesBy (fun n op => op.Cascades ∧ Reports n op) s

/-- **The columns of every row agree at all times.** -/
theorem always_of_isCoherent {Q : TrackedNode → Prop} (hQ : ∀ n, IsCoherent n → Q n)
    {actions : List Action} (hactions : Run.EachStep step OnlyWorkers {} actions) :
    Run.Always step (fun s => ∀ id n, s.nodes.lookup id = some n → Q n) {} actions :=
  always_rows isCoherent_new (fun _ _ _ hop hguard hn => hn.apply hop.1 hop.2 hguard) hQ hactions

/-- **What the API presents is what was found.** Whatever workers of whatever versions do, with
the reading of IIDs switched on or off, and whatever is requeued meanwhile: a row is marked as
that of an IID if and only if a parse has found one in its text, its IID is that of the last
one found, and this is what the API presents, in full while it is stored. -/
theorem identities_follow {actions : List Action}
    (hactions : Run.EachStep step OnlyWorkers {} actions) :
    Run.Always step (fun s => ∀ id n, s.nodes.lookup id = some n →
      (n.rawType = "iid" ↔ n.lastIdentity.isSome)
        ∧ (∀ i ∈ n.lastIdentity, n.iid = some i.canonical ∧ n.parseInput? = some i.raw)
        ∧ ∀ atom, IsReadOf atom n.toProcessedNode →
          (presentAtom atom).identity = presentedIdentity n) {} actions := by
  refine always_of_isCoherent (fun n hn => ?_) hactions
  exact ⟨hn.rawType, fun i hi => ⟨hn.iid i hi, (hn.found i hi).1⟩,
    fun atom hatom => hn.toIsMarked.resolveIdentity hatom⟩

/-- What a result of a parse that is stored is, for the next worker. -/
theorem IsMarked.parseResult (hn : IsMarked n) {p : CompactParseResult}
    (h : readParseResult (n.stage .parse).result = some p) :
    CompactIsWellFormed p ∧ ∀ i ∈ p.identity, n.storedIdentity = some i
      ∧ n.lastIdentity = some i := by
  cases hresult : (n.stage .parse).result with
  | none =>
    rw [hresult] at h
    cases h
  | some v =>
    obtain ⟨rawInput, r, rfl, -, -, hlast⟩ := hn.parsed v hresult
    have hread := h
    rw [hresult] at hread
    obtain ⟨rfl, hwell⟩ := readParseResult_write.mp hread
    refine ⟨hwell, fun i hi => ⟨?_, hlast i hi⟩⟩
    unfold ProcessedNode.storedIdentity
    rw [h, Option.bind_some]
    exact hi

/-- **What is classified is what is stored and presented.** At all times, a classification that
is complete is one of the parse that is stored, by whatever worker: its identity is the one that
the API presents in full, and what the API says of its class and source is what it says, as does
the worker of the next stage, which finds it as it is unless its document names a blank
source. -/
theorem classifications_follow {actions : List Action}
    (hactions : Run.EachStep step OnlyWorkers {} actions) :
    Run.Always step (fun s => ∀ id n, s.nodes.lookup id = some n →
      (n.stage .classification).status = .completed → ∃ r, IsClassified n.toProcessedNode r
        ∧ (∀ r', readClassificationResult (n.stage .classification).result = some r'
          ↔ r' = r ∧ NotBlank r.source)
        ∧ ∀ atom, IsReadOf atom n.toProcessedNode →
          (∀ i ∈ r.identity, (presentAtom atom).identity = some (.ofIdentity i))
            ∧ (presentAtom atom).classification
              = { type := resolveClassificationType r
                  status := some "completed"
                  source := if NotBlank r.source then some (trim r.source) else none })
      {} actions := by
  refine always_of_isCoherent (fun n hn hcompleted => ?_) hactions
  obtain ⟨r, hresult, hclassified, htype⟩ := hn.classified hcompleted
  have ⟨m, iidReadEnabled, runtime, hlawful, hclassify⟩ := hclassified
  refine ⟨r, hclassified, fun r' => ?_, fun atom hatom => ⟨fun i hi => ?_, ?_⟩⟩
  · rw [hresult]
    exact readClassificationResult_classify hlawful
      (fun p hp => (hn.toIsMarked.parseResult hp).1) hclassify
  · rw [(classifyNode_completed hclassify).1.identity] at hi
    obtain ⟨p, hp, hidentity⟩ := Option.bind_eq_some_iff.mp hi
    obtain ⟨-, hidentity⟩ := Option.ite_none_right_eq_some.mp hidentity
    obtain ⟨hstored, hlast⟩ := (hn.toIsMarked.parseResult hp).2 i hidentity
    have hpresented : (presentAtom atom).identity = presentedIdentity n :=
      hn.toIsMarked.resolveIdentity hatom
    rw [hpresented, presentedIdentity, hlast, Option.map_some, if_pos hstored]
  · have hsource : readField atom.classificationResult "source"
        = if NotBlank r.source then some (trim r.source) else none := by
      rw [hatom.classificationResult, hresult]
      show ((workerClassificationResult.write r).get? "source").bind readString = _
      rw [get?_workerClassificationResult]
      rfl
    unfold presentAtom
    rw [hsource, hatom.classificationType, hatom.classificationStatus, htype, hcompleted]
    rfl

end AtomWorkers
