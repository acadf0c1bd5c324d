import IntuitionCore.Surreal.Sink

/-!
# Deposits and redemptions in the graph

A deposit adds to what its sender has deposited, to what the position of its
receiver holds, and to what is deposited in its vault; a redemption takes from
them, and adds to what its sender has withdrawn. Both also draw an edge between
the account and the vault.

An event whose payload does not read as the record of its type is not given up:
the projections look for the fields they need in the payload itself.
-/

/-- The two projections that keep tallies in SurrealDB. -/
inductive SurrealProjection where
  | deposit
  | redeem
  deriving DecidableEq, Repr

section Flows

variable (fmt : SurrealFormats)

/-- A field of a payload, as a text. -/
def getStr (data : JsonObject) (field : String) : Except ProjectionError String :=
  Result.okOr (data.string? field) (.missingField field)

/-- Check that a text is a number. -/
def parseNumeric (raw field : String) : Except ProjectionError Unit :=
  if fmt.isJsonNumber raw then .ok ()
  else .error (.invalidEventData s!"{field} is not numeric: {raw}")

/-! ## Deposits -/

namespace DepositProjection

def buildDepositOpsInner (sender receiver termId curveId : String)
    (assetsAfterFees shares : SinkValue) (blockNumber : ℕ) (blockTimestamp : ℤ)
    (transactionHash : String) (logIndex : ℕ) : List SinkOperation :=
  let positionId := s!"{receiver}_{termId}"
  [.upsertNode ⟨"account", sender⟩ [("address", .string sender)],
    .incrementFields ⟨"account", sender⟩
      [("deposited", assetsAfterFees), ("net", assetsAfterFees)],
    .upsertEdge ⟨"account", receiver⟩ "deposit" ⟨"vault", termId⟩
      (some s!"{transactionHash}-{logIndex}")
      [("blockNumber", .number blockNumber), ("amount", assetsAfterFees),
        ("curveId", .string curveId), ("onchain", .bool true),
        ("updatedAt", datetimeValue fmt blockTimestamp)],
    .upsertNode ⟨"position", positionId⟩
      [("account", .string receiver), ("vault", .string termId)],
    .incrementFields ⟨"position", positionId⟩ [("amount", shares)],
    .incrementFields ⟨"vault", termId⟩ [("deposited", assetsAfterFees)]]

def buildDepositOps (metadata : EventMetadata) (data : DepositedRecord) : List SinkOperation :=
  buildDepositOpsInner fmt data.sender data.receiver data.termId (fmt.toString data.curveId)
    (decimalValue (fmt.toString data.assetsAfterFees)) (decimalValue (fmt.toString data.shares))
    metadata.blockNumber metadata.blockTimestamp metadata.transactionHash metadata.logIndex

def buildDepositOpsRaw (event : StoredEvent) (data : JsonObject) :
    Except ProjectionError (List SinkOperation) := do
  let sender ← getStr data "sender"
  let receiver ← getStr data "receiver"
  let termId ← getStr data "term_id"
  let curveId ← getStr data "curve_id"
  let assetsAfterFeesRaw ← getStr data "assets_after_fees"
  let sharesRaw ← getStr data "shares"
  parseNumeric fmt assetsAfterFeesRaw "assets_after_fees"
  parseNumeric fmt sharesRaw "shares"
  return buildDepositOpsInner fmt sender receiver termId curveId
    (decimalValue assetsAfterFeesRaw) (decimalValue sharesRaw) event.blockNumber
    event.blockTimestamp event.transactionHash event.logIndex

end DepositProjection

/-! ## Redemptions -/

namespace RedeemProjection

def buildRedeemOpsInner (sender termId curveId : String)
    (assets negAssets negShares : SinkValue) (blockNumber : ℕ) (blockTimestamp : ℤ)
    (transactionHash : String) (logIndex : ℕ) : List SinkOperation :=
  let positionId := s!"{sender}_{termId}"
  [.upsertNode ⟨"account", sender⟩ [("address", .string sender)],
    .incrementFields ⟨"account", sender⟩ [("withdrawn", assets), ("net", negAssets)],
    .upsertEdge ⟨"account", sender⟩ "withdraw" ⟨"vault", termId⟩
      (some s!"{transactionHash}-{logIndex}")
      [("blockNumber", .number blockNumber), ("amount", assets), ("curveId", .string curveId),
        ("onchain", .bool true), ("updatedAt", datetimeValue fmt blockTimestamp)],
    .upsertNode ⟨"position", positionId⟩ [("account", .string sender), ("vault", .string termId)],
    .incrementFields ⟨"position", positionId⟩ [("amount", negShares)],
    .incrementFields ⟨"vault", termId⟩ [("deposited", negAssets)]]

def buildRedeemOps (metadata : EventMetadata) (data : RedeemedRecord) : List SinkOperation :=
  let assetsStr := fmt.toString data.assets
  let sharesStr := fmt.toString data.shares
  buildRedeemOpsInner fmt data.sender data.termId (fmt.toString data.curveId)
    (decimalValue assetsStr) (negDecimalValue assetsStr) (negDecimalValue sharesStr)
    metadata.blockNumber metadata.blockTimestamp metadata.transactionHash metadata.logIndex

def buildRedeemOpsRaw (event : StoredEvent) (data : JsonObject) :
    Except ProjectionError (List SinkOperation) := do
  let sender ← getStr data "sender"
  let termId ← getStr data "term_id"
  let curveId ← getStr data "curve_id"
  let assetsRaw ← getStr data "assets"
  let sharesRaw ← getStr data "shares"
  parseNumeric fmt assetsRaw "assets"
  parseNumeric fmt sharesRaw "shares"
  return buildRedeemOpsInner fmt sender termId curveId (decimalValue assetsRaw)
    (negDecimalValue assetsRaw) (negDecimalValue sharesRaw) event.blockNumber
    event.blockTimestamp event.transactionHash event.logIndex

end RedeemProjection

/-! ## Projections -/

namespace SurrealProjection

def name : SurrealProjection → String
  | deposit => "deposit"
  | redeem => "redeem"

def eventTypes : SurrealProjection → List EventType
  | deposit => [.deposited]
  | redeem => [.redeemed]

/-- The names of the types a projection consumes. -/
def eventTypeStrs (p : SurrealProjection) : List String := p.eventTypes.map EventType.asStr

/-- The operations a projection makes of an event; the payload of an unknown
event is looked up. -/
def projectParsed (payload : StoredEvent → JsonObject) (p : SurrealProjection)
    (event : ParsedEvent) : Except ProjectionError (List SinkOperation) :=
  match p, event with
  | deposit, .deposited metadata data =>
    .ok (DepositProjection.buildDepositOps fmt metadata data)
  | deposit, .unknown raw =>
    if raw.eventType = "Deposited" then
      DepositProjection.buildDepositOpsRaw fmt raw (payload raw)
    else .ok []
  | redeem, .redeemed metadata data => .ok (RedeemProjection.buildRedeemOps fmt metadata data)
  | redeem, .unknown raw =>
    if raw.eventType = "Redeemed" then RedeemProjection.buildRedeemOpsRaw fmt raw (payload raw)
    else .ok []
  | _, _ => .ok []

/-- The operations of a stored event. An event that cannot be projected has
none. -/
def operations (payload : StoredEvent → JsonObject) (p : SurrealProjection) (e : StoredEvent) :
    List SinkOperation :=
  match p.projectParsed fmt payload (ParsedEvent.parseOrUnknown e) with
  | .ok ops => ops
  | .error _ => []

variable {fmt} {payload : StoredEvent → JsonObject} {p : SurrealProjection} {e : StoredEvent}

variable (fmt payload) in
/-- **What a projection makes operations of**: of an event of its type, six. -/
theorem operations_cases (p : SurrealProjection) (e : StoredEvent) :
    p.operations fmt payload e = []
      ∨ e.eventType ∈ p.eventTypeStrs
        ∧ ((∃ sender receiver termId curveId assets shares block ts tx log,
            p.operations fmt payload e = DepositProjection.buildDepositOpsInner fmt sender receiver
              termId curveId assets shares block ts tx log)
          ∨ ∃ sender termId curveId assets negAssets negShares block ts tx log,
            p.operations fmt payload e = RedeemProjection.buildRedeemOpsInner fmt sender termId
              curveId assets negAssets negShares block ts tx log) := by
  unfold operations
  cases hparse : ParsedEvent.parseOrUnknown e with
  | deposited metadata data =>
    cases p with
    | deposit =>
      have htype : (ParsedEvent.parseOrUnknown e).type? = some .deposited := by rw [hparse]; rfl
      exact .inr ⟨List.mem_singleton.mpr (ParsedEvent.eventType_of_type? htype),
        .inl ⟨_, _, _, _, _, _, _, _, _, _, rfl⟩⟩
    | redeem => exact .inl rfl
  | redeemed metadata data =>
    cases p with
    | deposit => exact .inl rfl
    | redeem =>
      have htype : (ParsedEvent.parseOrUnknown e).type? = some .redeemed := by rw [hparse]; rfl
      exact .inr ⟨List.mem_singleton.mpr (ParsedEvent.eventType_of_type? htype),
        .inr ⟨_, _, _, _, _, _, _, _, _, _, rfl⟩⟩
  | unknown raw =>
    -- an event that did not parse is read from its raw payload
    obtain rfl := ParsedEvent.eq_of_parseOrUnknown_unknown hparse
    cases p with
    | deposit =>
      by_cases htype : raw.eventType = "Deposited"
      · simp only [projectParsed, if_pos htype]
        cases hraw : DepositProjection.buildDepositOpsRaw fmt raw (payload raw) with
        | error err => exact .inl rfl
        | ok ops =>
          simp only [DepositProjection.buildDepositOpsRaw, Result.bind_eq_ok] at hraw
          obtain ⟨_, -, _, -, _, -, _, -, _, -, _, -, _, -, _, -, hops⟩ := hraw
          cases hops
          exact .inr ⟨List.mem_singleton.mpr htype, .inl ⟨_, _, _, _, _, _, _, _, _, _, rfl⟩⟩
      · simp only [projectParsed, if_neg htype]
        exact .inl trivial
    | redeem =>
      by_cases htype : raw.eventType = "Redeemed"
      · simp only [projectParsed, if_pos htype]
        cases hraw : RedeemProjection.buildRedeemOpsRaw fmt raw (payload raw) with
        | error err => exact .inl rfl
        | ok ops =>
          simp only [RedeemProjection.buildRedeemOpsRaw, Result.bind_eq_ok] at hraw
          obtain ⟨_, -, _, -, _, -, _, -, _, -, _, -, _, -, hops⟩ := hraw
          cases hops
          exact .inr ⟨List.mem_singleton.mpr htype, .inr ⟨_, _, _, _, _, _, _, _, _, _, rfl⟩⟩
      · simp only [projectParsed, if_neg htype]
        exact .inl trivial
  | _ => cases p <;> exact .inl rfl

end SurrealProjection

end Flows
