import IntuitionCore.Ingestion.Storage
import IntuitionCore.Library.Table

/-!
# What the handlers write

A handler turns each log of the contract into two rows: one for `event_store`,
whose payload is a JSON object, and one for the table of its type, whose
columns hold the same data. Words of the contract become texts on the way, and
256-bit integers become decimals in the typed columns.

The texts are made by other crates, and the database turns a `NUMERIC` column
back into a text. They are the fields of `Formats`; `Formats.Lawful` says that
addresses and words are told apart by their texts, and that a decimal comes
back as the text it was read from.
-/

/-! ## Payloads -/

/-- A JSON value, as payloads have them. -/
inductive JsonValue where
  | null
  | boolean (b : Bool)
  | number (n : ℤ)
  | string (s : String)
  | array (values : List JsonValue)

/-- A JSON object: the order of its keys is not part of it. -/
abbrev JsonObject := Table String JsonValue

/-- The object with some fields; of two with the same key, the later one stays. -/
def JsonObject.ofFields (fields : List (String × JsonValue)) : JsonObject :=
  fields.foldl (fun obj field => obj.insert field.1 field.2) ∅

abbrev Address := BitVec 160
abbrev Bytes32 := BitVec 256
abbrev Bytes := List UInt8

/-- The texts that other crates and the database make. -/
structure Formats extends Externals where
  /-- An address, as it is printed for debugging. -/
  debugAddress : Address → String
  /-- A word of 32 bytes, as it is printed for debugging. -/
  debugBytes32 : Bytes32 → String
  /-- Bytes in hexadecimal digits. -/
  hexEncode : Bytes → String
  /-- A 256-bit integer, as it is printed. -/
  u256ToString : U256 → String
  /-- A decimal, as a `NUMERIC` column that holds it is cast to text. -/
  numericText : BigDecimal → String
  /-- A JSON value that is not a string, as it is cast to text. -/
  jsonText : JsonValue → String

/-- Addresses and words are told by their texts, and a 256-bit integer is read
as a decimal that a column gives back as the same text. -/
structure Formats.Lawful (fmt : Formats) : Prop where
  debugAddress_injective : Function.Injective fmt.debugAddress
  debugBytes32_injective : Function.Injective fmt.debugBytes32
  numericText_parse : ∀ n : U256, ∃ d, fmt.parseDecimal (fmt.u256ToString n) = some d
    ∧ fmt.numericText d = fmt.u256ToString n

namespace JsonObject

/-- A field of an object as a text; a null is none. -/
def text (fmt : Formats) (obj : JsonObject) (key : String) : Option String :=
  match obj.lookup key with
  | none => none
  | some .null => none
  | some (.string s) => some s
  | some value => some (fmt.jsonText value)

/-- A field that reads as a string. -/
def string? (obj : JsonObject) (key : String) : Option String :=
  match obj.lookup key with
  | some (.string s) => some s
  | _ => none

/-- A field that reads as a decimal: a number, or the text of one. -/
def decimal? (ext : Externals) (obj : JsonObject) (key : String) : Option BigDecimal :=
  match obj.lookup key with
  | some (.string s) => ext.parseDecimal s
  | some (.number n) => some ⟨n, 0⟩
  | _ => none

/-- A field that reads as a 32-bit integer. -/
def int32? (obj : JsonObject) (key : String) : Option ℤ :=
  match obj.lookup key with
  | some (.number n) => if -2 ^ 31 ≤ n ∧ n < 2 ^ 31 then some n else none
  | _ => none

/-- A field that reads as a list of strings. -/
def strings? (obj : JsonObject) (key : String) : Option (List String) :=
  match obj.lookup key with
  | some (.array values) => values.mapM fun
    | .string s => some s
    | _ => none
  | _ => none

variable (ext : Externals) (obj : JsonObject)

/-- What a payload reads as, at each record. -/
def toEventData : EventData where
  atomCreated := do
    return ⟨← obj.string? "creator", ← obj.string? "term_id", ← obj.string? "atom_data",
      ← obj.string? "atom_wallet"⟩
  atomContextRegistered := do
    return ⟨← obj.string? "registrant", ← obj.string? "term_id", ← obj.strings? "uris"⟩
  tripleCreated := do
    return ⟨← obj.string? "creator", ← obj.string? "term_id", ← obj.string? "subject_id",
      ← obj.string? "predicate_id", ← obj.string? "object_id"⟩
  deposited := do
    return ⟨← obj.string? "sender", ← obj.string? "receiver", ← obj.string? "term_id",
      ← obj.decimal? ext "curve_id", ← obj.decimal? ext "assets",
      ← obj.decimal? ext "assets_after_fees", ← obj.decimal? ext "shares",
      ← obj.decimal? ext "total_shares", ← obj.int32? "vault_type"⟩
  redeemed := do
    return ⟨← obj.string? "sender", ← obj.string? "receiver", ← obj.string? "term_id",
      ← obj.decimal? ext "curve_id", ← obj.decimal? ext "shares",
      ← obj.decimal? ext "total_shares", ← obj.decimal? ext "assets", ← obj.decimal? ext "fees",
      ← obj.int32? "vault_type"⟩
  sharePriceChanged := do
    return ⟨← obj.string? "term_id", ← obj.decimal? ext "curve_id",
      ← obj.decimal? ext "share_price", ← obj.decimal? ext "total_assets",
      ← obj.decimal? ext "total_shares", ← obj.int32? "vault_type"⟩
  protocolFeeAccrued := do
    return ⟨← obj.decimal? ext "epoch", ← obj.string? "sender", ← obj.decimal? ext "amount"⟩

end JsonObject

/-! ## Logs of the contract -/

/-- What a log says of its transaction. -/
structure TxInformation where
  blockNumber : ℕ
  blockTimestamp : Option ℤ
  blockHash : Bytes32
  transactionHash : Bytes32
  logIndex : ℕ

structure AtomCreated where
  creator : Address
  termId : Bytes32
  atomData : Bytes
  atomWallet : Address

structure AtomContextRegistered where
  registrant : Address
  termId : Bytes32
  uris : List Bytes

structure TripleCreated where
  creator : Address
  termId : Bytes32
  subjectId : Bytes32
  predicateId : Bytes32
  objectId : Bytes32

structure Deposited where
  sender : Address
  receiver : Address
  termId : Bytes32
  curveId : U256
  assets : U256
  assetsAfterFees : U256
  shares : U256
  totalShares : U256
  vaultType : UInt8

structure Redeemed where
  sender : Address
  receiver : Address
  termId : Bytes32
  curveId : U256
  shares : U256
  totalShares : U256
  assets : U256
  fees : U256
  vaultType : UInt8

structure SharePriceChanged where
  termId : Bytes32
  curveId : U256
  sharePrice : U256
  totalAssets : U256
  totalShares : U256
  vaultType : UInt8

structure ProtocolFeeAccrued where
  epoch : U256
  sender : Address
  amount : U256

/-- A decoded log of the contract. -/
inductive MultiVaultEvent where
  | atomCreated (event : AtomCreated)
  | atomContextRegistered (event : AtomContextRegistered)
  | tripleCreated (event : TripleCreated)
  | deposited (event : Deposited)
  | redeemed (event : Redeemed)
  | sharePriceChanged (event : SharePriceChanged)
  | protocolFeeAccrued (event : ProtocolFeeAccrued)

/-- The type of a log. -/
def MultiVaultEvent.type : MultiVaultEvent → EventType
  | atomCreated _ => .atomCreated
  | atomContextRegistered _ => .atomContextRegistered
  | tripleCreated _ => .tripleCreated
  | deposited _ => .deposited
  | redeemed _ => .redeemed
  | sharePriceChanged _ => .sharePriceChanged
  | protocolFeeAccrued _ => .protocolFeeAccrued

/-! ## Rows -/

/-- The columns that every row of a log has. -/
structure LogHeader where
  blockNumber : ℕ
  blockTimestamp : ℤ
  blockHash : String
  transactionHash : String
  logIndex : ℕ
  deriving DecidableEq, Repr

/-- A row for `event_store`. -/
structure LogRecord extends LogHeader where
  eventType : String
  eventData : JsonObject

structure AtomCreatedTyped extends LogHeader where
  creator : String
  termId : BigDecimal
  termIdHex : String
  atomData : String
  atomWallet : String

structure AtomContextRegisteredTyped extends LogHeader where
  registrant : String
  termId : BigDecimal
  termIdHex : String
  uris : JsonValue

structure TripleCreatedTyped extends LogHeader where
  creator : String
  termId : BigDecimal
  termIdHex : String
  subjectId : BigDecimal
  subjectIdHex : String
  predicateId : BigDecimal
  predicateIdHex : String
  objectId : BigDecimal
  objectIdHex : String

structure DepositedTyped extends LogHeader where
  sender : String
  receiver : String
  termId : BigDecimal
  termIdHex : String
  curveId : BigDecimal
  assets : BigDecimal
  assetsAfterFees : BigDecimal
  shares : BigDecimal
  totalShares : BigDecimal
  vaultType : ℤ

structure RedeemedTyped extends LogHeader where
  sender : String
  receiver : String
  termId : BigDecimal
  termIdHex : String
  curveId : BigDecimal
  shares : BigDecimal
  totalShares : BigDecimal
  assets : BigDecimal
  fees : BigDecimal
  vaultType : ℤ

structure SharePriceChangedTyped extends LogHeader where
  termId : BigDecimal
  termIdHex : String
  curveId : BigDecimal
  sharePrice : BigDecimal
  totalAssets : BigDecimal
  totalShares : BigDecimal
  vaultType : ℤ

structure ProtocolFeeAccruedTyped extends LogHeader where
  epoch : BigDecimal
  sender : String
  amount : BigDecimal

/-- A row for the table of a type. -/
inductive TypedEvent where
  | atomCreated (row : AtomCreatedTyped)
  | atomContextRegistered (row : AtomContextRegisteredTyped)
  | tripleCreated (row : TripleCreatedTyped)
  | deposited (row : DepositedTyped)
  | redeemed (row : RedeemedTyped)
  | sharePriceChanged (row : SharePriceChangedTyped)
  | protocolFeeAccrued (row : ProtocolFeeAccruedTyped)

namespace TypedEvent

/-- The type whose table a row is for. -/
def type : TypedEvent → EventType
  | atomCreated _ => .atomCreated
  | atomContextRegistered _ => .atomContextRegistered
  | tripleCreated _ => .tripleCreated
  | deposited _ => .deposited
  | redeemed _ => .redeemed
  | sharePriceChanged _ => .sharePriceChanged
  | protocolFeeAccrued _ => .protocolFeeAccrued

/-- The columns that a row has in common with those of the other types. -/
def header : TypedEvent → LogHeader
  | atomCreated row => row.toLogHeader
  | atomContextRegistered row => row.toLogHeader
  | tripleCreated row => row.toLogHeader
  | deposited row => row.toLogHeader
  | redeemed row => row.toLogHeader
  | sharePriceChanged row => row.toLogHeader
  | protocolFeeAccrued row => row.toLogHeader

end TypedEvent

/-! ## Handlers -/

/-- The time of a log's block, or the time it is now. -/
def timestampToDatetime (tx : TxInformation) (now : ℤ) : ℤ :=
  match tx.blockTimestamp with
  | some timestamp => timestamp
  | none => now

section Handlers

variable (fmt : Formats)

/-- A decimal from the text of an integer; a handler panics without one. -/
def toBd (s : String) : Option BigDecimal := fmt.parseDecimal s

/-- A decimal from a word of 32 bytes, read as an integer. -/
def b256ToBd (b : Bytes32) : Option BigDecimal := toBd fmt (fmt.u256ToString b)

/-- Bytes are encoded as they are. -/
def opaqueBytesToHex (bytes : Bytes) : String := "0x" ++ fmt.hexEncode bytes

/-- What a row takes from the transaction of its log. -/
def TxInformation.header (tx : TxInformation) (now : ℤ) : LogHeader where
  blockNumber := tx.blockNumber
  blockTimestamp := timestampToDatetime tx now
  blockHash := fmt.debugBytes32 tx.blockHash
  transactionHash := fmt.debugBytes32 tx.transactionHash
  logIndex := tx.logIndex

def AtomCreated.eventData (event : AtomCreated) : JsonObject :=
  .ofFields
    [("creator", .string (fmt.debugAddress event.creator)),
      ("term_id", .string (fmt.debugBytes32 event.termId)),
      ("atom_data", .string ("0x" ++ fmt.hexEncode event.atomData)),
      ("atom_wallet", .string (fmt.debugAddress event.atomWallet))]

def AtomCreated.typed (header : LogHeader) (event : AtomCreated) : Option AtomCreatedTyped := do
  return { header with
    creator := fmt.debugAddress event.creator
    termId := ← b256ToBd fmt event.termId
    termIdHex := fmt.debugBytes32 event.termId
    atomData := "0x" ++ fmt.hexEncode event.atomData
    atomWallet := fmt.debugAddress event.atomWallet }

/-- The URIs of an atom, in the order of the contract. -/
def AtomContextRegistered.uriTexts (event : AtomContextRegistered) : JsonValue :=
  .array (event.uris.map fun uri => .string (opaqueBytesToHex fmt uri))

def AtomContextRegistered.eventData (event : AtomContextRegistered) : JsonObject :=
  .ofFields
    [("term_id", .string (fmt.debugBytes32 event.termId)),
      ("registrant", .string (fmt.debugAddress event.registrant)),
      ("uris", event.uriTexts fmt)]

def AtomContextRegistered.typed (header : LogHeader) (event : AtomContextRegistered) :
    Option AtomContextRegisteredTyped := do
  return { header with
    registrant := fmt.debugAddress event.registrant
    termId := ← b256ToBd fmt event.termId
    termIdHex := fmt.debugBytes32 event.termId
    uris := event.uriTexts fmt }

def TripleCreated.eventData (event : TripleCreated) : JsonObject :=
  .ofFields
    [("creator", .string (fmt.debugAddress event.creator)),
      ("term_id", .string (fmt.debugBytes32 event.termId)),
      ("subject_id", .string (fmt.debugBytes32 event.subjectId)),
      ("predicate_id", .string (fmt.debugBytes32 event.predicateId)),
      ("object_id", .string (fmt.debugBytes32 event.objectId))]

def TripleCreated.typed (header : LogHeader) (event : TripleCreated) :
    Option TripleCreatedTyped := do
  return { header with
    creator := fmt.debugAddress event.creator
    termId := ← b256ToBd fmt event.termId
    termIdHex := fmt.debugBytes32 event.termId
    subjectId := ← b256ToBd fmt event.subjectId
    subjectIdHex := fmt.debugBytes32 event.subjectId
    predicateId := ← b256ToBd fmt event.predicateId
    predicateIdHex := fmt.debugBytes32 event.predicateId
    objectId := ← b256ToBd fmt event.objectId
    objectIdHex := fmt.debugBytes32 event.objectId }

def Deposited.eventData (event : Deposited) : JsonObject :=
  .ofFields
    [("sender", .string (fmt.debugAddress event.sender)),
      ("receiver", .string (fmt.debugAddress event.receiver)),
      ("term_id", .string (fmt.debugBytes32 event.termId)),
      ("curve_id", .string (fmt.u256ToString event.curveId)),
      ("assets", .string (fmt.u256ToString event.assets)),
      ("assets_after_fees", .string (fmt.u256ToString event.assetsAfterFees)),
      ("shares", .string (fmt.u256ToString event.shares)),
      ("total_shares", .string (fmt.u256ToString event.totalShares)),
      ("vault_type", .number event.vaultType.toNat)]

def Deposited.typed (header : LogHeader) (event : Deposited) : Option DepositedTyped := do
  return { header with
    sender := fmt.debugAddress event.sender
    receiver := fmt.debugAddress event.receiver
    termId := ← b256ToBd fmt event.termId
    termIdHex := fmt.debugBytes32 event.termId
    curveId := ← toBd fmt (fmt.u256ToString event.curveId)
    assets := ← toBd fmt (fmt.u256ToString event.assets)
    assetsAfterFees := ← toBd fmt (fmt.u256ToString event.assetsAfterFees)
    shares := ← toBd fmt (fmt.u256ToString event.shares)
    totalShares := ← toBd fmt (fmt.u256ToString event.totalShares)
    vaultType := event.vaultType.toNat }

def Redeemed.eventData (event : Redeemed) : JsonObject :=
  .ofFields
    [("sender", .string (fmt.debugAddress event.sender)),
      ("receiver", .string (fmt.debugAddress event.receiver)),
      ("term_id", .string (fmt.debugBytes32 event.termId)),
      ("curve_id", .string (fmt.u256ToString event.curveId)),
      ("shares", .string (fmt.u256ToString event.shares)),
      ("total_shares", .string (fmt.u256ToString event.totalShares)),
      ("assets", .string (fmt.u256ToString event.assets)),
      ("fees", .string (fmt.u256ToString event.fees)),
      ("vault_type", .number event.vaultType.toNat)]

def Redeemed.typed (header : LogHeader) (event : Redeemed) : Option RedeemedTyped := do
  return { header with
    sender := fmt.debugAddress event.sender
    receiver := fmt.debugAddress event.receiver
    termId := ← b256ToBd fmt event.termId
    termIdHex := fmt.debugBytes32 event.termId
    curveId := ← toBd fmt (fmt.u256ToString event.curveId)
    shares := ← toBd fmt (fmt.u256ToString event.shares)
    totalShares := ← toBd fmt (fmt.u256ToString event.totalShares)
    assets := ← toBd fmt (fmt.u256ToString event.assets)
    fees := ← toBd fmt (fmt.u256ToString event.fees)
    vaultType := event.vaultType.toNat }

def SharePriceChanged.eventData (event : SharePriceChanged) : JsonObject :=
  .ofFields
    [("term_id", .string (fmt.debugBytes32 event.termId)),
      ("curve_id", .string (fmt.u256ToString event.curveId)),
      ("share_price", .string (fmt.u256ToString event.sharePrice)),
      ("total_assets", .string (fmt.u256ToString event.totalAssets)),
      ("total_shares", .string (fmt.u256ToString event.totalShares)),
      ("vault_type", .number event.vaultType.toNat)]

def SharePriceChanged.typed (header : LogHeader) (event : SharePriceChanged) :
    Option SharePriceChangedTyped := do
  return { header with
    termId := ← b256ToBd fmt event.termId
    termIdHex := fmt.debugBytes32 event.termId
    curveId := ← toBd fmt (fmt.u256ToString event.curveId)
    sharePrice := ← toBd fmt (fmt.u256ToString event.sharePrice)
    totalAssets := ← toBd fmt (fmt.u256ToString event.totalAssets)
    totalShares := ← toBd fmt (fmt.u256ToString event.totalShares)
    vaultType := event.vaultType.toNat }

def ProtocolFeeAccrued.eventData (event : ProtocolFeeAccrued) : JsonObject :=
  .ofFields
    [("epoch", .string (fmt.u256ToString event.epoch)),
      ("sender", .string (fmt.debugAddress event.sender)),
      ("amount", .string (fmt.u256ToString event.amount))]

def ProtocolFeeAccrued.typed (header : LogHeader) (event : ProtocolFeeAccrued) :
    Option ProtocolFeeAccruedTyped := do
  return { header with
    epoch := ← toBd fmt (fmt.u256ToString event.epoch)
    sender := fmt.debugAddress event.sender
    amount := ← toBd fmt (fmt.u256ToString event.amount) }

namespace MultiVaultEvent

/-- The payload of a log. -/
def eventData : MultiVaultEvent → JsonObject
  | atomCreated event => event.eventData fmt
  | atomContextRegistered event => event.eventData fmt
  | tripleCreated event => event.eventData fmt
  | deposited event => event.eventData fmt
  | redeemed event => event.eventData fmt
  | sharePriceChanged event => event.eventData fmt
  | protocolFeeAccrued event => event.eventData fmt

/-- The row of a log for `event_store`. -/
def record (header : LogHeader) (event : MultiVaultEvent) : LogRecord :=
  { header with eventType := event.type.asStr, eventData := event.eventData fmt }

/-- The row of a log for the table of its type. -/
def typed (header : LogHeader) : MultiVaultEvent → Option TypedEvent
  | atomCreated event => (event.typed fmt header).map .atomCreated
  | atomContextRegistered event => (event.typed fmt header).map .atomContextRegistered
  | tripleCreated event => (event.typed fmt header).map .tripleCreated
  | deposited event => (event.typed fmt header).map .deposited
  | redeemed event => (event.typed fmt header).map .redeemed
  | sharePriceChanged event => (event.typed fmt header).map .sharePriceChanged
  | protocolFeeAccrued event => (event.typed fmt header).map .protocolFeeAccrued

end MultiVaultEvent

end Handlers

/-! ## Formats that print in digits -/

namespace Formats

/-- A number in a fixed number of hexadecimal digits. -/
def hexDigits : ℕ → ℕ → List Char
  | 0, _ => []
  | width + 1, n => hexDigits width (n / 16) ++ [Nat.digitChar (n % 16)]

/-- Numbers that fit are told apart by their digits. -/
theorem hexDigits_inj {width a b : ℕ} (ha : a < 16 ^ width) (hb : b < 16 ^ width)
    (h : hexDigits width a = hexDigits width b) : a = b := by
  induction width generalizing a b with
  | zero => omega
  | succ width ih =>
    obtain ⟨hinit, hlast⟩ := List.append_inj' h rfl
    have hdiv : a / 16 = b / 16 := by
      refine ih ?_ ?_ hinit <;> rw [Nat.div_lt_iff_lt_mul (by decide)] <;> rwa [← Nat.pow_succ]
    have hmod : a % 16 = b % 16 := by
      have hchar : ∀ c < 16, ∀ d < 16, Nat.digitChar c = Nat.digitChar d → c = d := by decide
      exact hchar _ (Nat.mod_lt _ (by decide)) _ (Nat.mod_lt _ (by decide))
        (List.singleton_inj.mp hlast)
    rw [← Nat.div_add_mod a 16, hdiv, hmod, Nat.div_add_mod]

/-- Words are printed in hexadecimal digits, integers in decimal ones. -/
def exact : Formats where
  toExternals := .exact
  debugAddress a := "0x" ++ .ofList (hexDigits 40 a.toNat)
  debugBytes32 b := "0x" ++ .ofList (hexDigits 64 b.toNat)
  hexEncode bytes := .ofList (bytes.flatMap fun byte => hexDigits 2 byte.toNat)
  u256ToString n := .ofList (Nat.toDigits 10 n.toNat)
  numericText d := .ofList (Externals.print d)
  jsonText
    | .number n => .ofList (Externals.printInt n)
    | _ => ""

/-- Words that fit a width are told apart by their texts. -/
theorem debug_injective {bits width : ℕ} (h : 2 ^ bits ≤ 16 ^ width) :
    Function.Injective fun a : BitVec bits => "0x" ++ String.ofList (hexDigits width a.toNat) := by
  intro a b hab
  have hdigits : hexDigits width a.toNat = hexDigits width b.toNat :=
    String.ofList_injective (String.append_right_inj _ |>.mp hab)
  exact BitVec.eq_of_toNat_eq
    (hexDigits_inj (a.isLt.trans_le h) (b.isLt.trans_le h) hdigits)

theorem exact_lawful : exact.Lawful where
  debugAddress_injective := debug_injective (by decide)
  debugBytes32_injective := debug_injective (by decide)
  numericText_parse n := by
    have hprint : Nat.toDigits 10 n.toNat = Externals.print ⟨n.toNat, 0⟩ := rfl
    refine ⟨⟨n.toNat, 0⟩, congrArg some ?_, rfl⟩
    show Externals.read (String.toList (.ofList _)) = _
    rw [String.toList_ofList, hprint, Externals.read_print]

end Formats
