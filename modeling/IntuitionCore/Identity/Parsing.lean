import IntuitionCore.Identity.Contract
import Mathlib.Algebra.BigOperators.Group.List.Basic

/-!
# What a parse leaves

The worker of the first stage parses the text of an atom. Where it may read IIDs, it has the
text inspected first: one that is an IID is stored with its identity and as such, and the
parser is not asked. Any other text goes to the parser, and if it was inspected, why it was
no IID is stored along with what the parser found.

The inspection and the parser are packages of their own, so they are arbitrary here: a parser
may find different things in a text at different times. What it finds is stored in a compact
form, from which the next worker goes on.
-/

/-! ## What is parsed -/

namespace AtomParsing

open IdentityContract

/-- The texts of the kinds that have fields of their own, and of that of IIDs. -/
def namedKinds : List String :=
  ["url", "ipfs", "ethereum_address", "ens_name", "isbn", "json", "plain_string", "iid"]

/-- The text of another kind. -/
abbrev OtherKind := { kind : String // kind ∉ namedKinds ∧ NotBlank kind }

/-- The kind of what is stored. -/
inductive ParseKind where
  | url
  | ipfs
  | ethereumAddress
  | ensName
  | isbn
  | json
  | plainString
  | iid
  | other (kind : OtherKind)
  deriving DecidableEq

/-- What was fetched from where a text refers to. -/
structure RemoteDocument where
  finalUrl : Option String := none
  contentType : Option String := none
  subtype : Option String := none
  deriving DecidableEq, Repr

structure UrlCandidate where
  url : String
  field : Option String := none
  deriving DecidableEq, Repr

/-- A JSON document that was found. -/
structure StructuredDocument where
  source : String
  format : String
  topLevelType : String
  context : Option KgJson := none
  schemaType : Option String := none
  urlCandidates : List UrlCandidate := []
  data : Option KgJson := none

/-- What the parser finds. -/
inductive ParseResult where
  | url (normalizedInput canonicalUrl host path scheme : String) (remote : Option RemoteDocument)
      (structuredDocument : Option StructuredDocument)
  | ipfs (normalizedInput canonicalUri cid gatewayUrl : String) (path : Option String)
      (remote : Option RemoteDocument) (structuredDocument : Option StructuredDocument)
  | ethereumAddress (normalizedInput checksumAddress address : String)
  | ensName (normalizedInput name : String)
  | isbn (normalizedInput canonical format : String) (checksumValid : Bool)
  | json (normalizedInput topLevelType : String) (objectKeyCount arrayLength : Option ℕ)
      (structuredDocument : Option StructuredDocument)
  | plainString (normalizedInput trimmed : String)
  | other (kind : OtherKind) (normalizedInput : String)

/-- Why a text is no IID. -/
inductive IidFallbackReason where
  | malformed
  | unknownScheme
  | noncanonical
  deriving DecidableEq, Repr

structure IidFallback where
  reason : IidFallbackReason
  provenance : SemanticContractProvenance
  deriving DecidableEq, Repr

/-- The form in which the result of a parse is stored. -/
structure CompactParseResult where
  kind : ParseKind
  normalizedInput : String
  canonicalId : Option String := none
  identity : Option NormalizedAtomIdentity := none
  iidFallback : Option IidFallback := none
  remote : Option RemoteDocument := none
  structuredDocument : Option StructuredDocument := none
  identifiers : Option KgJson := none
  hints : Option KgJson := none

/-- A number that may be missing. -/
def optionalNumber (n : Option ℕ) : Option KgJson := n.map fun n => .number n

def toCompactParseResult : ParseResult → CompactParseResult
  | .url normalizedInput canonicalUrl host path scheme remote structuredDocument =>
    { kind := .url, normalizedInput, canonicalId := some canonicalUrl, remote, structuredDocument
      hints := some (object [("host", text.required.write host), ("path", text.required.write path),
        ("scheme", text.required.write scheme)]) }
  | .ipfs normalizedInput canonicalUri cid gatewayUrl path remote structuredDocument =>
    { kind := .ipfs, normalizedInput, canonicalId := some canonicalUri, remote, structuredDocument
      identifiers := some (object [("cid", text.required.write cid),
        ("path", text.optional.write (truthy path))])
      hints := some (object [("gatewayUrl", text.required.write gatewayUrl)]) }
  | .ethereumAddress normalizedInput checksumAddress address =>
    { kind := .ethereumAddress, normalizedInput, canonicalId := some checksumAddress
      identifiers := some (object [("address", text.required.write address),
        ("checksumAddress", text.required.write checksumAddress)]) }
  | .ensName normalizedInput name =>
    { kind := .ensName, normalizedInput, canonicalId := some name
      identifiers := some (object [("name", text.required.write name)]) }
  | .isbn normalizedInput canonical format checksumValid =>
    { kind := .isbn, normalizedInput, canonicalId := some canonical
      identifiers := some (object [("isbn", text.required.write canonical),
        ("format", text.required.write format)])
      hints := some (object [("checksumValid", boolean.required.write checksumValid)]) }
  | .json normalizedInput topLevelType objectKeyCount arrayLength structuredDocument =>
    { kind := .json, normalizedInput, structuredDocument
      hints := some (object [("topLevelType", text.required.write topLevelType),
        ("objectKeyCount", optionalNumber objectKeyCount),
        ("arrayLength", optionalNumber arrayLength)]) }
  | .plainString normalizedInput trimmed =>
    { kind := .plainString, normalizedInput, canonicalId := some normalizedInput
      hints := some (object [("trimmed", text.required.write trimmed)]) }
  | .other kind normalizedInput =>
    { kind := .other kind, normalizedInput, canonicalId := some normalizedInput }

/-! ## The inspection of IIDs -/

/-- What the inspection finds in an IID. -/
structure InspectedIid where
  iid : String
  scheme : String
  value : String
  identityClass : IdentityClass
  typing : SchemeTyping
  anchorEligible : Bool
  anchorIneligibilityReason : Option AnchorIneligibilityReason := none
  deriving DecidableEq, Repr

structure IidInspectionAdapter where
  inspect : String → Except IidFallbackReason InspectedIid
  provenance : SemanticContractProvenance

structure IidParseOutcome where
  result : CompactParseResult
  fallbackReason : Option IidFallbackReason := none

/-- The identity of a text that is an IID. -/
def InspectedIid.toIdentity (inspection : InspectedIid) (rawInput : String)
    (provenance : SemanticContractProvenance) : NormalizedAtomIdentity where
  raw := rawInput
  canonical := inspection.iid
  scheme := inspection.scheme
  value := inspection.value
  identityClass := inspection.identityClass
  typing := inspection.typing
  anchorEligible := inspection.anchorEligible
  anchorIneligibilityReason := inspection.anchorIneligibilityReason
  provenance := provenance

def readEnabledMessage : String :=
  "WORKERS_IID_READ_ENABLED requires an @0xintuition/iid inspection adapter."

/-- What is found in a text, if the parser finds something in it when it is asked. -/
def parseAtomWithIidRead (rawInput : String) (iidReadEnabled : Bool)
    (adapter : Option IidInspectionAdapter) (parseLegacy : ParseResult) :
    Except String IidParseOutcome :=
  if iidReadEnabled = false then return { result := toCompactParseResult parseLegacy }
  else
    match adapter with
    | none => throw readEnabledMessage
    | some adapter =>
      match adapter.inspect rawInput with
      | .error reason =>
        return {
          result := { toCompactParseResult parseLegacy with
            iidFallback := some { reason, provenance := adapter.provenance } }
          fallbackReason := some reason }
      | .ok inspection =>
        return {
          result := {
            kind := .iid
            normalizedInput := inspection.iid
            canonicalId := inspection.iid
            identity := inspection.toIdentity rawInput adapter.provenance } }

/-! ## What is searched for -/

/-- The first code units of a text. Of a pair of surrogates that is cut in two, the first is
stored as a replacement character. -/
def sliceUnits : ℕ → List Char → List Char
  | 0, _ => []
  | _, [] => []
  | n + 1, c :: cs =>
    if c.toNat < 0x10000 then c :: sliceUnits n cs
    else
      match n with
      | 0 => [Char.ofNat 0xFFFD]
      | n + 1 => c :: sliceUnits n cs

/-- A text without the spaces around it. -/
def trim (s : String) : String := String.ofList (jsTrim s)

/-- The text of a value, or the first of its texts, that is not blank. -/
def resolveDisplayString : Option KgJson → Option String
  | some (.string s) => if NotBlank s then some (trim s) else none
  | some (.array values) =>
    ((values.filterMap KgJson.string?).find? fun s => NotBlank s).map trim
  | _ => none

theorem jsLength_sliceUnits (n : ℕ) (cs : List Char) :
    jsLength (String.ofList (sliceUnits n cs)) ≤ n := by
  have hcons : ∀ (c : Char) (cs : List Char), jsLength (String.ofList (c :: cs))
      = (if c.toNat < 0x10000 then 1 else 2) + jsLength (String.ofList cs) := by
    intro c cs
    simp [jsLength]
  fun_induction sliceUnits n cs with
  | case1 => exact Nat.zero_le 0
  | case2 => exact Nat.zero_le _
  | case3 n c cs h ih =>
    rw [hcons, if_pos h]
    omega
  | case4 c cs h => decide
  | case5 c cs h n ih =>
    rw [hcons, if_neg h]
    omega

def searchTextLimit : ℕ := 20000

/-- The texts that a node is found by; an IID is not found by its text. -/
def resolveParseSearchText (result : CompactParseResult) : String :=
  if result.kind = .iid then ""
  else
    let data := result.structuredDocument.bind (·.data)
    let name := resolveDisplayString (data.bind (KgJson.get? "name"))
    let description := resolveDisplayString (data.bind (KgJson.get? "description"))
    let identityCandidates :=
      if result.kind = .json then [] else [result.canonicalId, some result.normalizedInput]
    let texts := ([name, description] ++ identityCandidates).filterMap
      (Option.filter fun s => NotBlank s)
    String.ofList (sliceUnits searchTextLimit (" ".intercalate texts.eraseDups).toList)

/-- **A search text is short enough.** -/
theorem jsLength_resolveParseSearchText (result : CompactParseResult) :
    jsLength (resolveParseSearchText result) ≤ searchTextLimit := by
  unfold resolveParseSearchText
  split
  · exact Nat.zero_le _
  · exact jsLength_sliceUnits searchTextLimit _

/-- What is set of a node when its parse completes. -/
def promotedFields (compact : CompactParseResult) : NodeProcessingPromotedFields where
  searchText := some (resolveParseSearchText compact)
  rawType := compact.identity.map fun _ => "iid"
  iid := compact.identity.map (·.canonical)
  dataResolved := compact.structuredDocument.bind (·.data)

/-! ## What is stored -/

def kindStr : ParseKind → String
  | .url => "url"
  | .ipfs => "ipfs"
  | .ethereumAddress => "ethereum_address"
  | .ensName => "ens_name"
  | .isbn => "isbn"
  | .json => "json"
  | .plainString => "plain_string"
  | .iid => "iid"
  | .other kind => kind.1

def kinds : List (String × ParseKind) :=
  [("url", .url), ("ipfs", .ipfs), ("ethereum_address", .ethereumAddress), ("ens_name", .ensName),
    ("isbn", .isbn), ("json", .json), ("plain_string", .plainString), ("iid", .iid)]

/-- The kind of a text. -/
def kindOf (s : String) : Option ParseKind :=
  if h : s ∉ namedKinds ∧ NotBlank s then some (.other ⟨s, h⟩) else kinds.lookup s

theorem kindOf_kindStr (k : ParseKind) : kindOf (kindStr k) = some k := by
  cases k with
  | other kind => exact dif_pos kind.2
  | _ => rfl

theorem notBlank_kindStr (k : ParseKind) : NotBlank (kindStr k) := by
  cases k with
  | other kind => exact kind.2.2
  | _ => decide

def kind : Codec KgJson ParseKind := text.comp ⟨kindStr, kindOf, kindOf_kindStr⟩

def reasonStr : IidFallbackReason → String
  | .malformed => "malformed"
  | .unknownScheme => "unknown-scheme"
  | .noncanonical => "noncanonical"

def fallbackReasons : List (String × IidFallbackReason) :=
  [("malformed", .malformed), ("unknown-scheme", .unknownScheme), ("noncanonical", .noncanonical)]

theorem lookup_fallbackReasons (r : IidFallbackReason) :
    fallbackReasons.lookup (reasonStr r) = some r := by
  cases r <;> rfl

def fallbackReason : Codec KgJson IidFallbackReason :=
  oneOf reasonStr fallbackReasons lookup_fallbackReasons

def iidFallback : Codec KgJson IidFallback where
  write f := object [("reason", fallbackReason.required.write f.reason),
    ("provenance", provenance.required.write f.provenance)]
  read v := do
    let reason ← fallbackReason.required.read (v.get? "reason")
    let provenance ← provenance.required.read (v.get? "provenance")
    return { reason, provenance }
  read_write f := by simp [get?_object, List.lookup_cons]

def remoteDocument : Codec KgJson RemoteDocument where
  write r := object [("finalUrl", text.optional.write r.finalUrl),
    ("contentType", text.optional.write r.contentType),
    ("subtype", text.optional.write r.subtype)]
  read v := do
    let finalUrl ← text.optional.read (v.get? "finalUrl")
    let contentType ← text.optional.read (v.get? "contentType")
    let subtype ← text.optional.read (v.get? "subtype")
    return { finalUrl, contentType, subtype }
  read_write r := by simp [get?_object, List.lookup_cons]

def urlCandidate : Codec KgJson UrlCandidate where
  write c := object [("url", text.required.write c.url), ("field", text.optional.write c.field)]
  read v := do
    let url ← text.required.read (v.get? "url")
    let field ← text.optional.read (v.get? "field")
    return { url, field }
  read_write c := by simp [get?_object, List.lookup_cons]

/-- A value of any type. -/
def unknown : Codec KgJson KgJson where
  write v := v
  read v := some v
  read_write _ := rfl

def structuredDocument : Codec KgJson StructuredDocument where
  write d := object [("source", text.required.write d.source),
    ("format", text.required.write d.format), ("topLevelType", text.required.write d.topLevelType),
    ("context", unknown.optional.write d.context),
    ("schemaType", text.optional.write d.schemaType),
    ("urlCandidates", (array urlCandidate).required.write d.urlCandidates),
    ("data", unknown.optional.write d.data)]
  read v := do
    let source ← text.required.read (v.get? "source")
    let format ← text.required.read (v.get? "format")
    let topLevelType ← text.required.read (v.get? "topLevelType")
    let context ← unknown.optional.read (v.get? "context")
    let schemaType ← text.optional.read (v.get? "schemaType")
    let urlCandidates ← (array urlCandidate).required.read (v.get? "urlCandidates")
    let data ← unknown.optional.read (v.get? "data")
    return { source, format, topLevelType, context, schemaType, urlCandidates, data }
  read_write d := by simp [get?_object, List.lookup_cons]

def compactParseResult : Codec KgJson CompactParseResult where
  write r := object [("kind", kind.required.write r.kind),
    ("normalizedInput", text.required.write r.normalizedInput),
    ("canonicalId", text.optional.write r.canonicalId),
    ("identity", identity.optional.write r.identity),
    ("iidFallback", iidFallback.optional.write r.iidFallback),
    ("remote", remoteDocument.optional.write r.remote),
    ("structuredDocument", structuredDocument.optional.write r.structuredDocument),
    ("identifiers", unknown.optional.write r.identifiers),
    ("hints", unknown.optional.write r.hints)]
  read v := do
    let kind ← kind.required.read (v.get? "kind")
    let normalizedInput ← text.required.read (v.get? "normalizedInput")
    let canonicalId ← text.optional.read (v.get? "canonicalId")
    let identity ← identity.optional.read (v.get? "identity")
    let iidFallback ← iidFallback.optional.read (v.get? "iidFallback")
    let remote ← remoteDocument.optional.read (v.get? "remote")
    let structuredDocument ← structuredDocument.optional.read (v.get? "structuredDocument")
    let identifiers ← unknown.optional.read (v.get? "identifiers")
    let hints ← unknown.optional.read (v.get? "hints")
    return {
      kind, normalizedInput, canonicalId, identity, iidFallback, remote, structuredDocument
      identifiers, hints }
  read_write r := by simp [get?_object, List.lookup_cons]

def isIidFallback (v : KgJson) : Bool :=
  isRecord v && (v.get? "reason").any (isOneOf fallbackReasons)
    && (v.get? "provenance").any isSemanticContractProvenance

/-- A value that is taken for the result of a parse. -/
def isCompactParseResult (v : KgJson) : Bool :=
  isRecord v && (v.get? "kind").any isNonEmptyString
    && (v.get? "normalizedInput").any isNonEmptyString
    && (v.get? "identity").all isNormalizedAtomIdentity
    && (v.get? "iidFallback").all isIidFallback

def toCompactParseResultMaybe (value : Option KgJson) : Option KgJson :=
  value.filter isCompactParseResult

/-- What the next worker finds in the column. -/
def readParseResult (value : Option KgJson) : Option CompactParseResult :=
  (toCompactParseResultMaybe value).bind compactParseResult.read

/-- No text that is looked at is blank. -/
structure CompactIsWellFormed (r : CompactParseResult) : Prop where
  normalizedInput : NotBlank r.normalizedInput
  identity : ∀ i ∈ r.identity, IdentityIsWellFormed i
  iidFallback : ∀ f ∈ r.iidFallback, ProvenanceIsWellFormed f.provenance

theorem guards_iidFallback :
    iidFallback.Guards isIidFallback fun f => ProvenanceIsWellFormed f.provenance := by
  intro v
  simp only [isIidFallback, Bool.and_eq_true,
    (guards_oneOf (h := lookup_fallbackReasons)).required _, guards_provenance.required _,
    and_assoc, and_true]
  constructor
  · rintro ⟨-, ⟨reason, hreason⟩, provenance', hprovenance, h⟩
    exact ⟨⟨reason, provenance'⟩, by simp [iidFallback, fallbackReason, hreason, hprovenance], h⟩
  · rintro ⟨f, hread, h⟩
    simp only [iidFallback, Option.bind_eq_bind, Option.bind_eq_some_iff] at hread
    obtain ⟨reason, hreason, provenance', hprovenance, ⟨⟩⟩ := hread
    exact ⟨isRecord_of_read hreason, ⟨reason, hreason⟩, provenance', hprovenance, h⟩

theorem isCompactParseResult_write {r : CompactParseResult} :
    isCompactParseResult (compactParseResult.write r) = true ↔ CompactIsWellFormed r := by
  have hkind : (compactParseResult.write r).get? "kind" = text.required.write (kindStr r.kind) := by
    simp [compactParseResult, kind, Codec.comp, Codec.required, get?_object]
  have hinput : (compactParseResult.write r).get? "normalizedInput"
      = text.required.write r.normalizedInput := by
    simp [compactParseResult, Codec.required, get?_object, List.lookup_cons]
  have hidentity : (compactParseResult.write r).get? "identity"
      = identity.optional.write r.identity := by
    simp [compactParseResult, get?_object, List.lookup_cons]
  have hfallback : (compactParseResult.write r).get? "iidFallback"
      = iidFallback.optional.write r.iidFallback := by
    simp [compactParseResult, get?_object, List.lookup_cons]
  simp only [isCompactParseResult, hkind, hinput, hidentity, hfallback, Bool.and_eq_true,
    guards_nonEmptyString.required.accepts_write, guards_identity.optional.accepts_write,
    guards_iidFallback.optional.accepts_write, and_assoc]
  constructor
  · rintro ⟨-, -, hnormalized, hwell, hprovenance⟩
    exact ⟨hnormalized, hwell, hprovenance⟩
  · rintro ⟨hnormalized, hwell, hprovenance⟩
    exact ⟨rfl, notBlank_kindStr r.kind, hnormalized, hwell, hprovenance⟩

/-- **What the next worker makes of the column**: it finds what was stored, unless a text that is
looked at is blank. -/
theorem readParseResult_write {r r' : CompactParseResult} :
    readParseResult (some (compactParseResult.write r)) = some r'
      ↔ r' = r ∧ CompactIsWellFormed r := by
  rw [← isCompactParseResult_write]
  by_cases h : isCompactParseResult (compactParseResult.write r) = true
  · have hsome : toCompactParseResultMaybe (some (compactParseResult.write r))
        = some (compactParseResult.write r) := if_pos h
    rw [readParseResult, hsome, Option.bind_some, Codec.read_write, and_iff_left h,
      Option.some_inj, eq_comm]
  · have hnone : toCompactParseResultMaybe (some (compactParseResult.write r)) = none := if_neg h
    rw [readParseResult, hnone, Option.bind_none]
    exact iff_of_false (fun heq => Option.some_ne_none _ heq.symm) fun hr => h hr.2

/-! ## What is parsed is read -/

/-- What the inspection says of an IID is not blank, and no blank text is an IID. -/
structure IidInspectionAdapter.IsLawful (adapter : IidInspectionAdapter) : Prop where
  provenance : ProvenanceIsWellFormed adapter.provenance
  raw : ∀ raw i, adapter.inspect raw = .ok i → NotBlank raw
  iid : ∀ raw i, adapter.inspect raw = .ok i → NotBlank i.iid
  scheme : ∀ raw i, adapter.inspect raw = .ok i → NotBlank i.scheme
  value : ∀ raw i, adapter.inspect raw = .ok i → NotBlank i.value

variable {rawInput : String} {iidReadEnabled : Bool} {adapter : Option IidInspectionAdapter}
  {parseLegacy : ParseResult} {outcome : IidParseOutcome}

/-- The parser finds no identities, and the reason of the inspection is not its own. -/
theorem toCompactParseResult_plain (r : ParseResult) :
    (toCompactParseResult r).identity = none ∧ (toCompactParseResult r).iidFallback = none
      ∧ (toCompactParseResult r).kind ≠ .iid := by
  cases r <;> exact ⟨rfl, rfl, fun h => ParseKind.noConfusion h⟩

/-- What comes of a parse: an identity, or what the parser found. -/
theorem parse_cases
    (h : parseAtomWithIidRead rawInput iidReadEnabled adapter parseLegacy = .ok outcome) :
    (∃ a i, adapter = some a ∧ a.inspect rawInput = .ok i
        ∧ outcome.result = {
          kind := .iid, normalizedInput := i.iid, canonicalId := i.iid
          identity := i.toIdentity rawInput a.provenance })
      ∨ ∃ fallback : Option IidFallback,
        (∀ f ∈ fallback, ∃ a ∈ adapter, f.provenance = a.provenance)
          ∧ outcome.result = { toCompactParseResult parseLegacy with iidFallback := fallback } := by
  unfold parseAtomWithIidRead at h
  split at h
  · cases h
    refine .inr ⟨none, fun f hf => absurd hf (Option.not_mem_none f), ?_⟩
    cases parseLegacy <;> rfl
  · split at h
    · cases h
    · next a =>
      split at h
      · next reason _ =>
        cases h
        refine .inr ⟨some { reason, provenance := a.provenance }, fun f hf => ?_, rfl⟩
        exact ⟨a, rfl, congrArg IidFallback.provenance (Option.mem_some_iff.mp hf).symm⟩
      · next i hi =>
        cases h
        exact .inl ⟨a, i, rfl, hi, rfl⟩

/-- What is stored is well formed, but for the text that the parser made of a blank one. -/
theorem parse_isWellFormed_iff (hlawful : ∀ a ∈ adapter, a.IsLawful)
    (h : parseAtomWithIidRead rawInput iidReadEnabled adapter parseLegacy = .ok outcome) :
    CompactIsWellFormed outcome.result ↔ NotBlank outcome.result.normalizedInput := by
  refine ⟨CompactIsWellFormed.normalizedInput, fun hinput => ⟨hinput, ?_, ?_⟩⟩
  · obtain ⟨a, i, ha, hi, hresult⟩ | ⟨fallback, -, hresult⟩ := parse_cases h
    · have hlaw := hlawful a ha
      rw [hresult]
      intro identity hidentity
      obtain rfl := Option.mem_some_iff.mp hidentity
      exact ⟨hlaw.raw _ i hi, hlaw.iid _ i hi, hlaw.scheme _ i hi, hlaw.value _ i hi,
        hlaw.provenance⟩
    · rw [hresult]
      intro identity hidentity
      rw [(toCompactParseResult_plain parseLegacy).1] at hidentity
      cases hidentity
  · obtain ⟨a, i, -, -, hresult⟩ | ⟨fallback, hfallback, hresult⟩ := parse_cases h
    · rw [hresult]
      intro f hf
      cases hf
    · rw [hresult]
      intro f hf
      obtain ⟨a, ha, hprovenance⟩ := hfallback f hf
      rw [hprovenance]
      exact (hlawful a ha).provenance

/-- **What is parsed is read**: the worker of the next stage finds the result that was stored,
whether it has an identity or not, unless the parser made a blank text of the input. -/
theorem readParseResult_parse (hlawful : ∀ a ∈ adapter, a.IsLawful)
    (h : parseAtomWithIidRead rawInput iidReadEnabled adapter parseLegacy = .ok outcome)
    {r : CompactParseResult} :
    readParseResult (some (compactParseResult.write outcome.result)) = some r
      ↔ r = outcome.result ∧ NotBlank outcome.result.normalizedInput :=
  readParseResult_write.trans (and_congr_right' (parse_isWellFormed_iff hlawful h))

end AtomParsing
