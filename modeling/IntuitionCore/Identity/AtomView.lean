import IntuitionCore.Identity.Parsing

/-!
# How the API presents an atom

The API adds to the columns of an atom what they say in its own terms: the identity that it was
parsed as, how it was classified, how far its resolution has come, and what to display of it.
It reads the columns that the workers have written, but takes nothing for granted about them:
a field that is not what it should be is left out.

The identity is that of the result of the parse. An atom that has become an IID but whose
result has no identity has its IID, and results of older parsers have their fields at the
top.
-/

namespace AtomView

open IdentityContract AtomParsing

/-! ## Fields -/

mutual

/-- A text that is not blank, or the first one of an array. -/
def readString : KgJson → Option String
  | .string s => if NotBlank s then some (trim s) else none
  | .array values => readFirst values
  | _ => none

def readFirst : List KgJson → Option String
  | [] => none
  | value :: values => readString value <|> readFirst values

end

/-- A field of a value that may be missing. -/
def field (value : Option KgJson) (key : String) : Option KgJson := value.bind (KgJson.get? key)

def readField (value : Option KgJson) (key : String) : Option String :=
  (field value key).bind readString

/-! ## What is presented -/

structure ProvenanceView where
  producer : String
  version : String
  specificationVersion : Option String := none
  deriving DecidableEq, Repr

/-- An identity as it is presented. Fields that have no value are left out, but for the first
two. -/
structure AtomIdentityView where
  raw : Option String
  canonical : Option String
  profile : Option IdentityProfile := none
  scheme : Option String := none
  value : Option String := none
  identityClass : Option IdentityClass := none
  typing : Option SchemeTyping := none
  anchorIneligibilityReason : Option AnchorIneligibilityReason := none
  valid : Option Bool := none
  anchorEligible : Option Bool := none
  provenance : Option ProvenanceView := none
  deriving DecidableEq, Repr

structure AtomDisplayView where
  name : Option String := none
  description : Option String := none
  image : Option String := none
  deriving DecidableEq, Repr

structure AtomResolutionView where
  status : String
  updatedAt : Option (Option ℕ) := none
  deriving DecidableEq, Repr

structure AtomRawView where
  type : String
  data : Option String
  dataHex : Option (Option String) := none
  deriving DecidableEq, Repr

structure AtomClassificationView where
  type : String
  status : Option String := none
  source : Option String := none
  deriving DecidableEq, Repr

structure AtomContextView where
  eventSequence : Option String := none
  ordinal : ℕ
  uri : Option String
  source : Option String := none
  raw : Option String := none
  registrant : Option String := none
  transactionHash : Option String := none
  logIndex : Option ℕ := none
  deriving DecidableEq, Repr

/-- What is read of an atom. A column that was not asked for is missing. -/
structure AtomViewSource where
  rawType : String
  data : Option String
  dataHex : Option (Option String) := none
  iid : Option String := none
  dataResolved : Option KgJson := none
  parseResult : Option KgJson := none
  classificationType : String
  classificationStatus : Option String := none
  classificationResult : Option KgJson := none
  enrichmentStatus : Option String := none
  enrichmentError : Option KgJson := none
  enrichedAt : Option (Option ℕ) := none
  context : Option (List AtomContextView) := none

/-- What is added to the columns of an atom. -/
structure AtomViewFields where
  raw : AtomRawView
  identity : Option AtomIdentityView
  classification : AtomClassificationView
  context : Option (List AtomContextView)
  resolution : Option AtomResolutionView
  display : Option AtomDisplayView

/-! ## Identities -/

def resolveIdentityProvenance (value : Option KgJson) : Option ProvenanceView := do
  let producer ← readField value "producer"
  let version ← readField value "version"
  return { producer, version, specificationVersion := readField value "specificationVersion" }

/-- What is optional of an identity, wherever its fields are. -/
def withOptionalFields (value : Option KgJson) (view : AtomIdentityView) : AtomIdentityView :=
  { view with
    profile := (field value "profile").bind profile.read
    identityClass := (field value "class").bind identityClass.read
    typing := (field value "typing").bind typing.read
    anchorIneligibilityReason := (field value "anchorIneligibilityReason").bind reason.read
    valid := (field value "valid").bind boolean.read
    provenance := resolveIdentityProvenance (field value "provenance") }

def resolveNestedIdentity (value : Option KgJson) : Option AtomIdentityView := do
  let raw ← readField value "raw"
  let canonical ← readField value "canonical"
  let scheme ← readField value "scheme"
  let identityValue ← readField value "value"
  let anchorEligible ← (field value "anchorEligible").bind boolean.read
  return withOptionalFields value
    { raw, canonical, scheme, value := identityValue, anchorEligible }

/-- The identity of a result that has its fields at the top. -/
def resolveFlatIdentity (data : Option String) (parseResult : Option KgJson) : AtomIdentityView :=
  withOptionalFields parseResult
    { raw := data <|> readField parseResult "normalizedInput"
      canonical := readField parseResult "canonicalIid" <|> readField parseResult "canonicalId"
      scheme := readField parseResult "scheme"
      value := readField parseResult "value"
      anchorEligible := (field parseResult "anchorEligible").bind boolean.read }

/-- The IID of an atom that has become one. -/
def persistedIid (atom : AtomViewSource) : Option String :=
  if atom.rawType = "iid" then atom.iid.bind fun iid => readString (.string iid) else none

/-- The kind of a result is that of an IID. -/
def IsIid (parseResult : Option KgJson) : Prop :=
  (field parseResult "kind").bind KgJson.string? = some "iid"

instance (parseResult : Option KgJson) : Decidable (IsIid parseResult) :=
  inferInstanceAs (Decidable (_ = _))

def resolveIdentity (atom : AtomViewSource) : Option AtomIdentityView :=
  (if IsIid atom.parseResult then resolveNestedIdentity (field atom.parseResult "identity")
    else none)
    <|> (persistedIid atom).map (fun iid => { raw := atom.data, canonical := iid })
    <|> if IsIid atom.parseResult then some (resolveFlatIdentity atom.data atom.parseResult)
      else none

/-! ## What is displayed -/

def firstString (records : List KgJson) (fields : List String) : Option String :=
  records.findSome? fun record => fields.findSome? fun key => (record.get? key).bind readString

def imageFields : List String :=
  ["image", "imageUrl", "image_url", "thumbnailUrl", "thumbnail", "avatarUrl", "profileImageUrl",
    "logo"]

/-- The URL of an image: a text, or one that an object has. -/
def imageUrl (value : KgJson) : Option String :=
  readString value <|> (value.get? "url").bind readString
    <|> (value.get? "contentUrl").bind readString

def firstImage (records : List KgJson) : Option String :=
  records.findSome? fun record => imageFields.findSome? fun key => (record.get? key).bind imageUrl

/-- Where what is displayed is looked for. -/
def displayCandidates (root : KgJson) : List KgJson :=
  root :: [root.get? "resolvedAtom", root.get? "data"].filterMap (Option.filter isRecord)

def resolveDisplay (value : Option KgJson) : Option AtomDisplayView := do
  let root ← value.filter isRecord
  let candidates := displayCandidates root
  let name := firstString candidates ["name", "title", "displayName", "headline"]
  let description := firstString candidates ["description", "summary"]
  let image := firstImage candidates
  if name.isNone ∧ description.isNone ∧ image.isNone then none
  else some { name, description, image }

/-! ## Atoms -/

def normalizeResolutionStatus (status : String) (error : Option KgJson) : String :=
  if status = "completed" then "resolved"
  else if status = "failed" then
    match (field error "retriable").bind boolean.read with
    | some true => "retryable"
    | some false => "terminal"
    | none => status
  else status

/-- What is added to an atom. -/
def presentAtom (atom : AtomViewSource) : AtomViewFields where
  raw := { type := atom.rawType, data := atom.data, dataHex := atom.dataHex }
  identity := resolveIdentity atom
  classification :=
    { type := atom.classificationType
      status := truthy atom.classificationStatus
      source := readField atom.classificationResult "source" }
  context := atom.context
  resolution := (truthy atom.enrichmentStatus).map fun status =>
    { status := normalizeResolutionStatus status atom.enrichmentError, updatedAt := atom.enrichedAt }
  display := resolveDisplay atom.dataResolved

/-! ## The identity that was stored -/

/-- An identity as it is presented: without the spaces around its texts. -/
def AtomIdentityView.ofIdentity (i : NormalizedAtomIdentity) : AtomIdentityView where
  raw := trim i.raw
  canonical := trim i.canonical
  profile := i.profile
  scheme := trim i.scheme
  value := trim i.value
  identityClass := i.identityClass
  typing := i.typing
  anchorIneligibilityReason := i.anchorIneligibilityReason
  anchorEligible := i.anchorEligible
  provenance := some
    { producer := trim i.provenance.producer
      version := trim i.provenance.version
      specificationVersion := i.provenance.specificationVersion.map trim }

variable {v : KgJson} {key s : String}

theorem readString_string (h : NotBlank s) : readString (.string s) = some (trim s) := if_pos h

/-- A text that is there is presented. -/
theorem readField_of_read (h : text.required.read (v.get? key) = some s) (hs : NotBlank s) :
    readField (some v) key = some (trim s) := by
  obtain ⟨w, hw, hread⟩ := Option.bind_eq_some_iff.mp h
  show (v.get? key).bind readString = _
  rw [hw]
  cases w with
  | string t => rw [← Option.some.inj (show some t = some s from hread)] at hs ⊢; exact if_pos hs
  | _ => cases hread

/-- A text that may be missing is presented if it is there. -/
theorem readField_of_optional {o : Option String} (h : text.optional.read (v.get? key) = some o)
    (ho : ∀ s ∈ o, NotBlank s) : readField (some v) key = o.map trim := by
  cases hw : v.get? key with
  | none =>
    rw [hw] at h
    obtain rfl := Option.some.inj h
    show (v.get? key).bind readString = none
    rw [hw, Option.bind_none]
  | some w =>
    have hread := Codec.bind_read_of_optional h
    rw [hw] at h
    obtain ⟨s, -, rfl⟩ := Option.map_eq_some_iff.mp h
    exact readField_of_read hread (ho s rfl)

theorem resolveIdentityProvenance_of_read {p : SemanticContractProvenance}
    (h : provenance.required.read (v.get? key) = some p) (hp : ProvenanceIsWellFormed p) :
    resolveIdentityProvenance (field (some v) key) = some
      { producer := trim p.producer, version := trim p.version
        specificationVersion := p.specificationVersion.map trim } := by
  obtain ⟨w, hw, hread⟩ := Option.bind_eq_some_iff.mp h
  simp only [provenance, Option.bind_eq_bind, Option.bind_eq_some_iff] at hread
  obtain ⟨producer, hproducer, version, hversion, specification, hspec, ⟨⟩⟩ := hread
  have hfield : field (some v) key = some w := hw
  rw [hfield, resolveIdentityProvenance, readField_of_read hproducer hp.producer,
    readField_of_read hversion hp.version,
    readField_of_optional hspec hp.specificationVersion]
  rfl

/-- **An identity that a guard accepts is presented**, as far as it is looked at. -/
theorem resolveNestedIdentity_of_read {i : NormalizedAtomIdentity} (h : identity.read v = some i)
    (hi : IdentityIsWellFormed i) : resolveNestedIdentity (some v)
      = some { AtomIdentityView.ofIdentity i with valid := (v.get? "valid").bind boolean.read } := by
  simp only [identity, Option.bind_eq_bind, Option.bind_eq_some_iff] at h
  obtain ⟨raw, hraw, canonical, hcanonical, scheme, hscheme, value, hvalue, profile', hprofile,
    class', hclass, typing', htyping, reason', hreason, eligible, heligible, provenance',
    hprovenance, ⟨⟩⟩ := h
  rw [resolveNestedIdentity, readField_of_read hraw hi.raw,
    readField_of_read hcanonical hi.canonical, readField_of_read hscheme hi.scheme,
    readField_of_read hvalue hi.value,
    show (field (some v) "anchorEligible").bind boolean.read = some eligible from heligible]
  have hview : withOptionalFields (some v)
      { raw := trim raw, canonical := trim canonical, scheme := trim scheme, value := trim value
        anchorEligible := eligible }
      = { raw := trim raw, canonical := trim canonical, scheme := trim scheme, value := trim value
          anchorEligible := eligible
          profile := (v.get? "profile").bind profile.read
          identityClass := (v.get? "class").bind identityClass.read
          typing := (v.get? "typing").bind typing.read
          anchorIneligibilityReason := (v.get? "anchorIneligibilityReason").bind reason.read
          valid := (v.get? "valid").bind boolean.read
          provenance := resolveIdentityProvenance (field (some v) "provenance") } := rfl
  rw [Codec.bind_read_of_optional hprofile, Codec.bind_read_of_optional hclass,
    Codec.bind_read_of_optional htyping, Codec.bind_read_of_optional hreason,
    resolveIdentityProvenance_of_read hprovenance hi.provenance] at hview
  exact congrArg some hview

/-- **The identity that a parse has stored is presented.** -/
theorem resolveNestedIdentity_write {i : NormalizedAtomIdentity} (hi : IdentityIsWellFormed i) :
    resolveNestedIdentity (some (identity.write i)) = some (.ofIdentity i) := by
  rw [resolveNestedIdentity_of_read (identity.read_write i) hi]
  have hvalid : (identity.write i).get? "valid" = none := by
    simp [identity, get?_object, List.lookup_cons]
  rw [hvalid]
  rfl

end AtomView
