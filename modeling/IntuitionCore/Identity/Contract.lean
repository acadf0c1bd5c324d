import IntuitionCore.Entities.NodeIdentifiers
import IntuitionCore.Library.Codec
import IntuitionCore.Workers.IdentityLadder
import IntuitionCore.Workers.ProviderPlans

/-!
# What the workers hand on about an identity

The worker of one stage leaves what it found about the identity of an atom in a JSON column,
and the worker of the next stage takes it from there. Each type that is handed on is written
here with the JSON that it is stored as, and with what the fields of a value are read as.

A reader does not know who wrote a column, so it takes a value for one of a type only if a
guard accepts it. The guards are those of well-formed values, which have no blank texts.
-/

/-! ## Types -/

/-- The profile that an atom represents an identity in. -/
inductive IdentityProfile where
  | p0
  | p1
  | p2
  deriving DecidableEq, Repr

inductive IdentityClass where
  | a
  | b
  | c
  | d
  deriving DecidableEq, Repr

/-- Why an identity is no anchor. -/
inductive AnchorIneligibilityReason where
  | classC
  | polymorphicScheme
  | dormantWdBinding
  | weakAccount
  | providerLocal
  deriving DecidableEq, Repr

inductive IdentityDecisionStatus where
  | classified
  | unmapped
  | ambiguous
  deriving DecidableEq, Repr

structure NormalizedAtomIdentity where
  raw : String
  canonical : String
  scheme : String
  value : String
  profile : Option IdentityProfile := none
  identityClass : Option IdentityClass := none
  typing : Option SchemeTyping := none
  anchorIneligibilityReason : Option AnchorIneligibilityReason := none
  anchorEligible : Bool
  provenance : SemanticContractProvenance
  deriving DecidableEq, Repr

structure IdentityClassificationDecision where
  status : IdentityDecisionStatus
  classificationSlug : Option String := none
  schemaType : Option String := none
  category : Option String := none
  provenance : SemanticContractProvenance
  deriving DecidableEq, Repr

/-- A projection of rungs, and what it was made by. -/
structure IdentityRungRecord extends IdentityRungProjection where
  provenance : SemanticContractProvenance
  deriving DecidableEq, Repr

namespace IdentityContract

/-! ## Fields -/

def text : Codec KgJson String where
  write := .string
  read := KgJson.string?
  read_write _ := rfl

def boolean : Codec KgJson Bool where
  write := .boolean
  read
    | .boolean b => some b
    | _ => none
  read_write _ := rfl

variable {α : Type}

/-- One of some texts. -/
def oneOf (asStr : α → String) (texts : List (String × α))
    (h : ∀ a, texts.lookup (asStr a) = some a) : Codec KgJson α :=
  text.comp (.ofTexts asStr texts h)

def array (c : Codec KgJson α) : Codec KgJson (List α) where
  write as := .array (c.list.write as)
  read
    | .array values => c.list.read values
    | _ => none
  read_write := c.list.read_write

/-- An object without the fields that are missing. -/
def object (fields : List (String × Option KgJson)) : KgJson := .object (Codec.present fields)

theorem get?_object {fields : List (String × Option KgJson)} (h : (fields.map Prod.fst).Nodup)
    (key : String) : (object fields).get? key = (fields.lookup key).join :=
  Codec.lookup_present h key

/-- A text has more than spaces. -/
def NotBlank (s : String) : Prop := jsTrim s ≠ []

instance (s : String) : Decidable (NotBlank s) := inferInstanceAs (Decidable (_ ≠ _))

def isRecord : KgJson → Bool
  | .object _ => true
  | _ => false

def isNonEmptyString : KgJson → Bool
  | .string s => NotBlank s
  | _ => false

def isBoolean : KgJson → Bool
  | .boolean _ => true
  | _ => false

/-- A value is one of some texts. -/
def isOneOf (texts : List (String × α)) : KgJson → Bool
  | .string s => (texts.lookup s).isSome
  | _ => false

/-- A value is an array of what is accepted. -/
def isArrayOf (accepts : KgJson → Bool) : KgJson → Bool
  | .array values => values.all accepts
  | _ => false

variable {v w : KgJson} {key : String}

theorem isRecord_of_get? (h : v.get? key = some w) : isRecord v = true := by
  cases v with
  | object fields => rfl
  | _ => cases h

/-- What has a field that is read is an object. -/
theorem isRecord_of_read {c : Codec KgJson α} {a : α} (h : c.required.read (v.get? key) = some a) :
    isRecord v = true := by
  obtain ⟨w, hw, -⟩ := Option.bind_eq_some_iff.mp h
  exact isRecord_of_get? hw

theorem guards_nonEmptyString : text.Guards isNonEmptyString NotBlank := by
  intro v
  cases v with
  | string s =>
    refine decide_eq_true_iff.trans ⟨fun h => ⟨s, rfl, h⟩, ?_⟩
    rintro ⟨t, ht, h⟩
    rwa [Option.some.inj ht]
  | _ =>
    refine iff_of_false Bool.false_ne_true ?_
    rintro ⟨s, hs, -⟩
    cases hs

theorem guards_boolean : boolean.Guards isBoolean fun _ => True := by
  intro v
  cases v with
  | boolean b => exact iff_of_true rfl ⟨b, rfl, trivial⟩
  | _ =>
    refine iff_of_false Bool.false_ne_true ?_
    rintro ⟨b, hb, -⟩
    cases hb

theorem guards_oneOf {asStr : α → String} {texts : List (String × α)}
    {h : ∀ a, texts.lookup (asStr a) = some a} :
    (oneOf asStr texts h).Guards (isOneOf texts) fun _ => True := by
  intro v
  cases v with
  | string s =>
    refine Option.isSome_iff_exists.trans (exists_congr fun a => ?_)
    exact (and_iff_left trivial).symm
  | _ =>
    refine iff_of_false Bool.false_ne_true ?_
    rintro ⟨a, ha, -⟩
    cases ha

theorem guards_array {c : Codec KgJson α} {accepts : KgJson → Bool} {P : α → Prop}
    (h : c.Guards accepts P) : (array c).Guards (isArrayOf accepts) fun as => ∀ a ∈ as, P a := by
  intro v
  cases v with
  | array values => exact h.list values
  | _ =>
    refine iff_of_false Bool.false_ne_true ?_
    rintro ⟨as, has, -⟩
    cases has

/-! ## Enumerations -/

def profileStr : IdentityProfile → String
  | .p0 => "p0"
  | .p1 => "p1"
  | .p2 => "p2"

def profiles : List (String × IdentityProfile) := [("p0", .p0), ("p1", .p1), ("p2", .p2)]

theorem lookup_profiles (a : IdentityProfile) : profiles.lookup (profileStr a) = some a := by
  cases a <;> rfl

def classStr : IdentityClass → String
  | .a => "A"
  | .b => "B"
  | .c => "C"
  | .d => "D"

def classes : List (String × IdentityClass) := [("A", .a), ("B", .b), ("C", .c), ("D", .d)]

theorem lookup_classes (i : IdentityClass) : classes.lookup (classStr i) = some i := by
  cases i <;> rfl

def typingStr : SchemeTyping → String
  | .unambiguous => "unambiguous"
  | .polymorphic => "polymorphic"

def typings : List (String × SchemeTyping) :=
  [("unambiguous", .unambiguous), ("polymorphic", .polymorphic)]

theorem lookup_typings (a : SchemeTyping) : typings.lookup (typingStr a) = some a := by
  cases a <;> rfl

def reasonStr : AnchorIneligibilityReason → String
  | .classC => "class-c"
  | .polymorphicScheme => "polymorphic-scheme"
  | .dormantWdBinding => "dormant-wd-binding"
  | .weakAccount => "weak-account"
  | .providerLocal => "provider-local"

def reasons : List (String × AnchorIneligibilityReason) :=
  [("class-c", .classC), ("polymorphic-scheme", .polymorphicScheme),
    ("dormant-wd-binding", .dormantWdBinding), ("weak-account", .weakAccount),
    ("provider-local", .providerLocal)]

theorem lookup_reasons (a : AnchorIneligibilityReason) :
    reasons.lookup (reasonStr a) = some a := by
  cases a <;> rfl

def decisionStatusStr : IdentityDecisionStatus → String
  | .classified => "classified"
  | .unmapped => "unmapped"
  | .ambiguous => "ambiguous"

def decisionStatuses : List (String × IdentityDecisionStatus) :=
  [("classified", .classified), ("unmapped", .unmapped), ("ambiguous", .ambiguous)]

theorem lookup_decisionStatuses (a : IdentityDecisionStatus) :
    decisionStatuses.lookup (decisionStatusStr a) = some a := by
  cases a <;> rfl

def planStatusStr : IdentityProviderPlanStatus → String
  | .planned => "planned"
  | .unsupported => "unsupported"

def planStatuses : List (String × IdentityProviderPlanStatus) :=
  [("planned", .planned), ("unsupported", .unsupported)]

theorem lookup_planStatuses (a : IdentityProviderPlanStatus) :
    planStatuses.lookup (planStatusStr a) = some a := by
  cases a <;> rfl

def profile : Codec KgJson IdentityProfile := oneOf profileStr profiles lookup_profiles

def identityClass : Codec KgJson IdentityClass := oneOf classStr classes lookup_classes

def typing : Codec KgJson SchemeTyping := oneOf typingStr typings lookup_typings

def reason : Codec KgJson AnchorIneligibilityReason := oneOf reasonStr reasons lookup_reasons

def decisionStatus : Codec KgJson IdentityDecisionStatus :=
  oneOf decisionStatusStr decisionStatuses lookup_decisionStatuses

def planStatus : Codec KgJson IdentityProviderPlanStatus :=
  oneOf planStatusStr planStatuses lookup_planStatuses

/-! ## Records -/

def isSemanticContractProvenance (v : KgJson) : Bool :=
  isRecord v && (v.get? "producer").any isNonEmptyString
    && (v.get? "version").any isNonEmptyString
    && (v.get? "specificationVersion").all isNonEmptyString

def provenance : Codec KgJson SemanticContractProvenance where
  write p := object [("producer", text.required.write p.producer),
    ("version", text.required.write p.version),
    ("specificationVersion", text.optional.write p.specificationVersion)]
  read v := do
    let producer ← text.required.read (v.get? "producer")
    let version ← text.required.read (v.get? "version")
    let specificationVersion ← text.optional.read (v.get? "specificationVersion")
    return { producer, version, specificationVersion }
  read_write p := by simp [get?_object, List.lookup_cons]

/-- No text is blank. -/
structure ProvenanceIsWellFormed (p : SemanticContractProvenance) : Prop where
  producer : NotBlank p.producer
  version : NotBlank p.version
  specificationVersion : ∀ s ∈ p.specificationVersion, NotBlank s

theorem guards_provenance :
    provenance.Guards isSemanticContractProvenance ProvenanceIsWellFormed := by
  intro v
  simp only [isSemanticContractProvenance, Bool.and_eq_true,
    guards_nonEmptyString.required _, guards_nonEmptyString.optional _, and_assoc]
  constructor
  · rintro ⟨-, ⟨producer, hproducer, h₁⟩, ⟨version, hversion, h₂⟩, specification, hspec, h₃⟩
    exact ⟨⟨producer, version, specification⟩, by simp [provenance, hproducer, hversion, hspec],
      h₁, h₂, h₃⟩
  · rintro ⟨p, hread, h₁, h₂, h₃⟩
    simp only [provenance, Option.bind_eq_bind, Option.bind_eq_some_iff] at hread
    obtain ⟨producer, hproducer, version, hversion, specification, hspec, ⟨⟩⟩ := hread
    exact ⟨isRecord_of_read hproducer, ⟨producer, hproducer, h₁⟩, ⟨version, hversion, h₂⟩,
      specification, hspec, h₃⟩

/-! ## The identity of an atom -/

def isNormalizedAtomIdentity (v : KgJson) : Bool :=
  isRecord v && (v.get? "raw").any isNonEmptyString && (v.get? "canonical").any isNonEmptyString
    && (v.get? "scheme").any isNonEmptyString && (v.get? "value").any isNonEmptyString
    && (v.get? "profile").all (isOneOf profiles) && (v.get? "class").all (isOneOf classes)
    && (v.get? "typing").all (isOneOf typings)
    && (v.get? "anchorIneligibilityReason").all (isOneOf reasons)
    && (v.get? "anchorEligible").any isBoolean
    && (v.get? "provenance").any isSemanticContractProvenance

def identity : Codec KgJson NormalizedAtomIdentity where
  write i := object [("raw", text.required.write i.raw),
    ("canonical", text.required.write i.canonical), ("scheme", text.required.write i.scheme),
    ("value", text.required.write i.value), ("profile", profile.optional.write i.profile),
    ("class", identityClass.optional.write i.identityClass),
    ("typing", typing.optional.write i.typing),
    ("anchorIneligibilityReason", reason.optional.write i.anchorIneligibilityReason),
    ("anchorEligible", boolean.required.write i.anchorEligible),
    ("provenance", provenance.required.write i.provenance)]
  read v := do
    let raw ← text.required.read (v.get? "raw")
    let canonical ← text.required.read (v.get? "canonical")
    let scheme ← text.required.read (v.get? "scheme")
    let value ← text.required.read (v.get? "value")
    let profile ← profile.optional.read (v.get? "profile")
    let identityClass ← identityClass.optional.read (v.get? "class")
    let typing ← typing.optional.read (v.get? "typing")
    let anchorIneligibilityReason ← reason.optional.read (v.get? "anchorIneligibilityReason")
    let anchorEligible ← boolean.required.read (v.get? "anchorEligible")
    let provenance ← provenance.required.read (v.get? "provenance")
    return {
      raw, canonical, scheme, value, profile, identityClass, typing, anchorIneligibilityReason
      anchorEligible, provenance }
  read_write i := by simp [get?_object, List.lookup_cons]

/-- No text is blank. -/
structure IdentityIsWellFormed (i : NormalizedAtomIdentity) : Prop where
  raw : NotBlank i.raw
  canonical : NotBlank i.canonical
  scheme : NotBlank i.scheme
  value : NotBlank i.value
  provenance : ProvenanceIsWellFormed i.provenance

theorem guards_identity : identity.Guards isNormalizedAtomIdentity IdentityIsWellFormed := by
  intro v
  simp only [isNormalizedAtomIdentity, Bool.and_eq_true, guards_nonEmptyString.required _,
    (guards_oneOf (h := lookup_profiles)).optional _,
    (guards_oneOf (h := lookup_classes)).optional _,
    (guards_oneOf (h := lookup_typings)).optional _,
    (guards_oneOf (h := lookup_reasons)).optional _, guards_boolean.required _,
    guards_provenance.required _, and_assoc, implies_true, and_true]
  constructor
  · rintro ⟨-, ⟨raw, hraw, h₁⟩, ⟨canonical, hcanonical, h₂⟩, ⟨scheme, hscheme, h₃⟩,
      ⟨value, hvalue, h₄⟩, ⟨profile', hprofile⟩, ⟨class', hclass⟩, ⟨typing', htyping⟩,
      ⟨reason', hreason⟩, ⟨eligible, heligible⟩, provenance', hprovenance, h₅⟩
    refine ⟨⟨raw, canonical, scheme, value, profile', class', typing', reason', eligible,
      provenance'⟩, ?_, h₁, h₂, h₃, h₄, h₅⟩
    simp [identity, profile, identityClass, typing, reason, hraw, hcanonical, hscheme, hvalue,
      hprofile, hclass, htyping, hreason, heligible, hprovenance]
  · rintro ⟨i, hread, h₁, h₂, h₃, h₄, h₅⟩
    simp only [identity, Option.bind_eq_bind, Option.bind_eq_some_iff] at hread
    obtain ⟨raw, hraw, canonical, hcanonical, scheme, hscheme, value, hvalue, profile', hprofile,
      class', hclass, typing', htyping, reason', hreason, eligible, heligible, provenance',
      hprovenance, ⟨⟩⟩ := hread
    exact ⟨isRecord_of_read hraw, ⟨raw, hraw, h₁⟩, ⟨canonical, hcanonical, h₂⟩,
      ⟨scheme, hscheme, h₃⟩, ⟨value, hvalue, h₄⟩, ⟨profile', hprofile⟩, ⟨class', hclass⟩,
      ⟨typing', htyping⟩, ⟨reason', hreason⟩, ⟨eligible, heligible⟩, provenance', hprovenance, h₅⟩

/-! ## What the registry says -/

def isIdentityClassificationDecision (v : KgJson) : Bool :=
  isRecord v && (v.get? "status").any (isOneOf decisionStatuses)
    && (v.get? "classificationSlug").all isNonEmptyString
    && (v.get? "schemaType").all isNonEmptyString && (v.get? "category").all isNonEmptyString
    && (v.get? "provenance").any isSemanticContractProvenance

def identityDecision : Codec KgJson IdentityClassificationDecision where
  write d := object [("status", decisionStatus.required.write d.status),
    ("classificationSlug", text.optional.write d.classificationSlug),
    ("schemaType", text.optional.write d.schemaType),
    ("category", text.optional.write d.category),
    ("provenance", provenance.required.write d.provenance)]
  read v := do
    let status ← decisionStatus.required.read (v.get? "status")
    let classificationSlug ← text.optional.read (v.get? "classificationSlug")
    let schemaType ← text.optional.read (v.get? "schemaType")
    let category ← text.optional.read (v.get? "category")
    let provenance ← provenance.required.read (v.get? "provenance")
    return { status, classificationSlug, schemaType, category, provenance }
  read_write d := by simp [get?_object, List.lookup_cons]

/-- No text is blank. -/
structure DecisionIsWellFormed (d : IdentityClassificationDecision) : Prop where
  classificationSlug : ∀ s ∈ d.classificationSlug, NotBlank s
  schemaType : ∀ s ∈ d.schemaType, NotBlank s
  category : ∀ s ∈ d.category, NotBlank s
  provenance : ProvenanceIsWellFormed d.provenance

theorem guards_identityDecision :
    identityDecision.Guards isIdentityClassificationDecision DecisionIsWellFormed := by
  intro v
  simp only [isIdentityClassificationDecision, Bool.and_eq_true,
    (guards_oneOf (h := lookup_decisionStatuses)).required _, guards_nonEmptyString.optional _,
    guards_provenance.required _, and_assoc, and_true]
  constructor
  · rintro ⟨-, ⟨status, hstatus⟩, ⟨slug, hslug, h₁⟩, ⟨type, htype, h₂⟩, ⟨category, hcategory, h₃⟩,
      provenance', hprovenance, h₄⟩
    refine ⟨⟨status, slug, type, category, provenance'⟩, ?_, h₁, h₂, h₃, h₄⟩
    simp [identityDecision, decisionStatus, hstatus, hslug, htype, hcategory, hprovenance]
  · rintro ⟨d, hread, h₁, h₂, h₃, h₄⟩
    simp only [identityDecision, Option.bind_eq_bind, Option.bind_eq_some_iff] at hread
    obtain ⟨status, hstatus, slug, hslug, type, htype, category, hcategory, provenance',
      hprovenance, ⟨⟩⟩ := hread
    exact ⟨isRecord_of_read hstatus, ⟨status, hstatus⟩, ⟨slug, hslug, h₁⟩, ⟨type, htype, h₂⟩,
      ⟨category, hcategory, h₃⟩, provenance', hprovenance, h₄⟩

def isIdentityProviderHint (v : KgJson) : Bool :=
  isRecord v && (v.get? "kind").any isNonEmptyString && (v.get? "value").any isNonEmptyString

def providerHint : Codec KgJson IdentityProviderHint where
  write h := object [("kind", text.required.write h.kind), ("value", text.required.write h.value)]
  read v := do
    let kind ← text.required.read (v.get? "kind")
    let value ← text.required.read (v.get? "value")
    return { kind, value }
  read_write h := by simp [get?_object, List.lookup_cons]

structure HintIsWellFormed (h : IdentityProviderHint) : Prop where
  kind : NotBlank h.kind
  value : NotBlank h.value

theorem guards_providerHint : providerHint.Guards isIdentityProviderHint HintIsWellFormed := by
  intro v
  simp only [isIdentityProviderHint, Bool.and_eq_true, guards_nonEmptyString.required _, and_assoc]
  constructor
  · rintro ⟨-, ⟨kind, hkind, h₁⟩, value, hvalue, h₂⟩
    exact ⟨⟨kind, value⟩, by simp [providerHint, hkind, hvalue], h₁, h₂⟩
  · rintro ⟨h, hread, h₁, h₂⟩
    simp only [providerHint, Option.bind_eq_bind, Option.bind_eq_some_iff] at hread
    obtain ⟨kind, hkind, value, hvalue, ⟨⟩⟩ := hread
    exact ⟨isRecord_of_read hkind, ⟨kind, hkind, h₁⟩, value, hvalue, h₂⟩

def isIdentityProviderTarget (v : KgJson) : Bool :=
  isRecord v && (v.get? "provider").any isNonEmptyString
    && (v.get? "capabilities").any (isArrayOf isNonEmptyString)
    && (v.get? "identifierHints").any (isArrayOf isIdentityProviderHint)

def providerTarget : Codec KgJson IdentityProviderTarget where
  write t := object [("provider", text.required.write t.provider),
    ("capabilities", (array text).required.write t.capabilities),
    ("identifierHints", (array providerHint).required.write t.identifierHints)]
  read v := do
    let provider ← text.required.read (v.get? "provider")
    let capabilities ← (array text).required.read (v.get? "capabilities")
    let identifierHints ← (array providerHint).required.read (v.get? "identifierHints")
    return { provider, capabilities, identifierHints }
  read_write t := by simp [get?_object, List.lookup_cons]

structure TargetIsWellFormed (t : IdentityProviderTarget) : Prop where
  provider : NotBlank t.provider
  capabilities : ∀ s ∈ t.capabilities, NotBlank s
  identifierHints : ∀ h ∈ t.identifierHints, HintIsWellFormed h

theorem guards_providerTarget :
    providerTarget.Guards isIdentityProviderTarget TargetIsWellFormed := by
  intro v
  simp only [isIdentityProviderTarget, Bool.and_eq_true, guards_nonEmptyString.required _,
    (guards_array guards_nonEmptyString).required _, (guards_array guards_providerHint).required _,
    and_assoc]
  constructor
  · rintro ⟨-, ⟨provider, hprovider, h₁⟩, ⟨capabilities, hcapabilities, h₂⟩, hints, hhints, h₃⟩
    exact ⟨⟨provider, capabilities, hints⟩,
      by simp [providerTarget, hprovider, hcapabilities, hhints], h₁, h₂, h₃⟩
  · rintro ⟨t, hread, h₁, h₂, h₃⟩
    simp only [providerTarget, Option.bind_eq_bind, Option.bind_eq_some_iff] at hread
    obtain ⟨provider, hprovider, capabilities, hcapabilities, hints, hhints, ⟨⟩⟩ := hread
    exact ⟨isRecord_of_read hprovider, ⟨provider, hprovider, h₁⟩,
      ⟨capabilities, hcapabilities, h₂⟩, hints, hhints, h₃⟩

def isIdentityProviderPlan (v : KgJson) : Bool :=
  isRecord v && (v.get? "status").any (isOneOf planStatuses)
    && (v.get? "targets").any (isArrayOf isIdentityProviderTarget)
    && (v.get? "provenance").any isSemanticContractProvenance

def providerPlan : Codec KgJson IdentityProviderPlan where
  write p := object [("status", planStatus.required.write p.status),
    ("targets", (array providerTarget).required.write p.targets),
    ("provenance", provenance.required.write p.provenance)]
  read v := do
    let status ← planStatus.required.read (v.get? "status")
    let targets ← (array providerTarget).required.read (v.get? "targets")
    let provenance ← provenance.required.read (v.get? "provenance")
    return { status, targets, provenance }
  read_write p := by simp [get?_object, List.lookup_cons]

structure PlanIsWellFormed (p : IdentityProviderPlan) : Prop where
  targets : ∀ t ∈ p.targets, TargetIsWellFormed t
  provenance : ProvenanceIsWellFormed p.provenance

theorem guards_providerPlan : providerPlan.Guards isIdentityProviderPlan PlanIsWellFormed := by
  intro v
  simp only [isIdentityProviderPlan, Bool.and_eq_true,
    (guards_oneOf (h := lookup_planStatuses)).required _,
    (guards_array guards_providerTarget).required _, guards_provenance.required _, and_assoc,
    and_true]
  constructor
  · rintro ⟨-, ⟨status, hstatus⟩, ⟨targets, htargets, h₁⟩, provenance', hprovenance, h₂⟩
    refine ⟨⟨status, targets, provenance'⟩, ?_, h₁, h₂⟩
    simp [providerPlan, planStatus, hstatus, htargets, hprovenance]
  · rintro ⟨p, hread, h₁, h₂⟩
    simp only [providerPlan, Option.bind_eq_bind, Option.bind_eq_some_iff] at hread
    obtain ⟨status, hstatus, targets, htargets, provenance', hprovenance, ⟨⟩⟩ := hread
    exact ⟨isRecord_of_read hstatus, ⟨status, hstatus⟩, ⟨targets, htargets, h₁⟩, provenance',
      hprovenance, h₂⟩

/-! ## What the ladder says -/

/-- An entry of the rungs of a projection. -/
def isIdentityRung (v : KgJson) : Bool :=
  isRecord v && (v.get? "rung").any isNonEmptyString && (v.get? "value").any isNonEmptyString
    && (v.get? "iid").all isNonEmptyString && (v.get? "aliasOnly").any isBoolean

def identityRung : Codec KgJson IdentityRung where
  write r := object [("rung", text.required.write r.rung), ("value", text.required.write r.value),
    ("iid", text.optional.write r.iid), ("aliasOnly", boolean.required.write r.aliasOnly)]
  read v := do
    let rung ← text.required.read (v.get? "rung")
    let value ← text.required.read (v.get? "value")
    let iid ← text.optional.read (v.get? "iid")
    let aliasOnly ← boolean.required.read (v.get? "aliasOnly")
    return { rung, value, iid, aliasOnly }
  read_write r := by simp [get?_object, List.lookup_cons]

structure RungIsWellFormed (r : IdentityRung) : Prop where
  rung : NotBlank r.rung
  value : NotBlank r.value
  iid : ∀ s ∈ r.iid, NotBlank s

theorem guards_identityRung : identityRung.Guards isIdentityRung RungIsWellFormed := by
  intro v
  simp only [isIdentityRung, Bool.and_eq_true, guards_nonEmptyString.required _,
    guards_nonEmptyString.optional _, guards_boolean.required _, and_assoc, and_true]
  constructor
  · rintro ⟨-, ⟨rung, hrung, h₁⟩, ⟨value, hvalue, h₂⟩, ⟨iid, hiid, h₃⟩, aliasOnly, haliasOnly⟩
    exact ⟨⟨rung, value, iid, aliasOnly⟩,
      by simp [identityRung, hrung, hvalue, hiid, haliasOnly], h₁, h₂, h₃⟩
  · rintro ⟨r, hread, h₁, h₂, h₃⟩
    simp only [identityRung, Option.bind_eq_bind, Option.bind_eq_some_iff] at hread
    obtain ⟨rung, hrung, value, hvalue, iid, hiid, aliasOnly, haliasOnly, ⟨⟩⟩ := hread
    exact ⟨isRecord_of_read hrung, ⟨rung, hrung, h₁⟩, ⟨value, hvalue, h₂⟩, ⟨iid, hiid, h₃⟩,
      aliasOnly, haliasOnly⟩

def isPrimaryRung (v : KgJson) : Bool :=
  isRecord v && (v.get? "rung").any isNonEmptyString && (v.get? "iid").any isNonEmptyString

def primaryRung : Codec KgJson PrimaryRung where
  write r := object [("rung", text.required.write r.rung), ("iid", text.required.write r.iid)]
  read v := do
    let rung ← text.required.read (v.get? "rung")
    let iid ← text.required.read (v.get? "iid")
    return { rung, iid }
  read_write r := by simp [get?_object, List.lookup_cons]

structure PrimaryIsWellFormed (r : PrimaryRung) : Prop where
  rung : NotBlank r.rung
  iid : NotBlank r.iid

theorem guards_primaryRung : primaryRung.Guards isPrimaryRung PrimaryIsWellFormed := by
  intro v
  simp only [isPrimaryRung, Bool.and_eq_true, guards_nonEmptyString.required _, and_assoc]
  constructor
  · rintro ⟨-, ⟨rung, hrung, h₁⟩, iid, hiid, h₂⟩
    exact ⟨⟨rung, iid⟩, by simp [primaryRung, hrung, hiid], h₁, h₂⟩
  · rintro ⟨r, hread, h₁, h₂⟩
    simp only [primaryRung, Option.bind_eq_bind, Option.bind_eq_some_iff] at hread
    obtain ⟨rung, hrung, iid, hiid, ⟨⟩⟩ := hread
    exact ⟨isRecord_of_read hrung, ⟨rung, hrung, h₁⟩, iid, hiid, h₂⟩

def isIdentityRungProjection (v : KgJson) : Bool :=
  isRecord v && (v.get? "category").all isNonEmptyString && (v.get? "primary").all isPrimaryRung
    && (v.get? "rungs").any (isArrayOf isIdentityRung)
    && (v.get? "provenance").any isSemanticContractProvenance

def identityRungs : Codec KgJson IdentityRungRecord where
  write r := object [("category", text.optional.write r.category),
    ("primary", primaryRung.optional.write r.primary),
    ("rungs", (array identityRung).required.write r.rungs),
    ("provenance", provenance.required.write r.provenance)]
  read v := do
    let category ← text.optional.read (v.get? "category")
    let primary ← primaryRung.optional.read (v.get? "primary")
    let rungs ← (array identityRung).required.read (v.get? "rungs")
    let provenance ← provenance.required.read (v.get? "provenance")
    return { category, primary, rungs, provenance }
  read_write r := by simp [get?_object, List.lookup_cons]

structure RungsAreWellFormed (r : IdentityRungRecord) : Prop where
  category : ∀ s ∈ r.category, NotBlank s
  primary : ∀ p ∈ r.primary, PrimaryIsWellFormed p
  rungs : ∀ entry ∈ r.rungs, RungIsWellFormed entry
  provenance : ProvenanceIsWellFormed r.provenance

theorem guards_identityRungs :
    identityRungs.Guards isIdentityRungProjection RungsAreWellFormed := by
  intro v
  simp only [isIdentityRungProjection, Bool.and_eq_true, guards_nonEmptyString.optional _,
    guards_primaryRung.optional _, (guards_array guards_identityRung).required _,
    guards_provenance.required _, and_assoc]
  constructor
  · rintro ⟨-, ⟨category, hcategory, h₁⟩, ⟨primary, hprimary, h₂⟩, ⟨rungs, hrungs, h₃⟩,
      provenance', hprovenance, h₄⟩
    refine ⟨⟨⟨category, primary, rungs⟩, provenance'⟩, ?_, h₁, h₂, h₃, h₄⟩
    simp [identityRungs, hcategory, hprimary, hrungs, hprovenance]
  · rintro ⟨r, hread, h₁, h₂, h₃, h₄⟩
    simp only [identityRungs, Option.bind_eq_bind, Option.bind_eq_some_iff] at hread
    obtain ⟨category, hcategory, primary, hprimary, rungs, hrungs, provenance', hprovenance, ⟨⟩⟩ :=
      hread
    exact ⟨isRecord_of_read hrungs, ⟨category, hcategory, h₁⟩, ⟨primary, hprimary, h₂⟩,
      ⟨rungs, hrungs, h₃⟩, provenance', hprovenance, h₄⟩

/-- **The store and the workers have one notion of a projection of rungs.** -/
theorem isStoredIdentityRungProjection_eq (v : KgJson) :
    NodeIdentifiers.isStoredIdentityRungProjection (some v) = isIdentityRungProjection v := by
  have hstring : ∀ w : Option KgJson,
      NodeIdentifiers.isString w = w.any isNonEmptyString := by
    intro w
    cases w with
    | none => rfl
    | some w => cases w <;> rfl
  have hoptional : ∀ w : Option KgJson,
      NodeIdentifiers.isOptionalString w = w.all isNonEmptyString := by
    intro w
    cases w with
    | none => rfl
    | some w => exact (Bool.false_or _).trans (hstring (some w))
  have hrung : NodeIdentifiers.isStoredRung = isIdentityRung := by
    funext w
    cases w with
    | object fields =>
      simp only [NodeIdentifiers.isStoredRung, isIdentityRung, hstring, hoptional, KgJson.get?,
        isRecord, Bool.true_and]
      congr 1
      cases fields.lookup "aliasOnly" with
      | none => rfl
      | some w => cases w <;> rfl
    | _ => rfl
  cases v with
  | object fields =>
    simp only [NodeIdentifiers.isStoredIdentityRungProjection, isIdentityRungProjection, hstring,
      hoptional, hrung, KgJson.get?, isRecord, Bool.true_and, Bool.and_assoc]
    refine congrArg₂ and rfl (congrArg₂ and ?_ ((Bool.and_comm _ _).trans (congrArg₂ and ?_ ?_)))
    · cases fields.lookup "primary" with
      | none => rfl
      | some w =>
        cases w with
        | object primary => simp [isPrimaryRung, KgJson.get?, isRecord]
        | _ => rfl
    · cases fields.lookup "rungs" with
      | none => rfl
      | some w => cases w <;> rfl
    · cases fields.lookup "provenance" with
      | none => rfl
      | some w =>
        cases w with
        | object provenance =>
          simp [isSemanticContractProvenance, KgJson.get?, isRecord, Bool.and_assoc]
        | _ => rfl
  | _ => rfl

end IdentityContract
