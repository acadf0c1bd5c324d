import IntuitionCore.Entities.Actions

/-!
# The primary identifier of a node

A node may be known by several identifiers: the one it was parsed as, those that its
providers found, and those that a page names. Each is a rung of a ladder, and one of them
becomes the primary IID of the node, under which it is clustered. A category of nodes has
rungs that may be primary, in order, and rungs that are only ever aliases.

The ladder and the inspection of IIDs are packages of their own, so they are arbitrary
functions here. Whether an IID is only an alias is asked in two ways: an identifier is
listed as one if its rung is an alias of the category, and an IID becomes no primary if an
alias maps the value that the inspection finds in it back to it.
-/

/-- The kind of a scheme. -/
inductive SchemeTyping where
  | unambiguous
  | polymorphic
  deriving DecidableEq, Repr

/-- What the inspection of an IID finds. -/
inductive IidInspection where
  | valid (scheme value : String) (typing : SchemeTyping)
  | invalid (scheme : Option String)
  deriving DecidableEq, Repr

/-- The scheme of an inspection, if it has one. -/
def IidInspection.scheme? : IidInspection → Option String
  | valid scheme _ _ => some scheme
  | invalid scheme => scheme

/-- What an identifier is looked up by, besides the rungs. -/
structure LadderQuery where
  providerCanonicalId : Option String := none
  canonicalUrl : Option String := none
  allowPlainWd : Bool
  deriving DecidableEq, Repr

/-- The injected packages. A table has a value for each key of its own. -/
structure LadderModule where
  identityCategoryRungPolicy : String → Option (List String)
  identityCategoryAliasOnlyPolicy : String → Option (List String)
  schemaTypeIdentityCategories : String → Option String
  identityRungsForCategory : String → List String
  /-- The IID of a rung, a value and a type. -/
  iidForIdentityRung : String → String → Option String → Option String
  isPlainWdPrimaryAllowed : String → Bool
  /-- The IID and the rung of a query. -/
  projectIdentifierLadder : LadderQuery → Option String × Option String
  inspect : String → IidInspection

structure IdentityRungInput where
  /-- The canonical IID of the identity that was parsed. -/
  identity : Option String := none
  schemaType : Option String := none
  category : Option String := none
  providerCanonicalId : Option String := none
  canonicalUrl : Option String := none
  identifiers : String → Option String := fun _ => none

structure IdentityRung where
  rung : String
  value : String
  iid : Option String
  aliasOnly : Bool
  deriving DecidableEq, Repr

structure PrimaryRung where
  rung : String
  iid : String
  deriving DecidableEq, Repr

structure IdentityRungProjection where
  category : Option String
  primary : Option PrimaryRung
  rungs : List IdentityRung
  deriving DecidableEq, Repr

/-- A text that is there and not empty. -/
def truthy (s : Option String) : Option String := s.filter (· ≠ "")

/-- An IID that may be listed. -/
structure RungCandidate where
  scheme : String
  value : String
  typing : SchemeTyping
  aliasRung : Option String
  deriving DecidableEq, Repr

namespace LadderModule

variable (m : LadderModule) (input : IdentityRungInput)

/-- The category of a policy: that of the input if it has one, else that of the type. -/
def categoryOf : Option String :=
  let ofSchema := (truthy input.schemaType).bind m.schemaTypeIdentityCategories
  match truthy input.category with
  | some category =>
    if (m.identityCategoryRungPolicy category).isSome then some category
    else ofSchema <|> input.category
  | none => ofSchema <|> input.category

/-- The rungs that may be primary, in order, if the category has a policy. -/
def policyOf : Option (List String) :=
  (truthy (m.categoryOf input)).bind m.identityCategoryRungPolicy

/-- The rungs that are only ever aliases. -/
def aliasesOf : List String :=
  ((truthy (m.categoryOf input)).bind m.identityCategoryAliasOnlyPolicy).getD []

def allowedPlainWd : Bool := m.isPlainWdPrimaryAllowed (input.schemaType.getD "")

/-- An IID that is valid, and no URL. -/
def inspectRung (iid : String) : Option RungCandidate :=
  match m.inspect iid with
  | .invalid _ => none
  | .valid scheme value typing =>
    if scheme = "url" then none
    else some
      { scheme, value, typing
        aliasRung := (m.aliasesOf input).find? fun rung =>
          rung = scheme ∨ m.iidForIdentityRung rung value input.schemaType = some iid }

/-- A candidate that may be primary. -/
def IsPrimaryAllowed (candidate : RungCandidate) : Prop :=
  truthy candidate.aliasRung = none
    ∧ (candidate.scheme ≠ "wd" ∨ candidate.typing ≠ .polymorphic ∨ m.allowedPlainWd input = true)

instance (candidate : RungCandidate) : Decidable (m.IsPrimaryAllowed input candidate) :=
  inferInstanceAs (Decidable (_ ∧ _))

/-- The rungs that identifiers are looked up for. -/
def identifierRungsOf : List String :=
  if (m.policyOf input).isSome then m.identityRungsForCategory ((m.categoryOf input).getD "")
  else []

/-- The entry of a rung, if it has an identifier that is no URL. -/
def identifierRung (rung : String) : Option IdentityRung :=
  match input.identifiers rung with
  | none => none
  | some value =>
    if jsTrim value = [] then none
    else
      let iid := truthy (m.iidForIdentityRung rung value input.schemaType)
      if ∃ found ∈ iid, (m.inspect found).scheme? = some "url" then none
      else some { rung, value, iid, aliasOnly := rung ∈ m.aliasesOf input }

/-- What was selected and listed so far. -/
structure Selection where
  primary : Option PrimaryRung := none
  rungs : List IdentityRung

/-- The identity that was parsed. -/
def selectIdentity (rungs : List IdentityRung) : Selection :=
  match input.identity with
  | none => { rungs }
  | some canonical =>
    match m.inspectRung input canonical with
    | none => { rungs }
    | some candidate =>
      let rung := candidate.aliasRung.getD candidate.scheme
      { primary :=
          if m.IsPrimaryAllowed input candidate then some { rung, iid := canonical } else none
        rungs :=
          if ∃ entry ∈ rungs, entry.iid = some canonical then rungs
          else
            { rung, value := candidate.value, iid := some canonical
              aliasOnly := (truthy candidate.aliasRung).isSome } :: rungs }

/-- A rung of the policy, if its identifier may be primary. -/
def policyRung (rungs : List IdentityRung) (rung : String) : Option PrimaryRung :=
  if rung ∈ m.aliasesOf input then none
  else do
    let candidate ← rungs.find? fun entry => entry.rung = rung ∧ (truthy entry.iid).isSome
    let iid ← truthy candidate.iid
    let inspected ← m.inspectRung input iid
    if m.IsPrimaryAllowed input inspected then some { rung, iid } else none

/-- The first rung of the policy that may be primary. -/
def selectPolicy (s : Selection) : Selection :=
  match s.primary with
  | some _ => s
  | none =>
    { s with primary := ((m.policyOf input).getD []).findSome? (m.policyRung input s.rungs) }

/-- A page, or what a provider found. -/
def selectFallback (s : Selection) (fallback : LadderQuery) : Selection :=
  match s.primary with
  | some _ => s
  | none =>
    let result := m.projectIdentifierLadder fallback
    match truthy result.1, truthy result.2 with
    | some iid, some resultRung =>
      if resultRung = "url" then s else
      match m.inspectRung input iid with
      | none => s
      | some candidate =>
        { primary :=
            if m.IsPrimaryAllowed input candidate then some { rung := resultRung, iid } else none
          rungs :=
            if ∃ entry ∈ s.rungs, entry.iid = some iid then s.rungs
            else s.rungs ++
              [{ rung := candidate.aliasRung.getD resultRung
                 value := (fallback.providerCanonicalId <|> fallback.canonicalUrl).getD iid
                 iid := some iid
                 aliasOnly := (truthy candidate.aliasRung).isSome }] }
    | _, _ => s

def projectIdentityRungs : IdentityRungProjection :=
  let allowPlainWd := m.allowedPlainWd input
  let identifiers := (m.identifierRungsOf input).filterMap (m.identifierRung input)
  let s := m.selectPolicy input (m.selectIdentity input identifiers)
  let s := m.selectFallback input s
    { providerCanonicalId := input.providerCanonicalId, allowPlainWd }
  let s := m.selectFallback input s { canonicalUrl := input.canonicalUrl, allowPlainWd }
  { category := truthy (m.categoryOf input), primary := s.primary, rungs := s.rungs }

/-! ## What a primary IID must be -/

/-- An IID may be primary: it is valid and no URL, no alias of the category is its scheme or maps
its value to it, and it is not one of Wikidata without a type unless the type of the node allows
it. -/
def Admissible (iid : String) : Prop :=
  ∃ scheme value typing, m.inspect iid = .valid scheme value typing ∧ scheme ≠ "url"
    ∧ (∀ rung ∈ m.aliasesOf input, rung ≠ scheme
      ∧ m.iidForIdentityRung rung value input.schemaType ≠ some iid)
    ∧ (scheme = "wd" → typing = .polymorphic → m.allowedPlainWd input = true)

/-- **What a projection is to be.** -/
structure AdmissibleProjection (r : IdentityRungProjection) : Prop where
  valid : ∀ p ∈ r.primary, ∃ scheme value typing, m.inspect p.iid = .valid scheme value typing
    ∧ scheme ≠ "url"
    ∧ (∀ rung ∈ m.aliasesOf input, m.iidForIdentityRung rung value input.schemaType ≠ some p.iid)
    ∧ (scheme = "wd" → typing = .polymorphic → m.allowedPlainWd input = true)
  listed : ∀ p ∈ r.primary, ∃ e ∈ r.rungs, e.iid = some p.iid
  notAlias : ∀ p ∈ r.primary, ∀ e ∈ r.rungs, e.iid = some p.iid → e.aliasOnly = false
  identity : ∀ iid ∈ input.identity, m.Admissible input iid → ∃ p ∈ r.primary, p.iid = iid
  noUrl : ∀ e ∈ r.rungs, ∀ iid ∈ e.iid, (m.inspect iid).scheme? ≠ some "url"

/-- **Both ways to ask agree**: no alias of the category maps to an IID that may be primary, from
the value that the inspection finds in it or from the identifier of the alias. -/
def Coherent : Prop :=
  ∀ iid, ∀ candidate ∈ m.inspectRung input iid, m.IsPrimaryAllowed input candidate →
    ∀ rung ∈ m.aliasesOf input,
      m.iidForIdentityRung rung candidate.value input.schemaType ≠ some iid
      ∧ (rung ∈ m.identifierRungsOf input → iid ≠ "" → ∀ value ∈ input.identifiers rung,
          jsTrim value ≠ [] → m.iidForIdentityRung rung value input.schemaType ≠ some iid)

/-! ## Inspection -/

variable {m : LadderModule} {input : IdentityRungInput}

lemma mem_inspectRung {iid : String} {candidate : RungCandidate} :
    candidate ∈ m.inspectRung input iid
      ↔ m.inspect iid = .valid candidate.scheme candidate.value candidate.typing
        ∧ candidate.scheme ≠ "url"
        ∧ candidate.aliasRung = (m.aliasesOf input).find? fun rung =>
            rung = candidate.scheme
              ∨ m.iidForIdentityRung rung candidate.value input.schemaType = some iid := by
  rw [inspectRung]
  cases hi : m.inspect iid with
  | invalid scheme => simp
  | valid scheme value typing =>
    by_cases hu : scheme = "url"
    · simp [hu]
      grind
    · rcases candidate with ⟨scheme', value', typing', aliasRung'⟩
      simp only [hu, ↓reduceIte, Option.mem_def, Option.some.injEq, RungCandidate.mk.injEq,
        IidInspection.valid.injEq]
      constructor
      · rintro ⟨rfl, rfl, rfl, rfl⟩
        exact ⟨⟨rfl, rfl, rfl⟩, hu, rfl⟩
      · rintro ⟨⟨rfl, rfl, rfl⟩, -, ha⟩
        exact ⟨rfl, rfl, rfl, ha.symm⟩

/-- An IID that was inspected is no URL. -/
lemma scheme_ne_url {iid : String} {candidate : RungCandidate}
    (h : candidate ∈ m.inspectRung input iid) : (m.inspect iid).scheme? ≠ some "url" := by
  obtain ⟨hi, hu, -⟩ := mem_inspectRung.mp h
  rw [hi]
  simpa [IidInspection.scheme?] using hu

/-- An admissible IID is a candidate that no alias takes. -/
lemma Admissible.candidate {iid : String} (h : m.Admissible input iid) :
    ∃ candidate ∈ m.inspectRung input iid, candidate.aliasRung = none
      ∧ m.IsPrimaryAllowed input candidate := by
  obtain ⟨scheme, value, typing, hi, hu, ha, hw⟩ := h
  refine ⟨{ scheme, value, typing, aliasRung := none }, mem_inspectRung.mpr ⟨hi, hu, ?_⟩, rfl,
    rfl, ?_⟩
  · rw [eq_comm, List.find?_eq_none]
    intro rung hr
    simpa using ha rung hr
  · by_cases h₁ : scheme = "wd"
    · by_cases h₂ : typing = .polymorphic
      · exact .inr (.inr (hw h₁ h₂))
      · exact .inr (.inl h₂)
    · exact .inl h₁

/-! ## The three sources -/

/-- An identifier of an alias is listed for an IID. -/
def ListsAlias (m : LadderModule) (input : IdentityRungInput) (iid : String) : Prop :=
  ∃ rung ∈ m.aliasesOf input, rung ∈ m.identifierRungsOf input
    ∧ ∃ value ∈ input.identifiers rung, jsTrim value ≠ []
      ∧ m.iidForIdentityRung rung value input.schemaType = some iid

/-- An IID is one that an alias takes. -/
def TakenByAlias (m : LadderModule) (input : IdentityRungInput) (iid : String) : Prop :=
  ∃ candidate ∈ m.inspectRung input iid, (truthy candidate.aliasRung).isSome

/-- **What holds after each source**: no entry is a URL, an entry is an alias for one of two
reasons, and the primary IID is allowed and listed. -/
structure Selection.Sound (m : LadderModule) (input : IdentityRungInput) (s : Selection) :
    Prop where
  noUrl : ∀ e ∈ s.rungs, ∀ iid ∈ e.iid, (m.inspect iid).scheme? ≠ some "url"
  isAlias : ∀ e ∈ s.rungs, ∀ iid ∈ e.iid, e.aliasOnly = true →
    iid ≠ "" ∧ ListsAlias m input iid ∨ TakenByAlias m input iid
  allowed : ∀ p ∈ s.primary,
    ∃ candidate ∈ m.inspectRung input p.iid, m.IsPrimaryAllowed input candidate
  listed : ∀ p ∈ s.primary, ∃ e ∈ s.rungs, e.iid = some p.iid

lemma mem_truthy {s : Option String} {a : String} : a ∈ truthy s ↔ s = some a ∧ a ≠ "" := by
  simp [truthy, Option.filter_eq_some_iff]

lemma truthy_eq_some {s : Option String} {a : String} :
    truthy s = some a ↔ s = some a ∧ a ≠ "" := mem_truthy

lemma mem_identifierRung {rung : String} {e : IdentityRung} :
    e ∈ m.identifierRung input rung
      ↔ ∃ value ∈ input.identifiers rung, jsTrim value ≠ []
        ∧ (∀ iid ∈ truthy (m.iidForIdentityRung rung value input.schemaType),
            (m.inspect iid).scheme? ≠ some "url")
        ∧ e = { rung, value, iid := truthy (m.iidForIdentityRung rung value input.schemaType)
                aliasOnly := decide (rung ∈ m.aliasesOf input) } := by
  rw [identifierRung]
  cases hv : input.identifiers rung with
  | none => simp
  | some value =>
    by_cases ht : jsTrim value = []
    · simp [ht]
    · simp only [ht, ↓reduceIte, Option.mem_def, Option.some.injEq, exists_eq_left', ne_eq,
        not_false_eq_true, true_and]
      split
      case isTrue h =>
        obtain ⟨found, hf, hu⟩ := h
        simp only [reduceCtorEq, false_iff, not_and]
        intro h
        exact absurd hu (h found hf)
      case isFalse h =>
        push Not at h
        simp only [Option.some.injEq, eq_comm (b := e)]
        exact ⟨fun he => ⟨h, he⟩, fun he => he.2⟩

/-- The identifiers are listed as they should. -/
lemma sound_identifiers :
    Selection.Sound m input
      { rungs := (m.identifierRungsOf input).filterMap (m.identifierRung input) } where
  noUrl := by
    intro e he iid hi
    obtain ⟨rung, hr, he⟩ := List.mem_filterMap.mp he
    obtain ⟨value, hv, ht, hu, rfl⟩ := mem_identifierRung.mp he
    exact hu iid hi
  isAlias := by
    intro e he iid hi ha
    obtain ⟨rung, hr, he⟩ := List.mem_filterMap.mp he
    obtain ⟨value, hv, ht, hu, rfl⟩ := mem_identifierRung.mp he
    obtain ⟨hi, hne⟩ := mem_truthy.mp hi
    exact .inl ⟨hne, rung, of_decide_eq_true ha, hr, value, hv, ht, hi⟩
  allowed := by simp
  listed := by simp

/-- One more entry for a candidate, whatever its rung and value. -/
lemma Selection.Sound.list {s : Selection} (hs : s.Sound m input) {iid : String}
    {candidate : RungCandidate} (hc : candidate ∈ m.inspectRung input iid) {entry : IdentityRung}
    (hi : entry.iid = some iid) (ha : entry.aliasOnly = (truthy candidate.aliasRung).isSome)
    {rungs : List IdentityRung} (hr : ∀ e, e ∈ rungs ↔ e ∈ s.rungs ∨ e = entry) :
    Selection.Sound m input { s with rungs } where
  noUrl := by
    intro e he i hei
    obtain he | rfl := (hr e).mp he
    · exact hs.noUrl e he i hei
    · obtain rfl : iid = i := Option.some.inj (hi.symm.trans hei)
      exact scheme_ne_url hc
  isAlias := by
    intro e he i hei hea
    obtain he | rfl := (hr e).mp he
    · exact hs.isAlias e he i hei hea
    · obtain rfl : iid = i := Option.some.inj (hi.symm.trans hei)
      exact .inr ⟨candidate, hc, ha ▸ hea⟩
  allowed := hs.allowed
  listed := by
    intro p hp
    obtain ⟨e, he, hi⟩ := hs.listed p hp
    exact ⟨e, (hr e).mpr (.inl he), hi⟩

/-- A candidate becomes primary once it is listed. -/
lemma Selection.Sound.choose {s : Selection} (hs : s.Sound m input) {p : PrimaryRung}
    {candidate : RungCandidate} (hc : candidate ∈ m.inspectRung input p.iid)
    (ha : m.IsPrimaryAllowed input candidate) (hl : ∃ e ∈ s.rungs, e.iid = some p.iid) :
    Selection.Sound m input { s with primary := some p } where
  noUrl := hs.noUrl
  isAlias := hs.isAlias
  allowed := by
    rintro q ⟨⟩
    exact ⟨candidate, hc, ha⟩
  listed := by
    rintro q ⟨⟩
    exact hl

lemma Selection.Sound.drop {s : Selection} (hs : s.Sound m input) :
    Selection.Sound m input { s with primary := none } where
  noUrl := hs.noUrl
  isAlias := hs.isAlias
  allowed := by simp
  listed := by simp

/-- A candidate is listed unless its IID is, and becomes primary if it may. -/
lemma Selection.Sound.offer {s : Selection} (hs : s.Sound m input) {iid : String}
    {candidate : RungCandidate} (hc : candidate ∈ m.inspectRung input iid) (rung : String)
    {entry : IdentityRung} (hi : entry.iid = some iid)
    (ha : entry.aliasOnly = (truthy candidate.aliasRung).isSome) {rungs : List IdentityRung}
    (hr : ∀ e, e ∈ rungs ↔ e ∈ s.rungs ∨ e = entry) :
    Selection.Sound m input
      { primary := if m.IsPrimaryAllowed input candidate then some { rung, iid } else none
        rungs := if ∃ e ∈ s.rungs, e.iid = some iid then s.rungs else rungs } := by
  -- the list first, then the primary
  have key : ∃ s' : Selection, s'.Sound m input ∧ (∃ e ∈ s'.rungs, e.iid = some iid)
      ∧ s'.rungs = if ∃ e ∈ s.rungs, e.iid = some iid then s.rungs else rungs := by
    split
    case isTrue h => exact ⟨s, hs, h, rfl⟩
    case isFalse h =>
      exact ⟨{ s with rungs }, hs.list hc hi ha hr, ⟨entry, (hr entry).mpr (.inr rfl), hi⟩, rfl⟩
  obtain ⟨s', hs', hl, he⟩ := key
  rw [← he]
  split
  case isTrue h => exact hs'.choose hc h hl
  case isFalse => exact hs'.drop

/-- The identity that was parsed is selected as it should. -/
lemma sound_selectIdentity {rungs : List IdentityRung}
    (hs : Selection.Sound m input { rungs }) :
    (m.selectIdentity input rungs).Sound m input := by
  rw [selectIdentity]
  cases input.identity with
  | none => exact hs
  | some canonical =>
    dsimp only
    cases hc : m.inspectRung input canonical with
    | none => exact hs
    | some candidate =>
      refine hs.offer hc _ ?_ ?_ fun e => List.mem_cons.trans or_comm
      · rfl
      · rfl

/-- A rung of the policy selects an entry of the list. -/
lemma mem_policyRung {rungs : List IdentityRung} {rung : String} {p : PrimaryRung}
    (h : p ∈ m.policyRung input rungs rung) :
    ∃ candidate ∈ m.inspectRung input p.iid, m.IsPrimaryAllowed input candidate
      ∧ ∃ e ∈ rungs, e.iid = some p.iid := by
  rw [policyRung] at h
  split at h
  · cases h
  · simp only [Option.bind_eq_bind, Option.mem_def, Option.bind_eq_some_iff] at h
    obtain ⟨e, he, iid, hi, inspected, hc, h⟩ := h
    split at h
    case isFalse => cases h
    case isTrue hp =>
      cases h
      exact ⟨inspected, hc, hp, e, List.mem_of_find?_eq_some he, (truthy_eq_some.mp hi).1⟩

/-- The first rung of the policy is selected as it should. -/
lemma sound_selectPolicy {s : Selection} (hs : s.Sound m input) :
    (m.selectPolicy input s).Sound m input := by
  rw [selectPolicy]
  cases s.primary with
  | some p => exact hs
  | none =>
    dsimp only
    cases hf : ((m.policyOf input).getD []).findSome? (m.policyRung input s.rungs) with
    | none => exact hs.drop
    | some p =>
      obtain ⟨rung, -, hp⟩ := List.exists_of_findSome?_eq_some hf
      obtain ⟨candidate, hc, ha, hl⟩ := mem_policyRung hp
      exact hs.choose hc ha hl

/-- A fallback is selected as it should. -/
lemma sound_selectFallback {s : Selection} (hs : s.Sound m input) (fallback : LadderQuery) :
    (m.selectFallback input s fallback).Sound m input := by
  rw [selectFallback]
  cases s.primary with
  | some p => exact hs
  | none =>
    dsimp only
    split
    case h_2 => exact hs
    case h_1 iid rung _ _ =>
      split
      · exact hs
      · cases hc : m.inspectRung input iid with
        | none => exact hs
        | some candidate =>
          refine hs.offer hc _ ?_ ?_ fun e =>
            List.mem_append.trans (or_congr_right List.mem_singleton)
          · rfl
          · rfl

/-! ## The projection -/

/-- What a projection selects. -/
def selection (m : LadderModule) (input : IdentityRungInput) : Selection :=
  { primary := (m.projectIdentityRungs input).primary
    rungs := (m.projectIdentityRungs input).rungs }

lemma sound_projectIdentityRungs : (m.selection input).Sound m input :=
  sound_selectFallback (sound_selectFallback
    (sound_selectPolicy (sound_selectIdentity sound_identifiers)) _) _

/-- Once selected, a primary stays. -/
lemma selectFallback_primary {s : Selection} {p : PrimaryRung} (h : s.primary = some p)
    (fallback : LadderQuery) : (m.selectFallback input s fallback).primary = some p := by
  simp [selectFallback, h]

/-- An admissible identity is the primary. -/
lemma primary_of_identity {iid : String} (hid : input.identity = some iid)
    (h : m.Admissible input iid) :
    ∃ p ∈ (m.projectIdentityRungs input).primary, p.iid = iid := by
  obtain ⟨candidate, hc, ha, hp⟩ := h.candidate
  rw [Option.mem_def] at hc
  refine ⟨{ rung := candidate.scheme, iid }, selectFallback_primary (selectFallback_primary ?_ _) _,
    rfl⟩
  simp [selectPolicy, selectIdentity, hid, hc, hp, ha]

/-- Where both ways to ask agree, the projection is what it is to be. -/
theorem Coherent.admissible (h : m.Coherent input) :
    m.AdmissibleProjection input (m.projectIdentityRungs input) where
  valid := by
    intro p hp
    obtain ⟨candidate, hc, ha⟩ := sound_projectIdentityRungs.allowed p hp
    obtain ⟨hi, hu, -⟩ := mem_inspectRung.mp hc
    refine ⟨candidate.scheme, candidate.value, candidate.typing, hi, hu, ?_, ?_⟩
    · exact fun rung hr => (h p.iid candidate hc ha rung hr).1
    · intro hw ht
      exact (ha.2.resolve_left (not_not_intro hw)).resolve_left (not_not_intro ht)
  listed := sound_projectIdentityRungs.listed
  notAlias := by
    intro p hp e he hi
    obtain ⟨candidate, hc, ha⟩ := sound_projectIdentityRungs.allowed p hp
    by_contra hne
    rw [Bool.not_eq_false] at hne
    obtain ⟨hemp, rung, hr, hl, value, hv, ht, hm⟩ | ⟨candidate', hc', hsome⟩ :=
      sound_projectIdentityRungs.isAlias e he p.iid hi hne
    · exact (h p.iid candidate hc ha rung hr).2 hl hemp value hv ht hm
    · obtain rfl : candidate = candidate' := Option.some.inj (hc.symm.trans hc')
      simp [ha.1] at hsome
  identity := fun iid hid => primary_of_identity hid
  noUrl := sound_projectIdentityRungs.noUrl

lemma mem_selectIdentity {rungs : List IdentityRung} {e : IdentityRung} (h : e ∈ rungs) :
    e ∈ (m.selectIdentity input rungs).rungs := by
  rw [selectIdentity]
  cases input.identity with
  | none => exact h
  | some canonical =>
    dsimp only
    cases m.inspectRung input canonical with
    | none => exact h
    | some candidate =>
      dsimp only
      split
      · exact h
      · exact List.mem_cons_of_mem _ h

lemma selectPolicy_rungs (s : Selection) : (m.selectPolicy input s).rungs = s.rungs := by
  rw [selectPolicy]
  cases s.primary with
  | some p => rfl
  | none => rfl

lemma mem_selectFallback {s : Selection} (fallback : LadderQuery) {e : IdentityRung}
    (h : e ∈ s.rungs) : e ∈ (m.selectFallback input s fallback).rungs := by
  rw [selectFallback]
  cases s.primary with
  | some p => exact h
  | none =>
    dsimp only
    split
    case h_2 => exact h
    case h_1 iid rung _ _ =>
      split
      · exact h
      · cases m.inspectRung input iid with
        | none => exact h
        | some candidate =>
          dsimp only
          split
          · exact h
          · exact List.mem_append_left _ h

/-- An identifier of an alias is listed as an alias, whatever is selected. -/
lemma exists_aliasOnly_of_listsAlias {iid : String} (hne : iid ≠ "")
    (hu : (m.inspect iid).scheme? ≠ some "url") (h : ListsAlias m input iid) :
    ∃ e ∈ (m.projectIdentityRungs input).rungs, e.iid = some iid ∧ e.aliasOnly = true := by
  obtain ⟨rung, hr, hl, value, hv, ht, hm⟩ := h
  have hi : truthy (m.iidForIdentityRung rung value input.schemaType) = some iid :=
    truthy_eq_some.mpr ⟨hm, hne⟩
  refine ⟨{ rung, value, iid := some iid, aliasOnly := true }, ?_, rfl, rfl⟩
  refine mem_selectFallback _ (mem_selectFallback _ ?_)
  rw [selectPolicy_rungs]
  refine mem_selectIdentity (List.mem_filterMap.mpr ⟨rung, hl, mem_identifierRung.mpr ?_⟩)
  refine ⟨value, hv, ht, fun found hf => ?_, by simp [hi, hr]⟩
  obtain rfl : iid = found := Option.some.inj (hi.symm.trans hf)
  exact hu

/-- Offered as the identity, an IID that may be primary is. -/
lemma primary_of_allowed {iid : String} {candidate : RungCandidate}
    (hid : input.identity = some iid) (hc : candidate ∈ m.inspectRung input iid)
    (ha : m.IsPrimaryAllowed input candidate) :
    ∃ p ∈ (m.projectIdentityRungs input).primary, p.iid = iid := by
  rw [Option.mem_def] at hc
  refine ⟨{ rung := candidate.aliasRung.getD candidate.scheme, iid },
    selectFallback_primary (selectFallback_primary ?_ _) _, rfl⟩
  simp [selectPolicy, selectIdentity, hid, hc, ha]

/-- **The ways to ask whether an IID is only an alias have to agree.** Where they do for an input
its projection is as it is to be, and every projection of an input is exactly if they do for every
input. -/
theorem admissibleProjection_iff (m : LadderModule) :
    (∀ input, m.Coherent input → m.AdmissibleProjection input (m.projectIdentityRungs input))
    ∧ ((∀ input, m.AdmissibleProjection input (m.projectIdentityRungs input))
      ↔ ∀ input, m.Coherent input) := by
  refine ⟨fun input => Coherent.admissible, ?_, fun h input => (h input).admissible⟩
  intro h input iid candidate hc ha rung hr
  -- the same input, with the IID as its identity
  let input' : IdentityRungInput := { input with identity := some iid }
  have hid : input'.identity = some iid := rfl
  obtain ⟨p, hp, rfl⟩ := primary_of_allowed hid hc ha
  constructor
  · obtain ⟨scheme, value, typing, hi, -, hal, -⟩ := (h input').valid p hp
    obtain ⟨hi', -, -⟩ := mem_inspectRung.mp hc
    obtain ⟨-, rfl, -⟩ := IidInspection.valid.inj (hi.symm.trans hi')
    exact hal rung hr
  · intro hl hne value hv ht hm
    have halias : ListsAlias m input' p.iid := ⟨rung, hr, hl, value, hv, ht, hm⟩
    obtain ⟨e, he, hei, hea⟩ := exists_aliasOnly_of_listsAlias hne (scheme_ne_url hc) halias
    rw [(h input').notAlias p hp e he hei] at hea
    cases hea

/-- A ladder by which the Spotify identifiers of albums are aliases. Their IIDs are inspected as
ones of the scheme `spotify`, with a value that begins with the rest of the rung. -/
def spotifyAliasModule : LadderModule where
  identityCategoryRungPolicy category :=
    if category = "album" then some ["mbid:release-group", "wd"] else none
  identityCategoryAliasOnlyPolicy category :=
    if category = "album" then some ["gtin", "spotify:album"] else none
  schemaTypeIdentityCategories schemaType :=
    if schemaType = "MusicAlbum" then some "album" else none
  identityRungsForCategory _ := ["mbid:release-group", "wd", "gtin", "spotify:album"]
  iidForIdentityRung rung value _ := some ("int:" ++ rung ++ ":" ++ value)
  isPlainWdPrimaryAllowed _ := false
  projectIdentifierLadder _ := (none, none)
  inspect iid :=
    if iid = "int:spotify:album:provider-id" then .valid "spotify" "album:provider-id" .unambiguous
    else .invalid none

def spotifyAliasInput : IdentityRungInput where
  identity := some "int:spotify:album:provider-id"
  schemaType := some "MusicAlbum"
  identifiers rung := if rung = "spotify:album" then some "provider-id" else none

/-- An identifier that is listed as an alias is the primary. -/
theorem projectIdentityRungs_spotifyAlias :
    spotifyAliasModule.projectIdentityRungs spotifyAliasInput
      = { category := some "album"
          primary := some { rung := "spotify", iid := "int:spotify:album:provider-id" }
          rungs := [{ rung := "spotify:album", value := "provider-id"
                      iid := some "int:spotify:album:provider-id", aliasOnly := true }] }
    ∧ ¬ spotifyAliasModule.AdmissibleProjection spotifyAliasInput
        (spotifyAliasModule.projectIdentityRungs spotifyAliasInput) := by
  have hr : spotifyAliasModule.projectIdentityRungs spotifyAliasInput
      = { category := some "album"
          primary := some { rung := "spotify", iid := "int:spotify:album:provider-id" }
          rungs := [{ rung := "spotify:album", value := "provider-id"
                      iid := some "int:spotify:album:provider-id", aliasOnly := true }] } := by
    decide +kernel
  refine ⟨hr, fun h => ?_⟩
  rw [hr] at h
  exact absurd (h.notAlias _ rfl _ (List.mem_singleton_self _) rfl) (by decide)

end LadderModule
