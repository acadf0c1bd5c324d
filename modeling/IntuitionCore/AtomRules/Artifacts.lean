import IntuitionCore.Entities.Actions
import IntuitionCore.Library.Result
import IntuitionCore.Processing.Nodes
import Mathlib.Data.Nat.Digits.Defs
import Mathlib.Data.List.Basic

/-!
# The artifacts of an atom, as the rules see them

What the providers found out about an atom is stored by several services, each in a shape of
its own. The rules see those artifacts that have a known slug and data which the schema of the
slug accepts; the others are left out.

Whether a slug is known is asked of the object that holds the schemas, with `in`. What that
object inherits from `Object.prototype` is found too, and it is no schema: to parse with it
throws, and nothing is returned for any of the artifacts.
-/

namespace AtomRules

/-- What `new URL` reads in a text. -/
structure Url where
  protocol : String
  hostname : String
  pathname : String
  deriving DecidableEq, Repr

abbrev RawRecord := List (String × KgJson)

/-- The slugs that are known. -/
inductive CanonicalEnrichmentArtifactSlug where
  | appleMusic
  | brand
  | companyProfile
  | etherscan
  | favicon
  | githubRepo
  | githubUser
  | musicbrainz
  | npmPackage
  | oembed
  | opengraph
  | places
  | productListing
  | spotify
  | tmdb
  | tokenMetadata
  | twitterProfile
  | wikidata
  | wikipedia
  | xProfile
  | youtube
  deriving DecidableEq, Repr

/-- The schemas of the provider data. -/
inductive ProviderDataSchema where
  | appleMusic
  | brand
  | companyProfile
  | etherscan
  | favicon
  | githubRepo
  | githubUser
  | musicbrainz
  | npmPackage
  | oembed
  | opengraph
  | places
  | productListing
  | spotify
  | tmdb
  | tokenMetadata
  | wikidata
  | wikipedia
  | xProfile
  | youtube
  deriving DecidableEq, Repr

/-- What the runtime and the packages do: how a text is read as a URL, which slug an alias
stands for, and what a schema makes of some data that it accepts. -/
structure RulesEnv where
  parseUrl : String → Option Url
  canonicalizeEnrichmentSlug : String → String
  safeParse : ProviderDataSchema → RawRecord → Option RawRecord

/-! ## Slugs and schemas -/

namespace CanonicalEnrichmentArtifactSlug

def name : CanonicalEnrichmentArtifactSlug → String
  | appleMusic => "apple-music"
  | brand => "brand"
  | companyProfile => "company-profile"
  | etherscan => "etherscan"
  | favicon => "favicon"
  | githubRepo => "github-repo"
  | githubUser => "github-user"
  | musicbrainz => "musicbrainz"
  | npmPackage => "npm-package"
  | oembed => "oembed"
  | opengraph => "opengraph"
  | places => "places"
  | productListing => "product-listing"
  | spotify => "spotify"
  | tmdb => "tmdb"
  | tokenMetadata => "token-metadata"
  | twitterProfile => "twitter-profile"
  | wikidata => "wikidata"
  | wikipedia => "wikipedia"
  | xProfile => "x-profile"
  | youtube => "youtube"

def all : List CanonicalEnrichmentArtifactSlug :=
  [appleMusic, brand, companyProfile, etherscan, favicon, githubRepo, githubUser, musicbrainz,
    npmPackage, oembed, opengraph, places, productListing, spotify, tmdb, tokenMetadata,
    twitterProfile, wikidata, wikipedia, xProfile, youtube]

end CanonicalEnrichmentArtifactSlug

/-- The schemas, by slug. -/
def canonicalArtifactDataSchemaBySlug : CanonicalEnrichmentArtifactSlug → ProviderDataSchema
  | .appleMusic => .appleMusic
  | .brand => .brand
  | .companyProfile => .companyProfile
  | .etherscan => .etherscan
  | .favicon => .favicon
  | .githubRepo => .githubRepo
  | .githubUser => .githubUser
  | .musicbrainz => .musicbrainz
  | .npmPackage => .npmPackage
  | .oembed => .oembed
  | .opengraph => .opengraph
  | .places => .places
  | .productListing => .productListing
  | .spotify => .spotify
  | .tmdb => .tmdb
  | .tokenMetadata => .tokenMetadata
  | .twitterProfile => .xProfile
  | .wikidata => .wikidata
  | .wikipedia => .wikipedia
  | .xProfile => .xProfile
  | .youtube => .youtube

/-- The properties that every object inherits. -/
def objectPrototype : List String :=
  ["constructor", "__defineGetter__", "__defineSetter__", "hasOwnProperty", "__lookupGetter__",
    "__lookupSetter__", "isPrototypeOf", "propertyIsEnumerable", "toString", "valueOf",
    "__proto__", "toLocaleString"]

/-- A property of the object of the schemas: one of its own, or one that it inherits. -/
inductive SchemaProperty where
  | own (slug : CanonicalEnrichmentArtifactSlug)
  | inherited (name : String)
  deriving DecidableEq, Repr

/-- `isCanonicalEnrichmentArtifactSlug`: the property that `in` finds, if it finds one. -/
def isCanonicalEnrichmentArtifactSlug (value : String) : Option SchemaProperty :=
  match CanonicalEnrichmentArtifactSlug.all.find? fun slug => slug.name = value with
  | some slug => some (.own slug)
  | none => if value ∈ objectPrototype then some (.inherited value) else none

/-- What is thrown where a property that is called is no function. -/
inductive RulesError where
  | typeError
  deriving DecidableEq, Repr

/-- What a schema makes of some data, if it accepts them. An inherited property has no
`safeParse`. -/
def parseCanonicalArtifactData (env : RulesEnv) (property : SchemaProperty) (data : RawRecord) :
    Except RulesError (Option (CanonicalEnrichmentArtifactSlug × RawRecord)) :=
  match property with
  | .own slug => .ok
    ((env.safeParse (canonicalArtifactDataSchemaBySlug slug) data).map fun data => (slug, data))
  | .inherited _ => .error .typeError

/-- The slug that a text stands for. -/
def canonicalizeKnownArtifactSlug (env : RulesEnv) (value : Option String) :
    Option SchemaProperty :=
  match value with
  | none | some "" => none
  | some "coingecko" => some (.own .tokenMetadata)
  | some "npm" => some (.own .npmPackage)
  | some value => isCanonicalEnrichmentArtifactSlug (env.canonicalizeEnrichmentSlug value)

/-! ## Records -/

def toRecord : Option KgJson → Option RawRecord
  | some (.object fields) => some fields
  | _ => none

/-- A text that is not blank, trimmed. -/
def readString : Option KgJson → Option String
  | some (.string s) => if jsTrim s = [] then none else some (.ofList (jsTrim s))
  | _ => none

def isHttpUrl (env : RulesEnv) (value : Option String) : Bool :=
  (value.filter (· ≠ "")).any fun value =>
    (env.parseUrl value).any fun parsed => parsed.protocol = "http:" ∨ parsed.protocol = "https:"

def resolveFirstHttpUrl (env : RulesEnv) (candidates : List (Option String)) : Option String :=
  (candidates.find? (isHttpUrl env)).join

/-- An artifact as it is stored. -/
structure PersistedEnrichmentArtifactInput where
  id : Option String := none
  type : Option String := none
  classification : Option String := none
  data : Option KgJson := none
  linkData : Option KgJson := none

/-- An artifact as a process returns it. -/
structure ProcessEnrichmentArtifactInput where
  artifactType : String
  data : RawRecord
  pluginId : String
  provider : String
  fetchedAt : Option String := none
  sourceUrl : Option String := none

structure CanonicalEnrichmentArtifactMeta where
  sourceUrl : Option String
  pluginId : Option String
  provider : Option String
  fetchedAt : Option String

/-- An artifact as the rules see it. -/
structure CanonicalEnrichmentArtifact where
  id : String
  slug : CanonicalEnrichmentArtifactSlug
  artifactType : CanonicalEnrichmentArtifactSlug
  classification : Option String
  recordType : Option String
  provider : Option String
  sourceUrl : Option String
  info : CanonicalEnrichmentArtifactMeta
  rawData : RawRecord
  innerData : RawRecord
  linkData : RawRecord
  resolvedAtom : Option RawRecord
  data : RawRecord

/-! ## Normal forms -/

/-- `toString(36)`. -/
def toString36 (n : ℕ) : List Char :=
  ((if n = 0 then [0] else Nat.digits 36 n).map fun d =>
    Char.ofNat (if d < 10 then 48 + d else 87 + d)).reverse

/-- The id of an artifact that has none, by the number of those before it. -/
def artifactId (slug : CanonicalEnrichmentArtifactSlug) (n : ℕ) : String :=
  .ofList (slug.name.toList ++ '-' :: toString36 n)

/-- The artifacts that are normalized so far, with another one if it is accepted. -/
def normalizeNext {α : Type} (env : RulesEnv) (slugOf : α → Option SchemaProperty)
    (dataOf : α → RawRecord)
    (entryOf : ℕ → CanonicalEnrichmentArtifactSlug × RawRecord → α →
      CanonicalEnrichmentArtifact)
    (normalized : List CanonicalEnrichmentArtifact) (artifact : α) :
    Except RulesError (List CanonicalEnrichmentArtifact) :=
  match slugOf artifact with
  | none => .ok normalized
  | some property => do
    match ← parseCanonicalArtifactData env property (dataOf artifact) with
    | none => .ok normalized
    | some parsed => .ok (normalized ++ [entryOf normalized.length parsed artifact])

namespace PersistedEnrichmentArtifactInput

variable (artifact : PersistedEnrichmentArtifactInput)

def rawData : RawRecord := (toRecord artifact.data).getD []

def innerData : RawRecord := (toRecord (artifact.rawData.lookup "data")).getD artifact.rawData

def linkRecord : RawRecord := (toRecord artifact.linkData).getD []

def info : RawRecord := (toRecord (artifact.rawData.lookup "meta")).getD []

/-- The slug that is stored, in the first of the places where it may be. -/
def rawSlug : Option String :=
  (readString (artifact.linkRecord.lookup "artifactType")).or
    ((readString (artifact.rawData.lookup "artifactType")).or
      ((readString (artifact.rawData.lookup "classification")).or
        ((readString (artifact.info.lookup "pluginId")).or
          (readString (artifact.linkRecord.lookup "pluginId")))))

/-- The slug of an artifact. Artifacts of GitHub are told apart by their data. -/
def resolveCanonicalArtifactSlug (env : RulesEnv) : Option SchemaProperty :=
  if artifact.rawSlug = some "github" ∧ (readString (artifact.innerData.lookup "fullName")).isSome
  then some (.own .githubRepo)
  else if artifact.rawSlug = some "github" ∧ (readString (artifact.innerData.lookup "login")).isSome
  then some (.own .githubUser)
  else canonicalizeKnownArtifactSlug env artifact.rawSlug

/-- The artifact as the rules see it. -/
def entry (env : RulesEnv) (n : ℕ) (parsed : CanonicalEnrichmentArtifactSlug × RawRecord) :
    CanonicalEnrichmentArtifact :=
  let sourceUrl := resolveFirstHttpUrl env
    [readString (artifact.linkRecord.lookup "sourceUrl"),
      readString (artifact.info.lookup "sourceUrl")]
  let provider := (readString (artifact.info.lookup "provider")).or
    (readString (artifact.linkRecord.lookup "provider"))
  let pluginId := (readString (artifact.info.lookup "pluginId")).or
    (readString (artifact.linkRecord.lookup "pluginId"))
  { id := artifact.id.getD (artifactId parsed.1 n)
    slug := parsed.1
    artifactType := parsed.1
    classification := artifact.classification
    recordType := artifact.type
    provider := provider
    sourceUrl := sourceUrl
    info := ⟨sourceUrl, pluginId, provider, readString (artifact.info.lookup "fetchedAt")⟩
    rawData := artifact.rawData
    innerData := artifact.innerData
    linkData := artifact.linkRecord
    resolvedAtom := toRecord (artifact.rawData.lookup "resolvedAtom")
    data := parsed.2 }

end PersistedEnrichmentArtifactInput

def normalizePersistedEnrichmentArtifacts (env : RulesEnv)
    (artifacts : List PersistedEnrichmentArtifactInput) :
    Except RulesError (List CanonicalEnrichmentArtifact) :=
  artifacts.foldlM (normalizeNext env (·.resolveCanonicalArtifactSlug env) (·.innerData)
    fun n parsed artifact => artifact.entry env n parsed) []

namespace ProcessEnrichmentArtifactInput

variable (artifact : ProcessEnrichmentArtifactInput)

/-- The fields of a record that are given. -/
def givenFields (fields : List (String × Option String)) : RawRecord :=
  fields.filterMap fun field => field.2.map fun value => (field.1, .string value)

/-- The artifact as the rules see it. -/
def entry (env : RulesEnv) (n : ℕ) (parsed : CanonicalEnrichmentArtifactSlug × RawRecord) :
    CanonicalEnrichmentArtifact :=
  let sourceUrl := resolveFirstHttpUrl env [artifact.sourceUrl]
  { id := artifactId parsed.1 n
    slug := parsed.1
    artifactType := parsed.1
    classification := some parsed.1.name
    recordType := some "json"
    provider := some artifact.provider
    sourceUrl := sourceUrl
    info := ⟨sourceUrl, some artifact.pluginId, some artifact.provider, artifact.fetchedAt⟩
    rawData :=
      [("artifactType", .string artifact.artifactType), ("data", .object artifact.data),
        ("meta", .object (givenFields [("pluginId", some artifact.pluginId),
          ("provider", some artifact.provider), ("fetchedAt", artifact.fetchedAt),
          ("sourceUrl", artifact.sourceUrl)]))]
    innerData := artifact.data
    linkData := givenFields [("artifactType", some artifact.artifactType),
      ("pluginId", some artifact.pluginId), ("provider", some artifact.provider),
      ("sourceUrl", sourceUrl)]
    resolvedAtom := none
    data := parsed.2 }

end ProcessEnrichmentArtifactInput

def normalizeProcessEnrichmentArtifacts (env : RulesEnv)
    (artifacts : List ProcessEnrichmentArtifactInput) :
    Except RulesError (List CanonicalEnrichmentArtifact) :=
  artifacts.foldlM (normalizeNext env
    (fun artifact => canonicalizeKnownArtifactSlug env (some artifact.artifactType)) (·.data)
    fun n parsed artifact => artifact.entry env n parsed) []

/-! ## What is kept -/

section Kept

variable {α : Type} {env : RulesEnv} {slugOf : α → Option SchemaProperty}
  {dataOf : α → RawRecord}
  {entryOf : ℕ → CanonicalEnrichmentArtifactSlug × RawRecord → α → CanonicalEnrichmentArtifact}
  {artifacts : List α}

/-- What the schema of its slug makes of an artifact, if the slug is known and the data are
accepted. -/
def accepted (env : RulesEnv) (slugOf : α → Option SchemaProperty) (dataOf : α → RawRecord)
    (artifact : α) : Option (CanonicalEnrichmentArtifactSlug × RawRecord) :=
  match slugOf artifact with
  | some (.own slug) =>
    (env.safeParse (canonicalArtifactDataSchemaBySlug slug) (dataOf artifact)).map (slug, ·)
  | _ => none

/-- An entry for each artifact that is accepted, in their order. -/
def entriesOf (env : RulesEnv) (slugOf : α → Option SchemaProperty) (dataOf : α → RawRecord)
    (entryOf : ℕ → CanonicalEnrichmentArtifactSlug × RawRecord → α → CanonicalEnrichmentArtifact)
    (artifacts : List α) : List CanonicalEnrichmentArtifact :=
  (artifacts.filterMap fun artifact =>
    (accepted env slugOf dataOf artifact).map (·, artifact)).mapIdx
      fun n kept => entryOf n kept.1 kept.2

/-- The slug of an artifact is found among what every object inherits. -/
def Inherits (slugOf : α → Option SchemaProperty) (artifact : α) : Prop :=
  ∃ name, slugOf artifact = some (.inherited name)

/-- **An artifact whose slug is not inherited is added or left out.** -/
theorem normalizeNext_of_not_inherits {artifact : α} (h : ¬ Inherits slugOf artifact)
    (normalized : List CanonicalEnrichmentArtifact) :
    normalizeNext env slugOf dataOf entryOf normalized artifact
      = .ok (normalized ++ ((accepted env slugOf dataOf artifact).map
          (entryOf normalized.length · artifact)).toList) := by
  unfold normalizeNext accepted
  cases hslug : slugOf artifact with
  | none =>
    show (.ok normalized : Except RulesError _) = .ok (normalized ++ [])
    rw [List.append_nil]
  | some property =>
    cases property with
    | inherited name => exact absurd ⟨name, hslug⟩ h
    | own slug =>
      dsimp only [parseCanonicalArtifactData]
      rw [Result.ok_bind]
      cases env.safeParse (canonicalArtifactDataSchemaBySlug slug) (dataOf artifact) with
      | none =>
        show (.ok normalized : Except RulesError _) = .ok (normalized ++ [])
        rw [List.append_nil]
      | some data => rfl

/-- **An artifact whose slug is inherited makes everything fail.** -/
theorem normalizeNext_of_inherits {artifact : α} (h : Inherits slugOf artifact)
    (normalized : List CanonicalEnrichmentArtifact) :
    normalizeNext env slugOf dataOf entryOf normalized artifact = .error .typeError := by
  obtain ⟨name, hslug⟩ := h
  unfold normalizeNext
  rw [hslug]
  rfl

/-- **Where no slug is inherited, there is an entry for each accepted artifact.** -/
theorem foldlM_of_forall_not_inherits (h : ∀ artifact ∈ artifacts, ¬ Inherits slugOf artifact) :
    artifacts.foldlM (normalizeNext env slugOf dataOf entryOf) []
      = .ok (entriesOf env slugOf dataOf entryOf artifacts) := by
  induction artifacts using List.reverseRecOn with
  | nil => rfl
  | append_singleton artifacts artifact ih =>
    have hall := fun a ha => h a (List.mem_append_left _ ha)
    have hlast := h artifact (List.mem_append_right _ List.mem_cons_self)
    rw [List.foldlM_append, ih hall, Result.ok_bind, List.foldlM_cons,
      normalizeNext_of_not_inherits hlast, Result.ok_bind, List.foldlM_nil]
    refine congrArg Except.ok ?_
    unfold entriesOf
    rw [List.filterMap_append, List.mapIdx_append, List.length_mapIdx]
    refine congrArg (_ ++ ·) ?_
    rw [List.filterMap_cons, List.filterMap_nil]
    cases accepted env slugOf dataOf artifact with
    | none => rfl
    | some parsed => simp

/-- **Where a slug is inherited, nothing is returned.** -/
theorem foldlM_of_exists_inherits (h : ∃ artifact ∈ artifacts, Inherits slugOf artifact)
    (normalized : List CanonicalEnrichmentArtifact) :
    artifacts.foldlM (normalizeNext env slugOf dataOf entryOf) normalized
      = .error .typeError := by
  induction artifacts generalizing normalized with
  | nil => exact absurd h (by simp)
  | cons artifact artifacts ih =>
    rw [List.foldlM_cons]
    by_cases hinherits : Inherits slugOf artifact
    · rw [normalizeNext_of_inherits hinherits, Result.error_bind]
    · rw [normalizeNext_of_not_inherits hinherits, Result.ok_bind]
      obtain ⟨other, hother, hother'⟩ := h
      obtain rfl | hmem := List.mem_cons.mp hother
      · exact absurd hother' hinherits
      · exact ih ⟨other, hmem, hother'⟩ _

/-- **There is an entry for each accepted artifact exactly where no slug is inherited.** -/
theorem foldlM_eq_ok_iff : artifacts.foldlM (normalizeNext env slugOf dataOf entryOf) []
      = .ok (entriesOf env slugOf dataOf entryOf artifacts)
    ↔ ∀ artifact ∈ artifacts, ¬ Inherits slugOf artifact := by
  refine ⟨fun h artifact hmem hinherits => ?_, foldlM_of_forall_not_inherits⟩
  have herror : artifacts.foldlM (normalizeNext env slugOf dataOf entryOf) [] = .error .typeError :=
    foldlM_of_exists_inherits ⟨artifact, hmem, hinherits⟩ []
  cases herror.symm.trans h

end Kept

/-! ## Ids -/

/-- The digits of a number are smaller than the base, and make it up. -/
theorem digits36 (n : ℕ) : (∀ d ∈ if n = 0 then [0] else Nat.digits 36 n, d < 36)
    ∧ Nat.ofDigits 36 (if n = 0 then [0] else Nat.digits 36 n) = n := by
  by_cases h : n = 0
  · rw [if_pos h, h]
    exact ⟨by simp, rfl⟩
  · rw [if_neg h]
    exact ⟨fun d hd => Nat.digits_lt_base (by decide) hd, Nat.ofDigits_digits 36 n⟩

theorem toString36_injective : Function.Injective toString36 := by
  intro n n' h
  have hvalue : ∀ d < 36, (fun c : Char => if c.toNat < 58 then c.toNat - 48 else c.toNat - 87)
      (Char.ofNat (if d < 10 then 48 + d else 87 + d)) = d := by decide
  have hdigits : ∀ n, ((toString36 n).reverse.map fun c : Char =>
      if c.toNat < 58 then c.toNat - 48 else c.toNat - 87)
        = if n = 0 then [0] else Nat.digits 36 n := by
    intro n
    rw [toString36, List.reverse_reverse, List.map_map]
    exact (List.map_congr_left fun d hd => hvalue d ((digits36 n).1 d hd)).trans (List.map_id _)
  rw [← (digits36 n).2, ← (digits36 n').2, ← hdigits n, ← hdigits n', h]

theorem notMem_toString36 (n : ℕ) : '-' ∉ toString36 n := by
  have hdigit : ∀ d < 36, Char.ofNat (if d < 10 then 48 + d else 87 + d) ≠ '-' := by decide
  rw [toString36, List.mem_reverse, List.mem_map]
  rintro ⟨d, hd, heq⟩
  exact hdigit d ((digits36 n).1 d hd) heq

/-- **Ids tell how many artifacts there were before**, whatever their slugs. -/
theorem eq_of_artifactId_eq {slug slug' : CanonicalEnrichmentArtifactSlug} {n n' : ℕ}
    (h : artifactId slug n = artifactId slug' n') : n = n' := by
  have htake : ∀ (n : ℕ) (front : List Char),
      (front ++ '-' :: toString36 n).reverse.takeWhile (· ≠ '-') = (toString36 n).reverse := by
    intro n front
    have hall : ∀ c ∈ (toString36 n).reverse, decide (c ≠ '-') = true := fun c hc =>
      decide_eq_true fun hdash => notMem_toString36 n (hdash ▸ List.mem_reverse.mp hc)
    rw [List.reverse_append, List.reverse_cons, List.append_assoc,
      List.takeWhile_append_of_pos hall]
    simp
  -- read backwards, what is before the first dash is the number
  have hlist := congrArg (fun l => l.reverse.takeWhile (· ≠ '-')) (String.ofList_injective h)
  rw [htake, htake] at hlist
  exact toString36_injective (List.reverse_injective hlist)

/-! ## Artifacts that make everything fail -/

section Inherited

variable (env : RulesEnv)

/-- A text stands for a property that every object inherits. -/
def NamesInherited (text : String) : Prop :=
  text ∉ ["", "coingecko", "npm"] ∧ env.canonicalizeEnrichmentSlug text ∈ objectPrototype

/-- The slug that is stored with an artifact stands for one, and its data do not tell that it
is one of GitHub. -/
def PersistedEnrichmentArtifactInput.NamesInherited (artifact : PersistedEnrichmentArtifactInput) :
    Prop :=
  ∃ text ∈ artifact.rawSlug, AtomRules.NamesInherited env text
    ∧ ¬ (text = "github" ∧ ((readString (artifact.innerData.lookup "fullName")).isSome = true
      ∨ (readString (artifact.innerData.lookup "login")).isSome = true))

/-- A process artifact is normalized to an entry if it is accepted, and none is lost. -/
def KeepsProcessArtifacts (artifacts : List ProcessEnrichmentArtifactInput) : Prop :=
  ∃ entries, normalizeProcessEnrichmentArtifacts env artifacts = .ok entries
    ∧ entries = entriesOf env
      (fun artifact => canonicalizeKnownArtifactSlug env (some artifact.artifactType)) (·.data)
      (fun n parsed artifact => artifact.entry env n parsed) artifacts
    ∧ (entries.map (·.id)).Nodup

/-- A persisted artifact is normalized to an entry if it is accepted, and none is lost. -/
def KeepsPersistedArtifacts (artifacts : List PersistedEnrichmentArtifactInput) : Prop :=
  normalizePersistedEnrichmentArtifacts env artifacts = .ok (entriesOf env
    (·.resolveCanonicalArtifactSlug env) (·.innerData)
    (fun n parsed artifact => artifact.entry env n parsed) artifacts)

variable {env}

/-- What every object inherits is no slug. -/
theorem isCanonicalEnrichmentArtifactSlug_eq_inherited {value name : String} :
    isCanonicalEnrichmentArtifactSlug value = some (.inherited name)
      ↔ value = name ∧ name ∈ objectPrototype := by
  unfold isCanonicalEnrichmentArtifactSlug
  constructor
  · intro h
    split at h
    · exact absurd h (by simp)
    · split at h
      · next hmem =>
        obtain rfl : value = name := by simpa using h
        exact ⟨rfl, hmem⟩
      · exact absurd h (by simp)
  · rintro ⟨rfl, hmem⟩
    have hslugs : ∀ value ∈ objectPrototype,
        CanonicalEnrichmentArtifactSlug.all.find? (fun slug => slug.name = value) = none := by
      decide
    rw [hslugs value hmem]
    exact if_pos hmem

/-- **A text stands for an inherited property** where its canonical form is the name of one. -/
theorem exists_inherited_iff {text : String} :
    (∃ name, canonicalizeKnownArtifactSlug env (some text) = some (.inherited name))
      ↔ NamesInherited env text := by
  unfold NamesInherited
  by_cases h : text ∈ ["", "coingecko", "npm"]
  · refine iff_of_false ?_ fun hnames => hnames.1 h
    rintro ⟨name, hname⟩
    obtain rfl | rfl | rfl : text = "" ∨ text = "coingecko" ∨ text = "npm" := by simpa using h
    · cases hname
    · cases hname
    · cases hname
  · obtain ⟨hempty, hcoingecko, hnpm⟩ : text ≠ "" ∧ text ≠ "coingecko" ∧ text ≠ "npm" := by
      simpa using h
    have hslug : canonicalizeKnownArtifactSlug env (some text)
        = isCanonicalEnrichmentArtifactSlug (env.canonicalizeEnrichmentSlug text) := by
      simp [canonicalizeKnownArtifactSlug]
    simp only [hslug, isCanonicalEnrichmentArtifactSlug_eq_inherited, h, not_false_eq_true,
      true_and]
    exact ⟨fun ⟨_, heq, hmem⟩ => heq ▸ hmem, fun hmem => ⟨_, rfl, hmem⟩⟩

theorem PersistedEnrichmentArtifactInput.exists_inherited_iff
    (artifact : PersistedEnrichmentArtifactInput) :
    (∃ name, artifact.resolveCanonicalArtifactSlug env = some (.inherited name))
      ↔ artifact.NamesInherited env := by
  unfold resolveCanonicalArtifactSlug PersistedEnrichmentArtifactInput.NamesInherited
  cases hraw : artifact.rawSlug with
  | none => simp [canonicalizeKnownArtifactSlug]
  | some text =>
    by_cases hgithub : text = "github" ∧
        ((readString (artifact.innerData.lookup "fullName")).isSome = true
          ∨ (readString (artifact.innerData.lookup "login")).isSome = true)
    · refine iff_of_false ?_ fun ⟨other, hother, _, hnot⟩ => hnot (by cases hother; exact hgithub)
      rintro ⟨name, hname⟩
      obtain ⟨rfl, hfull | hlogin⟩ := hgithub
      · rw [if_pos ⟨rfl, hfull⟩] at hname
        cases hname
      · split at hname
        · cases hname
        · rw [if_pos ⟨rfl, hlogin⟩] at hname
          cases hname
    · obtain ⟨hfull, hlogin⟩ : ¬ (text = "github"
          ∧ (readString (artifact.innerData.lookup "fullName")).isSome = true)
          ∧ ¬ (text = "github" ∧ (readString (artifact.innerData.lookup "login")).isSome = true) :=
        ⟨fun h => hgithub ⟨h.1, .inl h.2⟩, fun h => hgithub ⟨h.1, .inr h.2⟩⟩
      simp only [Option.some.injEq]
      rw [if_neg hfull, if_neg hlogin, AtomRules.exists_inherited_iff]
      exact ⟨fun h => ⟨text, rfl, h, hgithub⟩, fun ⟨_, heq, h, _⟩ => by cases heq; exact h⟩

end Inherited

/-- A youtube artifact comes after one that is called `constructor`. -/
def constructorArtifacts : List ProcessEnrichmentArtifactInput :=
  [⟨"constructor", [], "plugin", "provider", none, none⟩,
    ⟨"youtube", [], "plugin", "provider", none, none⟩]

/-- No slug has an alias, and every schema accepts everything. -/
def plainEnv : RulesEnv := ⟨fun _ => none, id, fun _ data => some data⟩

/-- **One malformed artifact loses the others**: nothing is returned for them. -/
theorem not_keepsProcessArtifacts : ¬ KeepsProcessArtifacts plainEnv constructorArtifacts := by
  have herror : normalizeProcessEnrichmentArtifacts plainEnv constructorArtifacts
      = .error .typeError := rfl
  rintro ⟨entries, hentries, -⟩
  rw [herror] at hentries
  cases hentries

/-- **The ids of process artifacts are different.** -/
theorem nodup_ids_entriesOf {env : RulesEnv} {slugOf : ProcessEnrichmentArtifactInput →
    Option SchemaProperty} {dataOf : ProcessEnrichmentArtifactInput → RawRecord}
    (artifacts : List ProcessEnrichmentArtifactInput) :
    ((entriesOf env slugOf dataOf (fun n parsed artifact => artifact.entry env n parsed)
      artifacts).map (·.id)).Nodup := by
  refine List.nodup_iff_injective_getElem.mpr fun i j h => Fin.ext ?_
  simp only [entriesOf, List.getElem_map, List.getElem_mapIdx] at h
  exact eq_of_artifactId_eq h

/-- **Artifacts are kept where none names what every object inherits**, and only there. -/
theorem keepsArtifacts_iff (env : RulesEnv) :
    (∀ artifacts, KeepsProcessArtifacts env artifacts
        ↔ ∀ artifact ∈ artifacts, ¬ NamesInherited env artifact.artifactType)
      ∧ ∀ artifacts, KeepsPersistedArtifacts env artifacts
        ↔ ∀ artifact ∈ artifacts, ¬ artifact.NamesInherited env := by
  constructor
  · intro artifacts
    constructor
    · rintro ⟨entries, hentries, rfl, -⟩ artifact hmem hnames
      exact foldlM_eq_ok_iff.mp hentries artifact hmem (exists_inherited_iff.mpr hnames)
    · intro h
      refine ⟨_, foldlM_eq_ok_iff.mpr fun artifact hmem hinherits => ?_, rfl,
        nodup_ids_entriesOf artifacts⟩
      exact h artifact hmem (exists_inherited_iff.mp hinherits)
  · intro artifacts
    constructor
    · intro hentries artifact hmem hnames
      exact foldlM_eq_ok_iff.mp hentries artifact hmem (artifact.exists_inherited_iff.mpr hnames)
    · intro h
      refine foldlM_eq_ok_iff.mpr fun artifact hmem hinherits => ?_
      exact h artifact hmem (artifact.exists_inherited_iff.mp hinherits)

end AtomRules
