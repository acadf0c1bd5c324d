import IntuitionCore.AtomRules.Artifacts
import Mathlib.Data.List.Infix
import Mathlib.Order.Nat

/-!
# Which variant an atom is presented as

Each rule says whether an atom is to be presented as its variant, by the artifacts of the atom
and by its identity. Of the rules that match, the one of the highest priority decides.

The rules of a service also match by the host of the canonical URL. They ask whether the name
of the service occurs in the host, so they match hosts of other sites that have the name in
theirs, such as a host that ends in `netflix.com`, where `x.com` occurs.
-/

namespace AtomRules

/-! ## Contexts and rules -/

inductive DecisionVariantId where
  | spotifyTrack
  | spotifyArtist
  | spotifyAlbum
  | spotifyPlaylist
  | spotifyPodcastShow
  | spotifyPodcastEpisode
  | appleMusicSong
  | githubRepo
  | githubProfile
  | amazonProduct
  | youtubeVideo
  | wikipediaArticle
  | xProfile
  | xPost
  | npmPackage
  | tmdbMovie
  | coingeckoToken
  | etherscanContract
  | website
  | brandCompany
  | generic
  deriving DecidableEq, Repr

/-- The identity of an atom, as far as the rules ask for it. -/
structure ResolvedIdentity where
  category : Option String := none
  schemaType : Option String := none
  canonicalId : Option String := none
  sameAs : List String := []
  canonicalUrl : Option String := none

structure DecisionContext where
  identity : ResolvedIdentity
  artifacts : List CanonicalEnrichmentArtifact := []

inductive EvaluationReason where
  | matched
  | missingArtifact
  | typeMismatch
  | urlMismatch
  | identityMismatch
  | fallback
  deriving DecidableEq, Repr

structure RuleEvaluation where
  ruleId : DecisionVariantId
  priority : ℕ
  matched : Bool
  reason : EvaluationReason
  deriving DecidableEq, Repr

/-- A rule, and what it says about a context: why it does not match, or why it does. -/
structure Rule where
  id : DecisionVariantId
  priority : ℕ
  reason : RulesEnv → DecisionContext → Except EvaluationReason EvaluationReason

/-- What a rule says about a context. -/
def Rule.evaluate (rule : Rule) (env : RulesEnv) (context : DecisionContext) : RuleEvaluation :=
  match rule.reason env context with
  | .ok reason => ⟨rule.id, rule.priority, true, reason⟩
  | .error reason => ⟨rule.id, rule.priority, false, reason⟩

def findArtifact (context : DecisionContext) (slug : CanonicalEnrichmentArtifactSlug) :
    Option CanonicalEnrichmentArtifact :=
  context.artifacts.find? (·.slug = slug)

def includes (text part : String) : Bool := part.toList <:+: text.toList

/-- The host of a URL, in lower case. -/
def hostOf (env : RulesEnv) (value : Option String) : Option String :=
  ((value.filter (· ≠ "")).bind env.parseUrl).map fun url =>
    .ofList (url.hostname.toList.map Char.toLower)

def hasHost (env : RulesEnv) (value : Option String) (hostSubstring : String) : Bool :=
  (hostOf env value).any (includes · hostSubstring)

def isAmazonUrl (env : RulesEnv) (value : Option String) : Bool := hasHost env value "amazon."

def isAppleMusicUrl (env : RulesEnv) (value : Option String) : Bool :=
  hasHost env value "music.apple.com"

def isEtherscanUrl (env : RulesEnv) (value : Option String) : Bool :=
  hasHost env value "etherscan.io"

def isNpmUrl (env : RulesEnv) (value : Option String) : Bool := hasHost env value "npmjs.com"

def isTmdbUrl (env : RulesEnv) (value : Option String) : Bool :=
  hasHost env value "themoviedb.org"

def isWikipediaUrl (env : RulesEnv) (value : Option String) : Bool :=
  hasHost env value "wikipedia.org"

def isXUrl (env : RulesEnv) (value : Option String) : Bool :=
  hasHost env value "x.com" || hasHost env value "twitter.com"

def isYouTubeUrl (env : RulesEnv) (value : Option String) : Bool :=
  hasHost env value "youtube.com" || hasHost env value "youtu.be"

/-- A text of the data of an artifact. -/
def dataText (artifact : CanonicalEnrichmentArtifact) (field : String) : Option String :=
  (artifact.data.lookup field).bind KgJson.string?

/-! ## The rules -/

/-- A rule that asks for one of some artifacts, or for a URL. -/
def artifactOrUrlRule (id : DecisionVariantId) (priority : ℕ)
    (slugs : List CanonicalEnrichmentArtifactSlug)
    (isUrl : RulesEnv → Option String → Bool) : Rule where
  id := id
  priority := priority
  reason env context :=
    if slugs.any (fun slug => (findArtifact context slug).isSome)
        ∨ isUrl env context.identity.canonicalUrl = true
    then .ok .matched else .error .missingArtifact

/-- A rule that asks for one of some artifacts. -/
def artifactRule (id : DecisionVariantId) (priority : ℕ)
    (slugs : List CanonicalEnrichmentArtifactSlug) : Rule :=
  artifactOrUrlRule id priority slugs fun _ _ => false

/-- A rule that asks for an artifact of a type, or, if there is none of its slug, for something
else. -/
def typedArtifactRule (id : DecisionVariantId) (priority : ℕ)
    (slug : CanonicalEnrichmentArtifactSlug) (field type : String)
    (otherwise : RulesEnv → ResolvedIdentity → Bool) : Rule where
  id := id
  priority := priority
  reason env context :=
    match findArtifact context slug with
    | none => if otherwise env context.identity then .ok .matched else .error .missingArtifact
    | some artifact =>
      if dataText artifact field = some type then .ok .matched else .error .typeMismatch

def isSpotifyReference (env : RulesEnv) (kind : String) (value : Option String) : Bool :=
  (value.filter (· ≠ "")).any fun value =>
    ("spotify:" ++ kind ++ ":").toList <+: value.toList
      || (env.parseUrl value).any fun url =>
        includes (.ofList (url.hostname.toList.map Char.toLower)) "spotify."
          && includes url.pathname ("/" ++ kind ++ "/")

/-- The identity is one of Spotify, of a kind and of the schema type for it. -/
def hasSpotifyIdentity (schemaType kind : String) (env : RulesEnv) (identity : ResolvedIdentity) :
    Bool :=
  identity.schemaType = some schemaType
    && (identity.canonicalUrl :: identity.canonicalId :: identity.sameAs.map some).any
      (isSpotifyReference env kind)

def isPost (context : DecisionContext) : Bool :=
  context.identity.canonicalId.any (fun id => "x:post:".toList <+: id.toList)
    || context.identity.schemaType = some "SocialMediaPosting"

def isStatusUrl (context : DecisionContext) : Bool :=
  context.identity.canonicalUrl.any (includes · "/status/")

def xProfileRule : Rule where
  id := .xProfile
  priority := 980
  reason env context :=
    let artifact :=
      (findArtifact context .xProfile).or (findArtifact context .twitterProfile)
    if isPost context then .error .identityMismatch
    else if artifact.isNone ∧ isXUrl env context.identity.canonicalUrl = false then
      .error .missingArtifact
    else if isStatusUrl context then .error .urlMismatch
    else .ok .matched

def xPostRule : Rule where
  id := .xPost
  priority := 890
  reason env context :=
    if (isXUrl env context.identity.canonicalUrl && isStatusUrl context) || isPost context then
      .ok .matched
    else .error .identityMismatch

def appleMusicSongRule : Rule :=
  typedArtifactRule .appleMusicSong 960 .appleMusic "type" "song" fun env identity =>
    isAppleMusicUrl env identity.canonicalUrl

def spotifyTrackRule : Rule :=
  typedArtifactRule .spotifyTrack 955 .spotify "type" "track"
    (hasSpotifyIdentity "MusicRecording" "track")

def spotifyArtistRule : Rule :=
  typedArtifactRule .spotifyArtist 954 .spotify "type" "artist" fun _ _ => false

def spotifyAlbumRule : Rule :=
  typedArtifactRule .spotifyAlbum 953 .spotify "type" "album" fun _ _ => false

def spotifyPlaylistRule : Rule :=
  typedArtifactRule .spotifyPlaylist 952 .spotify "type" "playlist" fun _ _ => false

def spotifyPodcastShowRule : Rule :=
  typedArtifactRule .spotifyPodcastShow 951 .spotify "type" "show"
    (hasSpotifyIdentity "PodcastSeries" "show")

def spotifyPodcastEpisodeRule : Rule :=
  typedArtifactRule .spotifyPodcastEpisode 950 .spotify "type" "episode"
    (hasSpotifyIdentity "PodcastEpisode" "episode")

def youtubeVideoRule : Rule :=
  artifactOrUrlRule .youtubeVideo 920 [.youtube, .oembed] isYouTubeUrl

def wikipediaArticleRule : Rule :=
  artifactOrUrlRule .wikipediaArticle 910 [.wikipedia, .wikidata] isWikipediaUrl

def githubRepoRule : Rule := artifactRule .githubRepo 950 [.githubRepo]

def githubProfileRule : Rule := artifactRule .githubProfile 830 [.githubUser]

def npmPackageRule : Rule := artifactOrUrlRule .npmPackage 820 [.npmPackage] isNpmUrl

def amazonProductRule : Rule where
  id := .amazonProduct
  priority := 930
  reason env context :=
    if (findArtifact context .productListing).isSome then .ok .matched
    else if context.identity.category = some "product"
        ∧ isAmazonUrl env context.identity.canonicalUrl = true then .ok .matched
    else .error .identityMismatch

def etherscanContractRule : Rule :=
  artifactOrUrlRule .etherscanContract 900 [.etherscan] isEtherscanUrl

def coingeckoTokenRule : Rule := artifactRule .coingeckoToken 860 [.tokenMetadata]

def websiteRule : Rule where
  id := .website
  priority := 880
  reason _ context :=
    if context.identity.schemaType = some "WebSite" then .ok .matched
    else .error .identityMismatch

def brandCompanyRule : Rule := artifactRule .brandCompany 840 [.brand, .companyProfile]

def tmdbMovieRule : Rule :=
  typedArtifactRule .tmdbMovie 850 .tmdb "mediaType" "movie" fun env identity =>
    isTmdbUrl env identity.canonicalUrl

def genericRule : Rule where
  id := .generic
  priority := 10
  reason _ _ := .ok .fallback

def rules : List Rule :=
  [xProfileRule, xPostRule, appleMusicSongRule, spotifyTrackRule, spotifyArtistRule,
    spotifyAlbumRule, spotifyPlaylistRule, spotifyPodcastShowRule, spotifyPodcastEpisodeRule,
    youtubeVideoRule, wikipediaArticleRule, githubRepoRule, githubProfileRule, npmPackageRule,
    amazonProductRule, etherscanContractRule, coingeckoTokenRule, websiteRule, brandCompanyRule,
    tmdbMovieRule, genericRule]

/-! ## The decision -/

structure DecisionTrace where
  artifactSlugs : List CanonicalEnrichmentArtifactSlug
  identity : ResolvedIdentity
  evaluations : List RuleEvaluation
  selectedRuleId : DecisionVariantId

structure AtomDecisionResult where
  variantId : DecisionVariantId
  context : DecisionContext
  trace : DecisionTrace

/-- **The rule of the highest priority that matches decides.** -/
def resolveDecision (env : RulesEnv) (context : DecisionContext) : AtomDecisionResult :=
  let evaluations := (rules.map fun rule => rule.evaluate env context).mergeSort
    fun left right => right.priority ≤ left.priority
  let selected := (evaluations.find? (·.matched)).getD ⟨.generic, 10, true, .fallback⟩
  { variantId := selected.ruleId
    context := context
    trace :=
      { artifactSlugs := context.artifacts.map (·.slug)
        identity := context.identity
        evaluations := evaluations
        selectedRuleId := selected.ruleId } }

end AtomRules
