import IntuitionCore.AtomRules.Engine

/-!
# Hosts of services, and hosts that have their names in them

Without artifacts, and without a schema type, an atom is presented as one of a service by the
host of its URL alone. It is one of the service if the host is a domain of the service or lies
under one. As the rules ask for less, that is so for a URL just where no host has the name of a
service in it without being one of the service, or where a rule of a higher priority matches.
-/

namespace AtomRules

/-- A rule that matches by the host of the URL: the names it looks for in the host, which are
the domains of the service, and what else it asks for. -/
structure ServiceRule where
  variant : DecisionVariantId
  priority : ℕ
  domains : List String
  asks : DecisionContext → Bool

namespace ServiceRule

/-- The rule of a service matches by the host. -/
def Applies (s : ServiceRule) (env : RulesEnv) (context : DecisionContext) : Prop :=
  s.asks context = true
    ∧ ∃ domain ∈ s.domains, hasHost env context.identity.canonicalUrl domain = true

/-- The host of the URL is one of the service. -/
def OwnsHost (s : ServiceRule) (env : RulesEnv) (context : DecisionContext) : Prop :=
  ∃ host ∈ hostOf env context.identity.canonicalUrl, ∃ domain ∈ s.domains,
    host = domain ∨ ('.' :: domain.toList) <:+ host.toList

end ServiceRule

/-- The rules of the services whose hosts are the claim of their variants. -/
def services : List ServiceRule :=
  [⟨.xProfile, 980, ["x.com", "twitter.com"], fun context => !isStatusUrl context⟩,
    ⟨.appleMusicSong, 960, ["music.apple.com"], fun _ => true⟩,
    ⟨.youtubeVideo, 920, ["youtube.com", "youtu.be"], fun _ => true⟩,
    ⟨.wikipediaArticle, 910, ["wikipedia.org"], fun _ => true⟩,
    ⟨.etherscanContract, 900, ["etherscan.io"], fun _ => true⟩,
    ⟨.xPost, 890, ["x.com", "twitter.com"], isStatusUrl⟩,
    ⟨.tmdbMovie, 850, ["themoviedb.org"], fun _ => true⟩,
    ⟨.npmPackage, 820, ["npmjs.com"], fun _ => true⟩]

/-- The rule of Amazon, which has no domain of its own but many. -/
def amazonService : ServiceRule :=
  ⟨.amazonProduct, 930, ["amazon."], fun context => context.identity.category = some "product"⟩

/-- There is nothing but the URL to go by. -/
structure Bare (context : DecisionContext) : Prop where
  artifacts : context.artifacts = []
  schemaType : context.identity.schemaType = none
  canonicalId : ∀ id ∈ context.identity.canonicalId, ¬ "x:post:".toList <+: id.toList

/-- **A variant of a service is only for the hosts of the service.** -/
def ShowsOwnHosts (env : RulesEnv) (context : DecisionContext) : Prop :=
  ∀ s ∈ services, (resolveDecision env context).variantId = s.variant → s.OwnsHost env context

/-- No host has the name of a service in it that is not one of the service, unless a rule of a
higher priority matches by the host. -/
def NamesOwnHosts (env : RulesEnv) (context : DecisionContext) : Prop :=
  ∀ s ∈ services, s.Applies env context → s.OwnsHost env context
    ∨ ∃ t ∈ amazonService :: services, s.priority < t.priority ∧ t.Applies env context

variable {env : RulesEnv} {context : DecisionContext}

/-! ## The rule that decides -/

/-- **What is found first of the greatest ranks is of the greatest rank.** -/
theorem find?_mergeSort_eq_some {α : Type} {rank : α → ℕ} {p : α → Bool} {l : List α} {a : α}
    (h : (l.mergeSort fun a b => rank b ≤ rank a).find? p = some a) :
    (a ∈ l ∧ p a = true) ∧ ∀ b ∈ l, p b = true → rank b ≤ rank a := by
  have hsorted : (l.mergeSort fun a b => rank b ≤ rank a).Pairwise fun a b => rank b ≤ rank a :=
    List.pairwise_mergeSort' (Order.Preimage rank (· ≥ ·)) l
  obtain ⟨hp, before, after, heq, hbefore⟩ := List.find?_eq_some_iff_append.mp h
  refine ⟨⟨List.mem_mergeSort.mp (List.mem_of_find?_eq_some h), hp⟩, fun b hb hpb => ?_⟩
  have hmem : b ∈ before ++ a :: after := heq ▸ List.mem_mergeSort.mpr hb
  obtain hbefore' | hafter := List.mem_append.mp hmem
  · exact absurd hpb (by simpa using hbefore b hbefore')
  · obtain rfl | hafter := List.mem_cons.mp hafter
    · exact le_rfl
    · rw [heq] at hsorted
      exact List.rel_of_pairwise_cons (List.pairwise_append.mp hsorted).2.1 hafter

variable (env context) in
theorem evaluate_ruleId (rule : Rule) : (rule.evaluate env context).ruleId = rule.id := by
  unfold Rule.evaluate
  split <;> rfl

theorem evaluate_priority (rule : Rule) :
    (rule.evaluate env context).priority = rule.priority := by
  unfold Rule.evaluate
  split <;> rfl

/-- **The rule that decides** matches, and no rule that matches is of a higher priority. -/
theorem exists_rule_of_resolveDecision (env : RulesEnv) (context : DecisionContext) :
    ∃ rule ∈ rules, (resolveDecision env context).variantId = rule.id
      ∧ (rule.evaluate env context).matched = true
      ∧ ∀ other ∈ rules, (other.evaluate env context).matched = true →
        other.priority ≤ rule.priority := by
  have hgeneric : genericRule ∈ rules := by simp [rules]
  set evaluations := rules.map fun rule => rule.evaluate env context with hevaluations
  have hmem : ∀ rule ∈ rules, rule.evaluate env context ∈ evaluations := fun rule hrule =>
    List.mem_map_of_mem hrule
  cases hfind : (evaluations.mergeSort fun left right => right.priority ≤ left.priority).find?
      (·.matched) with
  | none =>
    -- the generic rule always matches
    have hnone := List.find?_eq_none.mp hfind (genericRule.evaluate env context)
      (List.mem_mergeSort.mpr (hmem genericRule hgeneric))
    exact absurd rfl hnone
  | some selected =>
    obtain ⟨⟨hselected, hmatched⟩, hmax⟩ := find?_mergeSort_eq_some hfind
    obtain ⟨rule, hrule, rfl⟩ := List.mem_map.mp hselected
    refine ⟨rule, hrule, ?_, hmatched, fun other hother hmatch => ?_⟩
    · rw [← evaluate_ruleId env context rule, resolveDecision]
      dsimp only
      rw [← hevaluations, hfind]
      rfl
    · have hle := hmax _ (hmem other hother) hmatch
      rwa [evaluate_priority, evaluate_priority] at hle

/-! ## What matches by the URL alone -/

theorem findArtifact_of_bare (h : Bare context) (slug : CanonicalEnrichmentArtifactSlug) :
    findArtifact context slug = none := by
  rw [findArtifact, h.artifacts, List.find?_nil]

theorem matched_artifactOrUrlRule (h : Bare context) (id : DecisionVariantId) (priority : ℕ)
    (slugs : List CanonicalEnrichmentArtifactSlug) (isUrl : RulesEnv → Option String → Bool) :
    ((artifactOrUrlRule id priority slugs isUrl).evaluate env context).matched
      = isUrl env context.identity.canonicalUrl := by
  have hnone : slugs.any (fun slug => (findArtifact context slug).isSome) = false := by
    simp [findArtifact_of_bare h]
  unfold Rule.evaluate artifactOrUrlRule
  cases hurl : isUrl env context.identity.canonicalUrl <;> simp [hnone, hurl]

theorem matched_artifactRule (h : Bare context) (id : DecisionVariantId) (priority : ℕ)
    (slugs : List CanonicalEnrichmentArtifactSlug) :
    ((artifactRule id priority slugs).evaluate env context).matched = false :=
  matched_artifactOrUrlRule h id priority slugs _

theorem matched_typedArtifactRule (h : Bare context) (id : DecisionVariantId) (priority : ℕ)
    (slug : CanonicalEnrichmentArtifactSlug) (field type : String)
    (otherwise : RulesEnv → ResolvedIdentity → Bool) :
    ((typedArtifactRule id priority slug field type otherwise).evaluate env context).matched
      = otherwise env context.identity := by
  unfold Rule.evaluate typedArtifactRule
  dsimp only
  rw [findArtifact_of_bare h]
  cases otherwise env context.identity <;> simp

theorem hasSpotifyIdentity_of_bare (h : Bare context) (schemaType kind : String) :
    hasSpotifyIdentity schemaType kind env context.identity = false := by
  rw [hasSpotifyIdentity, h.schemaType]
  rfl

theorem isPost_of_bare (h : Bare context) : isPost context = false := by
  rw [isPost, h.schemaType]
  cases hid : context.identity.canonicalId with
  | none => rfl
  | some id =>
    rw [Option.any_some, decide_eq_false (h.canonicalId id hid)]
    rfl

theorem matched_xProfileRule (h : Bare context) : (xProfileRule.evaluate env context).matched
    = (isXUrl env context.identity.canonicalUrl && !isStatusUrl context) := by
  unfold Rule.evaluate xProfileRule
  dsimp only
  rw [isPost_of_bare h, findArtifact_of_bare h, findArtifact_of_bare h]
  cases isXUrl env context.identity.canonicalUrl <;> cases isStatusUrl context <;> simp

theorem matched_xPostRule (h : Bare context) : (xPostRule.evaluate env context).matched
    = (isXUrl env context.identity.canonicalUrl && isStatusUrl context) := by
  unfold Rule.evaluate xPostRule
  dsimp only
  rw [isPost_of_bare h, Bool.or_false]
  cases isXUrl env context.identity.canonicalUrl && isStatusUrl context <;> simp

theorem matched_amazonProductRule (h : Bare context) :
    (amazonProductRule.evaluate env context).matched
      = (context.identity.category = some "product"
        && isAmazonUrl env context.identity.canonicalUrl) := by
  unfold Rule.evaluate amazonProductRule
  dsimp only
  rw [findArtifact_of_bare h]
  by_cases hcategory : context.identity.category = some "product"
  · cases isAmazonUrl env context.identity.canonicalUrl <;> simp [hcategory]
  · simp [hcategory]

theorem matched_websiteRule (h : Bare context) :
    (websiteRule.evaluate env context).matched = false := by
  unfold Rule.evaluate websiteRule
  simp [h.schemaType]

/-- What a rule comes down to where there is nothing but the URL to go by. -/
def matchesByUrl (env : RulesEnv) (context : DecisionContext) : DecisionVariantId → Bool
  | .xProfile => isXUrl env context.identity.canonicalUrl && !isStatusUrl context
  | .xPost => isXUrl env context.identity.canonicalUrl && isStatusUrl context
  | .appleMusicSong => isAppleMusicUrl env context.identity.canonicalUrl
  | .youtubeVideo => isYouTubeUrl env context.identity.canonicalUrl
  | .wikipediaArticle => isWikipediaUrl env context.identity.canonicalUrl
  | .etherscanContract => isEtherscanUrl env context.identity.canonicalUrl
  | .tmdbMovie => isTmdbUrl env context.identity.canonicalUrl
  | .npmPackage => isNpmUrl env context.identity.canonicalUrl
  | .amazonProduct => context.identity.category = some "product"
    && isAmazonUrl env context.identity.canonicalUrl
  | .generic => true
  | _ => false

/-- **Without artifacts and a schema type, rules match by the URL**, or not at all. -/
theorem matched_eq_matchesByUrl (h : Bare context) : ∀ rule ∈ rules,
    (rule.evaluate env context).matched = matchesByUrl env context rule.id := by
  unfold rules
  simp only [List.forall_mem_cons, List.not_mem_nil, false_implies, implies_true, and_true]
  exact ⟨matched_xProfileRule h, matched_xPostRule h,
    matched_typedArtifactRule h _ _ _ _ _ _,
    (matched_typedArtifactRule h _ _ _ _ _ _).trans (hasSpotifyIdentity_of_bare h _ _),
    matched_typedArtifactRule h _ _ _ _ _ _, matched_typedArtifactRule h _ _ _ _ _ _,
    matched_typedArtifactRule h _ _ _ _ _ _,
    (matched_typedArtifactRule h _ _ _ _ _ _).trans (hasSpotifyIdentity_of_bare h _ _),
    (matched_typedArtifactRule h _ _ _ _ _ _).trans (hasSpotifyIdentity_of_bare h _ _),
    matched_artifactOrUrlRule h _ _ _ _, matched_artifactOrUrlRule h _ _ _ _,
    matched_artifactRule h _ _ _, matched_artifactRule h _ _ _,
    matched_artifactOrUrlRule h _ _ _ _, matched_amazonProductRule h,
    matched_artifactOrUrlRule h _ _ _ _, matched_artifactRule h _ _ _,
    matched_websiteRule h, matched_artifactRule h _ _ _,
    matched_typedArtifactRule h _ _ _ _ _ _, rfl⟩

theorem applies_one (variant : DecisionVariantId) (priority : ℕ) (domain : String)
    (asks : DecisionContext → Bool) :
    (ServiceRule.mk variant priority [domain] asks).Applies env context
      ↔ asks context = true ∧ hasHost env context.identity.canonicalUrl domain = true := by
  simp [ServiceRule.Applies]

theorem applies_two (variant : DecisionVariantId) (priority : ℕ) (domain domain' : String)
    (asks : DecisionContext → Bool) :
    (ServiceRule.mk variant priority [domain, domain'] asks).Applies env context
      ↔ asks context = true ∧ (hasHost env context.identity.canonicalUrl domain = true
        ∨ hasHost env context.identity.canonicalUrl domain' = true) := by
  simp [ServiceRule.Applies]

/-- The rules that match by the URL are those of services, and the generic one. -/
theorem matchesByUrl_iff (id : DecisionVariantId) : matchesByUrl env context id = true
    ↔ id = .generic
      ∨ ∃ s ∈ amazonService :: services, s.variant = id ∧ s.Applies env context := by
  simp only [services, amazonService, List.exists_mem_cons_iff, List.not_mem_nil, false_and,
    exists_false, or_false, applies_one, applies_two]
  cases id with
  | xProfile => simp [matchesByUrl, isXUrl, and_comm]
  | xPost => simp [matchesByUrl, isXUrl, and_comm]
  | appleMusicSong => simp [matchesByUrl, isAppleMusicUrl]
  | youtubeVideo => simp [matchesByUrl, isYouTubeUrl]
  | wikipediaArticle => simp [matchesByUrl, isWikipediaUrl]
  | etherscanContract => simp [matchesByUrl, isEtherscanUrl]
  | tmdbMovie => simp [matchesByUrl, isTmdbUrl]
  | npmPackage => simp [matchesByUrl, isNpmUrl]
  | amazonProduct => simp [matchesByUrl, isAmazonUrl]
  | _ => simp [matchesByUrl]

/-! ## Hosts of services -/

/-- Rules are told apart by their variants, and those of services by their priorities too. -/
theorem exists_rule_of_service : ∀ s ∈ amazonService :: services, ∃ rule ∈ rules,
    rule.id = s.variant ∧ rule.priority = s.priority := by decide

theorem priority_of_service : ∀ rule ∈ rules, ∀ s ∈ amazonService :: services,
    s.variant = rule.id → s.priority = rule.priority := by decide

theorem priority_of_generic : ∀ rule ∈ rules, rule.id = .generic →
    ∀ s ∈ amazonService :: services, rule.priority < s.priority := by decide

theorem variant_of_priority : ∀ s ∈ amazonService :: services, ∀ t ∈ amazonService :: services,
    s.priority = t.priority → s.variant = t.variant := by decide

theorem priority_and_domains_of_variant : ∀ s ∈ amazonService :: services,
    ∀ t ∈ amazonService :: services,
      s.variant = t.variant → s.priority = t.priority ∧ s.domains = t.domains := by decide

theorem variant_ne_amazonService : ∀ s ∈ services, s.variant ≠ amazonService.variant := by decide

/-- **The service that decides** applies, and no service that applies is of a higher priority. -/
theorem service_of_resolveDecision (h : Bare context) {s : ServiceRule}
    (hs : s ∈ amazonService :: services) :
    (resolveDecision env context).variantId = s.variant
      ↔ (∃ t ∈ amazonService :: services, t.variant = s.variant ∧ t.Applies env context)
        ∧ ∀ t ∈ amazonService :: services, t.Applies env context → t.priority ≤ s.priority := by
  obtain ⟨rule, hrule, hvariant, hmatched, hmax⟩ := exists_rule_of_resolveDecision env context
  have hmatches : ∀ rule ∈ rules, (rule.evaluate env context).matched = true
      ↔ rule.id = .generic
        ∨ ∃ s ∈ amazonService :: services, s.variant = rule.id ∧ s.Applies env context := by
    intro rule hrule
    rw [matched_eq_matchesByUrl h rule hrule, matchesByUrl_iff]
  have hle : ∀ t ∈ amazonService :: services, t.Applies env context →
      t.priority ≤ rule.priority := by
    intro t ht happlies
    obtain ⟨other, hother, hid, hpriority⟩ := exists_rule_of_service t ht
    have hother' := (hmatches other hother).mpr (.inr ⟨t, ht, hid.symm, happlies⟩)
    exact hpriority ▸ hmax other hother hother'
  rw [hvariant]
  constructor
  · intro hid
    have hpriority := priority_of_service rule hrule s hs hid.symm
    refine ⟨?_, fun t ht happlies => hpriority ▸ hle t ht happlies⟩
    obtain hgeneric | ⟨t, ht, htvariant, happlies⟩ := (hmatches rule hrule).mp hmatched
    · exact absurd hpriority (priority_of_generic rule hrule hgeneric s hs).ne'
    · exact ⟨t, ht, htvariant.trans hid, happlies⟩
  · rintro ⟨⟨t, ht, htvariant, happlies⟩, hfirst⟩
    have htle := hle t ht happlies
    obtain hgeneric | ⟨u, hu, huvariant, huapplies⟩ := (hmatches rule hrule).mp hmatched
    · exact absurd htle (Nat.not_le.mpr (priority_of_generic rule hrule hgeneric t ht))
    · -- the rule that decides is of the priority of the service, so it is its rule
      have hupriority := priority_of_service rule hrule u hu huvariant
      have hule := hfirst u hu huapplies
      have htpriority := (priority_and_domains_of_variant t ht s hs htvariant).1
      have heq : u.priority = s.priority :=
        le_antisymm hule (htpriority ▸ hupriority ▸ htle)
      rw [← huvariant, variant_of_priority u hu s hs heq]

/-- **A variant of a service is for the hosts of the service just where no other host has its
name in it**, or a rule of a higher priority matches by the host. -/
theorem showsOwnHosts_iff (env : RulesEnv) (context : DecisionContext) (h : Bare context) :
    ShowsOwnHosts env context ↔ NamesOwnHosts env context := by
  constructor
  · intro hshows s hs happlies
    by_cases hhigher : ∃ t ∈ amazonService :: services,
        s.priority < t.priority ∧ t.Applies env context
    · exact .inr hhigher
    · left
      have hmem := List.mem_cons_of_mem amazonService hs
      refine hshows s hs ((service_of_resolveDecision h hmem).mpr
        ⟨⟨s, hmem, rfl, happlies⟩, fun t ht htapplies => ?_⟩)
      exact Nat.le_of_not_lt fun hlt => hhigher ⟨t, ht, hlt, htapplies⟩
  · intro hnames s hs hselected
    have hmem := List.mem_cons_of_mem amazonService hs
    obtain ⟨⟨t, ht, htvariant, happlies⟩, hfirst⟩ :=
      (service_of_resolveDecision h hmem).mp hselected
    obtain ⟨hpriority, hdomains⟩ := priority_and_domains_of_variant t ht s hmem htvariant
    obtain rfl | ht := List.mem_cons.mp ht
    · exact absurd htvariant.symm (variant_ne_amazonService s hs)
    · obtain howns | ⟨u, hu, hlt, huapplies⟩ := hnames t ht happlies
      · unfold ServiceRule.OwnsHost at howns ⊢
        rwa [hdomains] at howns
      · exact absurd (hfirst u hu huapplies) (Nat.not_le.mpr (hpriority ▸ hlt))

/-- A runtime that reads one URL, of Netflix. -/
def netflixEnv : RulesEnv where
  parseUrl value :=
    if value = "https://www.netflix.com/title/80100172" then
      some ⟨"https:", "www.netflix.com", "/title/80100172"⟩
    else none
  canonicalizeEnrichmentSlug := id
  safeParse _ data := some data

/-- An atom that is a page of Netflix, and nothing else is known of it. -/
def netflixContext : DecisionContext where
  identity := { canonicalUrl := some "https://www.netflix.com/title/80100172" }

theorem bare_netflixContext : Bare netflixContext := ⟨rfl, rfl, fun _ h => by cases h⟩

theorem hostOf_netflix :
    hostOf netflixEnv netflixContext.identity.canonicalUrl = some "www.netflix.com" := by decide

/-- **A page of Netflix is presented as a profile of X**, as the host ends in `x.com`. -/
theorem not_showsOwnHosts : ¬ ShowsOwnHosts netflixEnv netflixContext := by
  have hservice : ∃ s ∈ services, s.priority = 980
      ∧ s.domains = ["x.com", "twitter.com"] ∧ s.asks netflixContext = true := by decide
  obtain ⟨s, hs, hpriority, hdomains, hasks⟩ := hservice
  have happlies : s.Applies netflixEnv netflixContext := by
    refine ⟨hasks, "x.com", by rw [hdomains]; exact List.mem_cons_self, ?_⟩
    rw [hasHost, hostOf_netflix]
    decide
  have hhighest : ∀ t ∈ amazonService :: services, t.priority ≤ 980 := by decide
  intro hshows
  obtain ⟨host, hhost, domain, hdomain, hown⟩ := hshows s hs
    ((service_of_resolveDecision bare_netflixContext (List.mem_cons_of_mem _ hs)).mpr
      ⟨⟨s, List.mem_cons_of_mem _ hs, rfl, happlies⟩, fun t ht _ => hpriority ▸ hhighest t ht⟩)
  have hother : ∀ domain ∈ ["x.com", "twitter.com"], ¬ ("www.netflix.com" = domain
      ∨ ('.' :: domain.toList) <:+ "www.netflix.com".toList) := by decide
  obtain rfl := Option.some.inj (hostOf_netflix.symm.trans hhost)
  exact hother domain (hdomains ▸ hdomain) hown

/-- Of a page of Netflix. -/
theorem showsOwnHosts_iff_netflix :
    ShowsOwnHosts netflixEnv netflixContext ↔ NamesOwnHosts netflixEnv netflixContext :=
  showsOwnHosts_iff netflixEnv netflixContext ⟨rfl, rfl, fun _ h => by cases h⟩

end AtomRules
