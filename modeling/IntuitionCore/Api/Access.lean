import IntuitionCore.Api.App

/-!
# Who is let in

A request that presents a bearer credential which is no live key should be refused: nobody
should go on without a key because the one that was given has a typo. The middleware refuses
the keys it sees. A credential that does not start as the keys do, or comes after the scheme
in other letters than `Bearer`, it does not see, and the request goes on as if nothing had
been presented. And preflights are answered before anything is looked at.

What is never wrong is that a write needs a key that may write.
-/

namespace KgApi

/-! ## What is presented -/

/-- The credential that a header presents: what follows the scheme, in letters of either
case. -/
def presented (authorizationHeader : Option String) : Option String := do
  let header ← authorizationHeader
  let scheme := header.toList.takeWhile fun c => !isJsSpace c
  let credential := jsTrim (.ofList (header.toList.drop scheme.length))
  if scheme.map Char.toLower = "bearer".toList ∧ credential ≠ [] then some (.ofList credential)
  else none

section Access

variable {J : Type} (env : ApiEnv J) (config : ApiConfig) (s : ApiState) (req : HttpRequest)
  (nowMs : ℕ)

/-- The live key that a request carries: one that exists, and is not revoked. -/
def liveKey (db : KgDb) : Option ApiKeyRow :=
  (presented req.authorization).bind (findApiKey env.sha256Hex db)

/-- The request presents a credential that is no live key. -/
def PresentsBadKey : Prop :=
  (presented req.authorization).isSome = true ∧ liveKey env req s.db = none

/-- Without a live key the request may not pass in gated mode. -/
def NeedsKey : Prop :=
  config.authMode = .gated ∧ isGatedPublicPath req.path = false ∧ liveKey env req s.db = none

/-- **Authentication fails closed.** A write that changes the graph is by a live key that may
write, unless the mode is open; what needs a key and has none is refused; and so is whoever
presents a credential that is no live key, who never goes on as nobody. -/
structure FailsClosed : Prop where
  writes : req.method = "POST" → isWritePath req.path = true →
    (serve env config s req nowMs).1.db.graph ≠ s.db.graph →
    config.authMode = .openMode ∨ ∃ key ∈ liveKey env req s.db, key.canWrite = true
  needsKey : NeedsKey env config s req → (serve env config s req nowMs).2.status = 401
  badKey : PresentsBadKey env s req →
    (serve env config s req nowMs).2.status = 401 ∧ middleware env config s.db req ≠ .ok none

/-- How the middleware for preflights is documented: it answers them, and nothing else. -/
structure AnswersPreflights (cors : ApiConfig → HttpRequest → Option (HttpResponse J)) : Prop where
  preflight : ∀ config req, req.method = "OPTIONS" →
    ∃ response, cors config req = some response ∧ response.status = 204
  others : ∀ config req, req.method ≠ "OPTIONS" → cors config req = none

/-- **When authentication fails closed**: a preflight needs no key and presents no bad one,
and a bad key in any other request is one that the middleware sees, unless no key at all
would do. -/
def SeesBadKeys : Prop :=
  if req.method = "OPTIONS" then ¬ NeedsKey env config s req ∧ ¬ PresentsBadKey env s req
  else PresentsBadKey env s req → (bearerToken req.authorization).isSome = true
    ∨ config.authMode = .gated ∧ isGatedPublicPath req.path = false

variable {env config s req nowMs}

/-- A token follows `Bearer `, and starts as the keys do. -/
theorem bearerToken_eq_some {header : Option String} {token : String}
    (h : bearerToken header = some token) : ∃ text rest, header = some text ∧
      text.toList = "Bearer ".toList ++ rest ∧ jsTrim (.ofList rest) ≠ [] ∧
      token = .ofList (jsTrim (.ofList rest)) := by
  obtain ⟨text, hheader, h⟩ := Option.bind_eq_some_iff.mp h
  by_cases hprefix : "Bearer ".toList.isPrefixOf text.toList = true
  · obtain ⟨rest, hrest⟩ := List.isPrefixOf_iff_prefix.mp hprefix
    rw [if_pos hprefix, ← hrest, show "Bearer ".length = "Bearer ".toList.length from rfl,
      List.drop_left] at h
    obtain ⟨hkey, h⟩ := Option.ite_none_right_eq_some.mp h
    refine ⟨text, rest, hheader, hrest.symm, fun hnil => ?_, (Option.some.inj h).symm⟩
    rw [hnil] at hkey
    exact absurd hkey (by decide)
  · rw [if_neg hprefix] at h
    cases h

/-- What the middleware takes for a key is what is presented. -/
theorem presented_of_bearerToken {header : Option String} {token : String}
    (h : bearerToken header = some token) : presented header = some token := by
  obtain ⟨text, rest, rfl, htext, hne, rfl⟩ := bearerToken_eq_some h
  have hscheme : text.toList.takeWhile (fun c => !isJsSpace c) = "Bearer".toList := by
    rw [htext]
    rfl
  have htrim : jsTrim (.ofList (' ' :: rest)) = jsTrim (.ofList rest) := by
    unfold jsTrim
    rw [String.toList_ofList, String.toList_ofList, List.dropWhile_cons_of_pos (by decide)]
  have hdrop : text.toList.drop "Bearer".toList.length = ' ' :: rest := by
    rw [htext]
    rfl
  show (if _ ∧ _ then _ else _) = _
  rw [hscheme, hdrop, htrim, if_pos ⟨by decide, hne⟩]

/-! ## Who may write -/

/-- A writer is anybody in the open mode, and otherwise a key that may write. -/
theorem requireWriter_eq_ok {identity writer : Option ApiKeyRow}
    (h : requireWriter (J := J) config identity = .ok writer) :
    config.authMode = .openMode ∨ ∃ key ∈ identity, key.canWrite = true := by
  unfold requireWriter at h
  by_cases hopen : config.authMode = .openMode
  · exact .inl hopen
  · rw [if_neg hopen] at h
    cases identity with
    | none => cases h
    | some key =>
      dsimp only at h
      by_cases hwrite : key.canWrite = true
      · exact .inr ⟨key, rfl, hwrite⟩
      · rw [if_neg hwrite] at h
        cases h

/-- **The graph changes only by a route that found a writer.** -/
theorem route_graph {db : KgDb} {identity : Option ApiKeyRow} {now : ℤ}
    (h : (route env config db req identity now).1.graph ≠ db.graph) :
    config.authMode = .openMode ∨ ∃ key ∈ identity, key.canWrite = true := by
  unfold route at h
  split at h
  · cases hwriter : requireWriter (J := J) config identity with
    | ok writer => exact requireWriter_eq_ok hwriter
    | error response =>
      rw [hwriter] at h
      exact absurd rfl h
  · split at h <;> exact absurd rfl h

theorem handle_graph {identity : Option ApiKeyRow}
    (h : (handle env config s req identity nowMs).1.db.graph ≠ s.db.graph) :
    config.authMode = .openMode ∨ ∃ key ∈ identity, key.canWrite = true := by
  unfold handle at h
  split at h
  · exact route_graph h
  · dsimp only at h
    split at h
    · exact route_graph h
    · exact absurd rfl h

/-! ## Who is let in -/

theorem serve_of_refused {response : HttpResponse J}
    (h : middleware env config s.db req = .error response) :
    serve env config s req nowMs = (s, response) := by
  unfold serve
  rw [h]

/-- Whoever is refused changes nothing. What is said of the refusal decides. -/
theorem failsClosed_of_refused {response : HttpResponse J}
    (h : middleware env config s.db req = .error response) :
    FailsClosed env config s req nowMs
      ↔ (NeedsKey env config s req ∨ PresentsBadKey env s req → response.status = 401) := by
  have hserve : serve env config s req nowMs = (s, response) := serve_of_refused h
  constructor
  · rintro ⟨-, hneeds, hbad⟩ (hcase | hcase)
    · rw [hserve] at hneeds
      exact hneeds hcase
    · rw [hserve] at hbad
      exact (hbad hcase).1
  · intro hstatus
    refine ⟨fun _ _ hgraph => ?_, fun hcase => ?_, fun hcase => ⟨?_, ?_⟩⟩
    · rw [hserve] at hgraph
      exact absurd rfl hgraph
    · rw [hserve]
      exact hstatus (.inl hcase)
    · rw [hserve]
      exact hstatus (.inr hcase)
    · rw [h]
      rintro ⟨⟩

/-- Whoever is admitted with a key carries it, and needs no other. -/
theorem failsClosed_of_key {key : ApiKeyRow} (h : middleware env config s.db req = .ok (some key))
    (hlive : liveKey env req s.db = some key) : FailsClosed env config s req nowMs := by
  refine ⟨fun _ _ hgraph => ?_, fun hcase => ?_, fun hcase => ?_⟩
  · have hserve : serve env config s req nowMs
        = handle env config { s with db := stampUsage s.db key.id nowMs } req (some key) nowMs := by
      unfold serve
      rw [h]
    rw [hserve] at hgraph
    rw [hlive]
    exact handle_graph hgraph
  · exact absurd (hlive.symm.trans hcase.2.2) (by rintro ⟨⟩)
  · exact absurd (hlive.symm.trans hcase.2) (by rintro ⟨⟩)

/-- Whoever is admitted as nobody must not have presented anything, or a live key. -/
theorem failsClosed_of_nobody (h : middleware env config s.db req = .ok none)
    (hneeds : ¬ NeedsKey env config s req) :
    FailsClosed env config s req nowMs ↔ ¬ PresentsBadKey env s req := by
  constructor
  · exact fun hclosed hbad => (hclosed.badKey hbad).2 h
  · intro hbad
    refine ⟨fun _ _ hgraph => ?_, fun hcase => absurd hcase hneeds, fun hcase => absurd hcase hbad⟩
    have hserve : serve env config s req nowMs = handle env config s req none nowMs := by
      unfold serve
      rw [h]
    rw [hserve] at hgraph
    obtain hopen | ⟨key, hkey, -⟩ := handle_graph hgraph
    · exact .inl hopen
    · cases hkey

/-- **When authentication fails closed.** -/
theorem fails_closed_iff (hcors : AnswersPreflights env.cors) :
    FailsClosed env config s req nowMs ↔ SeesBadKeys env config s req := by
  unfold SeesBadKeys
  by_cases hmethod : req.method = "OPTIONS"
  · obtain ⟨response, hresponse, hstatus⟩ := hcors.preflight config req hmethod
    have hmiddleware : middleware env config s.db req = .error response := by
      unfold middleware
      rw [hresponse]
    rw [if_pos hmethod, failsClosed_of_refused hmiddleware, hstatus, ← not_or]
    exact imp_congr_right fun _ => iff_of_false (by decide) fun h => h
  · have hmiddleware :
        middleware env config s.db req = authenticate env s.db req >>= gate config req := by
      unfold middleware
      rw [hcors.others config req hmethod]
    rw [if_neg hmethod]
    unfold authenticate at hmiddleware
    cases htoken : bearerToken req.authorization with
    | some token =>
      refine iff_of_true ?_ fun _ => .inl rfl
      have hlive : liveKey env req s.db = findApiKey env.sha256Hex s.db token := by
        unfold liveKey
        rw [presented_of_bearerToken htoken]
        rfl
      rw [htoken] at hmiddleware
      cases hkey : findApiKey env.sha256Hex s.db token with
      | none =>
        simp only [hkey] at hmiddleware
        exact (failsClosed_of_refused hmiddleware).mpr fun _ => rfl
      | some key =>
        simp only [hkey] at hmiddleware
        have hgate : gate (J := J) config req (some key) = .ok (some key) := by
          unfold gate
          rw [if_neg fun h => Bool.false_ne_true h.2.2]
        exact failsClosed_of_key (hmiddleware.trans hgate) (hlive.trans hkey)
    | none =>
      rw [htoken] at hmiddleware
      by_cases hgated : config.authMode = .gated ∧ isGatedPublicPath req.path = false
      · have hgate : gate (J := J) config req none = .error (refusal 401 "api_key_required") := by
          unfold gate
          rw [if_pos ⟨hgated.1, hgated.2, rfl⟩]
        exact iff_of_true ((failsClosed_of_refused (hmiddleware.trans hgate)).mpr fun _ => rfl)
          fun _ => .inr hgated
      · have hgate : gate (J := J) config req none = .ok none := by
          unfold gate
          rw [if_neg fun h => hgated ⟨h.1, h.2.1⟩]
        rw [failsClosed_of_nobody (hmiddleware.trans hgate) fun h => hgated ⟨h.1, h.2.1⟩]
        exact imp_congr_right fun _ =>
          iff_of_false (fun h => h) fun h => h.elim (by rintro ⟨⟩) hgated

end Access

/-! ## A typo in a key -/

/-- An API for which nothing is stored, and that has to hash one token. -/
def keyless : ApiEnv Unit where
  ids := ⟨fun _ => "", fun _ _ _ => ""⟩
  sha256Hex token :=
    if token = "ik_01" then "6bb4825c7282156aa8c8219f4671a5286937f73991a76d9660b0821179671adc"
    else ""
  lower := Char.toLower
  presentation := ⟨fun _ _ => (), fun _ _ _ => (), fun _ _ => (), ()⟩
  cors _ req := if req.method = "OPTIONS" then some { status := 204, body := .empty } else none

theorem keyless_answersPreflights : AnswersPreflights keyless.cors :=
  ⟨fun _ _ h => ⟨_, if_pos h, rfl⟩, fun _ _ h => if_neg h⟩

/-- A request for the statistics, with some header. -/
def statsRequest (authorization : String) : HttpRequest :=
  { method := "GET", path := ["api", "stats"], authorization := some authorization }

/-- An unknown key that looks like one is seen. -/
theorem fails_closed_iff_unknownKey :
    FailsClosed keyless {} {} (statsRequest "Bearer ik_01") 0 :=
  (fails_closed_iff keyless_answersPreflights).mpr fun _ => .inl rfl

/-- **A key with a typo goes on as nobody.** The prefix is misspelled, and the request is
answered as if it had no key. -/
theorem misspelledKey_served : ¬ FailsClosed keyless {} {} (statsRequest "Bearer ki_01") 0
    ∧ (serve keyless {} {} (statsRequest "Bearer ki_01") 0).2.status = 200 :=
  ⟨fun h => absurd (h.badKey ⟨by decide, rfl⟩).2 fun hne => hne rfl, rfl⟩

end KgApi
