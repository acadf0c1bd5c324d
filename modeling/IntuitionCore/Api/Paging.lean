import IntuitionCore.Api.Hidden
import IntuitionCore.Library.RowBags
import Mathlib.Logic.Function.Basic

/-!
# Pages, and triples with their terms

A list is served page by page, and each page is a query of its own. An `ORDER BY` leaves open
in which order rows of the same rank come, and a join how often a row does. What the routes
answer is therefore a relation here: a reply is possible if PostgreSQL may return the rows that
it is made of.

Every list is ordered by the time and the id of its rows, so there is but one order, and the
terms of a triple are joined by the key of the atoms, so a triple comes once. So there is but one
possible reply, and pages make up the list.
-/

namespace KgApi

/-! ## Requests for pages -/

/-- The request for a page of a list. -/
def QueryParams.atPage (query : QueryParams) (limit i : ℕ) : QueryParams :=
  Function.update (Function.update query "limit" (some (toString limit)))
    "offset" (some (toString (i * limit)))

/-- A numeral is read as the number. -/
theorem parseInt_toString (n : ℕ) : parseInt (toString n) = some (n : ℤ) := by
  have hdigits : ∀ c ∈ Nat.toDigits 10 n, c.isDigit = true := fun c hc =>
    Nat.isDigit_of_mem_toDigits (by decide) (by decide) hc
  have hlist : (toString n).toList = Nat.toDigits 10 n := Nat.toList_repr
  have hlead : leadingDigits (Nat.toDigits 10 n) = some n := by
    have htake : (Nat.toDigits 10 n).takeWhile Char.isDigit = Nat.toDigits 10 n :=
      List.takeWhile_eq_self_iff.mpr hdigits
    rw [leadingDigits, htake, Nat.ofDigitChars_ten_toDigits]
    exact if_neg (by simp)
  rw [parseInt, hlist]
  cases hcons : Nat.toDigits 10 n with
  | nil => exact absurd hcons Nat.toDigits_ne_nil
  | cons c cs =>
    have hc : c.isDigit = true := hdigits c (hcons ▸ List.mem_cons_self)
    have hspace : ¬ isJsSpace c = true := fun hspace =>
      absurd hc (Bool.eq_false_iff.mp (isDigit_of_isJsSpace hspace))
    rw [hcons] at hlead
    rw [List.dropWhile_cons_of_neg hspace]
    split
    · next heq =>
      rw [(List.cons.inj heq).1] at hc
      exact absurd hc (by decide)
    · next heq =>
      rw [(List.cons.inj heq).1] at hc
      exact absurd hc (by decide)
    · rw [hlead]
      rfl

/-- **A page is asked for by its limit and its offset.** -/
theorem parsePagination_atPage (query : QueryParams) {limit : ℕ} (hpos : 1 ≤ limit)
    (hmax : limit ≤ maxPageSize) (i : ℕ) :
    parsePagination (query.atPage limit i) = (limit, i * limit) := by
  have hlimit : query.atPage limit i "limit" = some (toString limit) := by
    rw [QueryParams.atPage, Function.update_of_ne (by decide), Function.update_self]
  have hoffset : query.atPage limit i "offset" = some (toString (i * limit)) :=
    Function.update_self _ _ _
  have hne : ((limit : ℤ) = 0) = False := by
    rw [eq_iff_iff, iff_false]
    omega
  unfold parsePagination
  rw [hlimit, hoffset, Option.elim_some, Option.elim_some, parseInt_toString, parseInt_toString,
    Option.getD_some, Option.getD_some]
  simp only [hne, if_false]
  refine Prod.ext ?_ (Int.toNat_natCast _)
  show min (max (limit : ℤ) 1).toNat maxPageSize = limit
  omega

/-- The other parameters are the same for every page. -/
theorem given_atPage (query : QueryParams) (limit i : ℕ) {name : String} (hlimit : name ≠ "limit")
    (hoffset : name ≠ "offset") : (query.atPage limit i).given name = query.given name := by
  rw [QueryParams.given, QueryParams.atPage, Function.update_of_ne hoffset,
    Function.update_of_ne hlimit, QueryParams.given]

theorem wantsExpandedTerms_atPage (query : QueryParams) (limit i : ℕ) :
    wantsExpandedTerms (query.atPage limit i) = wantsExpandedTerms query := by
  rw [wantsExpandedTerms, QueryParams.atPage, Function.update_of_ne (by decide),
    Function.update_of_ne (by decide), wantsExpandedTerms]

/-! ## What may be answered -/

section Answers

variable {J : Type} (presentation : Presentation J) (lower : Char → Char) (semantic : Bool)
  (db : KgDb)

open ReadReply

/-- A page may be answered from any order of its list. -/
def MayPage {α β ω : Type} [LE ω] (texts : List String) (query : QueryParams)
    (rows : Multiset α) (rank : α → ω) (view : α → β)
    (body : List β → Pagination → ReadBody J) (reply : ReadReply J) : Prop :=
  ∃ out, OrderedBy rank rows out
    ∧ reply = withTexts texts (paged (parsePagination query) out view body)

/-- The texts that `GET /api/atoms` filters by. -/
def atomTexts (query : QueryParams) : List String :=
  (query.given "classification_type").toList ++ (query.given "q").toList

/-- The atoms that `GET /api/atoms` lists. -/
def ListedAtom (query : QueryParams) (row : AtomRow) : Prop :=
  publicNodes row
    ∧ (∀ type ∈ query.given "classification_type", row.classificationType = type)
    ∧ ∀ text ∈ query.given "q",
      ilike lower ('%' :: escapeLikePattern text.toList ++ ['%']) row.searchText.toList = true

instance (query : QueryParams) (row : AtomRow) : Decidable (ListedAtom lower query row) :=
  inferInstanceAs (Decidable (_ ∧ (∀ _ ∈ _, _) ∧ ∀ _ ∈ _, _))

/-- `GET /api/atoms`. -/
def MayGetAtoms (query : QueryParams) : ReadReply J → Prop :=
  MayPage (atomTexts query) query (db.nodes.select fun _ row => ListedAtom lower query row).rows
    (fun row => latestFirst row.2.createdAt row.1) (listView presentation semantic) .atoms

/-- `GET /api/iids/:iid/atoms`. -/
def MayGetIidAtoms (iid : String) (query : QueryParams) (reply : ReadReply J) : Prop :=
  if (jsTrim iid).isEmpty then
    reply = ⟨400, .error "invalid_iid" (some "iid must not be empty")⟩
  else
    MayPage [iid] query
      (db.nodes.select fun id row => id ∈ nodesOfIid db iid ∧ publicNodes row).rows
      (fun row => toLex (OrderDual.toDual (decide (row.2.iid = some iid)),
        latestFirst row.2.createdAt row.1))
      (listView presentation semantic) .atoms reply

/-- `GET /api/atoms/:id/artifacts`. -/
def MayGetArtifacts (id : String) (query : QueryParams) (reply : ReadReply J) : Prop :=
  if (publicNode db id).isNone then reply = withTexts [id] notFound
  else
    MayPage [id] query (db.artifacts.select fun _ row => row.nodeId = id).rows
      (fun row => latestFirst row.2.createdAt row.1) artifactView .artifacts reply

/-- A triple, and the atoms that are joined to it. -/
structure JoinedTriple where
  triple : String × TripleRow
  subject : Option (String × AtomRow)
  predicate : Option (String × AtomRow)
  object : Option (String × AtomRow)

/-- The atom that a term is joined to: the public one of its id. -/
def JoinsTerm (id : String) (node : String × AtomRow) : Prop := node.1 = id ∧ publicNodes node.2

instance (id : String) (node : String × AtomRow) : Decidable (JoinsTerm id node) :=
  inferInstanceAs (Decidable (_ ∧ _))

/-- `selectExpandedTriples`: the atoms are joined to a triple one after the other. -/
def selectExpandedTriples : Multiset JoinedTriple :=
  let subjects := leftJoin db.graph.triples.rows db.nodes.rows fun row node =>
    JoinsTerm row.2.subjectId node
  let predicates := leftJoin subjects db.nodes.rows fun row node =>
    JoinsTerm row.1.2.predicateId node
  let objects := leftJoin predicates db.nodes.rows fun row node =>
    JoinsTerm row.1.1.2.objectId node
  objects.map fun row => ⟨row.1.1.1, row.1.1.2, row.1.2, row.2⟩

/-- How a term is presented that is joined. -/
def presentTerm (node : String × AtomRow) : J :=
  presentation.exposeExpandedAtomTerm ⟨node.1, node.2.data, node.2.dataResolved,
    node.2.classificationType, node.2.rawType⟩ semantic

def presentExpandedTerms (row : JoinedTriple) : ExpandedTriple J where
  triple := row.triple
  subject := row.subject.map (presentTerm presentation semantic)
  predicate := row.predicate.map (presentTerm presentation semantic)
  object := row.object.map (presentTerm presentation semantic)

/-- A page of the triples that satisfy a condition. -/
def MayPageOfTriples (texts : List String) (query : QueryParams) (listed : TripleRow → Prop)
    [DecidablePred listed] (reply : ReadReply J) : Prop :=
  if wantsExpandedTerms query then
    MayPage texts query ((selectExpandedTriples db).filter fun row => listed row.triple.2)
      (fun row => latestFirst row.triple.2.createdAt row.triple.1)
      (presentExpandedTerms presentation semantic) .expandedTriples reply
  else
    MayPage texts query (db.graph.triples.select fun _ row => listed row).rows
      (fun row => latestFirst row.2.createdAt row.1) id .triples reply

/-- The triples that `GET /api/atoms/:id/triples` lists. -/
def TouchesAtom (id : String) (row : TripleRow) : Prop :=
  (row.subjectId = id ∨ row.predicateId = id ∨ row.objectId = id) ∧ publicTriples row

instance (id : String) : DecidablePred (TouchesAtom id) := fun _ =>
  inferInstanceAs (Decidable ((_ ∨ _ ∨ _) ∧ _))

/-- `GET /api/atoms/:id/triples`. -/
def MayGetAtomTriples (id : String) (query : QueryParams) : ReadReply J → Prop :=
  MayPageOfTriples presentation semantic db [id] query (TouchesAtom id)

/-- The texts that `GET /api/triples` filters by. -/
def tripleTexts (query : QueryParams) : List String :=
  (query.given "subject_id").toList ++ (query.given "predicate_id").toList
    ++ (query.given "object_id").toList

/-- The triples that `GET /api/triples` lists. -/
def ListedTriple (query : QueryParams) (row : TripleRow) : Prop :=
  publicTriples row
    ∧ (∀ id ∈ query.given "subject_id", row.subjectId = id)
    ∧ (∀ id ∈ query.given "predicate_id", row.predicateId = id)
    ∧ ∀ id ∈ query.given "object_id", row.objectId = id

instance (query : QueryParams) : DecidablePred (ListedTriple query) := fun _ =>
  inferInstanceAs (Decidable (_ ∧ (∀ _ ∈ _, _) ∧ (∀ _ ∈ _, _) ∧ ∀ _ ∈ _, _))

/-- `GET /api/triples`. -/
def MayGetTriples (query : QueryParams) : ReadReply J → Prop :=
  MayPageOfTriples presentation semantic db (tripleTexts query) query (ListedTriple query)

/-- `GET /api/triples/:id`, the first row that is returned. -/
def MayGetTriple (id : String) (query : QueryParams) (reply : ReadReply J) : Prop :=
  if wantsExpandedTerms query then
    ∃ out : List JoinedTriple, (out : Multiset JoinedTriple)
        = (selectExpandedTriples db).filter (fun row =>
            row.triple.1 = id ∧ publicTriples row.triple.2)
      ∧ reply = withTexts [id] (one out.head? fun row =>
          .expandedTriple (presentExpandedTerms presentation semantic row))
  else
    ∃ out : List (String × TripleRow), (out : Multiset (String × TripleRow))
        = db.graph.triples.rows.filter (fun row => row.1 = id ∧ publicTriples row.2)
      ∧ reply = withTexts [id] (one out.head? .triple)

/-- The texts that `GET /api/events` filters by. -/
def eventTexts (query : QueryParams) : List String :=
  (query.given "entity_kind").toList ++ (query.given "event_type").toList
    ++ (query.given "entity_id").toList

/-- The events that `GET /api/events` lists. -/
def ListedEvent (query : QueryParams) (row : KgEventRow) : Prop :=
  publicEvents db row
    ∧ (∀ kind ∈ query.given "entity_kind", row.entityKind = kind)
    ∧ (∀ type ∈ query.given "event_type", row.eventType = type)
    ∧ ∀ id ∈ query.given "entity_id", row.entityId = id

instance (query : QueryParams) (row : KgEventRow) : Decidable (ListedEvent db query row) :=
  inferInstanceAs (Decidable (_ ∧ (∀ _ ∈ _, _) ∧ (∀ _ ∈ _, _) ∧ ∀ _ ∈ _, _))

/-- `GET /api/events`. -/
def MayGetEvents (query : QueryParams) : ReadReply J → Prop :=
  let rows : Table (ℤ ×ₗ String) KgEventRow :=
    db.graph.events.select fun _ row => ListedEvent db query row
  MayPage (eventTexts query) query rows.rows
    (fun row => latestFirst (ofLex row.1).1 (ofLex row.1).2)
    (fun row => (ofLex row.1, row.2)) .events

/-! ## One answer -/

variable {presentation lower semantic db}

/-- Times and ids rank rows differently where the ids do. -/
theorem eq_of_latestFirst_eq {κ : Type} {time time' : ℤ} {id id' : κ}
    (h : latestFirst time id = latestFirst time' id') : time = time' ∧ id = id' :=
  Prod.ext_iff.mp (toLex.injective (OrderDual.toDual.injective h))

/-- **The order of a table by ranks that are different is the only one.** -/
theorem mayPage_iff {κ ρ ω β : Type} [LinearOrder κ] [LinearOrder ω] {texts : List String}
    {query : QueryParams} (t : Table κ ρ) {rank : κ × ρ → ω}
    (hrank : ∀ a b, rank a = rank b → a.1 = b.1) {view : κ × ρ → β}
    {body : List β → Pagination → ReadBody J} {reply : ReadReply J} :
    MayPage texts query t.rows rank view body reply ↔ reply = withTexts texts
      (paged (parsePagination query) (t.orderBy fun k r => rank (k, r)) view body) := by
  have horder := t.orderedBy_orderBy fun k r => rank (k, r)
  constructor
  · rintro ⟨out, hout, rfl⟩
    rw [hout.unique horder fun a ha b hb heq => Table.eq_of_mem_rows ha hb (hrank a b heq)]
  · rintro rfl
    exact ⟨_, horder, rfl⟩

theorem mayGetAtoms_iff {query : QueryParams} {reply : ReadReply J} :
    MayGetAtoms presentation lower semantic db query reply
      ↔ reply = getAtoms presentation lower semantic db query :=
  mayPage_iff _ fun _ _ h => (eq_of_latestFirst_eq h).2

theorem mayGetIidAtoms_iff {iid : String} {query : QueryParams} {reply : ReadReply J} :
    MayGetIidAtoms presentation semantic db iid query reply
      ↔ reply = getIidAtoms presentation semantic db iid query := by
  unfold MayGetIidAtoms getIidAtoms
  split
  · rfl
  · refine mayPage_iff _ fun a b h => ?_
    exact (eq_of_latestFirst_eq (Prod.ext_iff.mp (toLex.injective h)).2).2

theorem mayGetArtifacts_iff {id : String} {query : QueryParams} {reply : ReadReply J} :
    MayGetArtifacts db id query reply ↔ reply = getArtifacts db id query := by
  unfold MayGetArtifacts getArtifacts
  cases publicNode db id with
  | none => rfl
  | some node => exact mayPage_iff _ fun _ _ h => (eq_of_latestFirst_eq h).2

theorem mayGetEvents_iff {query : QueryParams} {reply : ReadReply J} :
    MayGetEvents db query reply ↔ reply = getEvents db query := by
  refine mayPage_iff _ fun a b h => ?_
  obtain ⟨htime, hid⟩ := eq_of_latestFirst_eq h
  exact Prod.ext htime hid

/-! ## Triples come once, with the terms they have -/

/-- **A term is joined to the public atom of its id**, or to none. -/
theorem filter_joinsTerm (db : KgDb) (id : String) :
    db.nodes.rows.filter (JoinsTerm id) = (publicNode db id).elim 0 ({·}) :=
  Table.filter_rows_key id publicNodes

/-- A triple with the public atoms of its terms. -/
def joinTerms (db : KgDb) (row : String × TripleRow) : JoinedTriple where
  triple := row
  subject := publicNode db row.2.subjectId
  predicate := publicNode db row.2.predicateId
  object := publicNode db row.2.objectId

/-- **Joins give each triple once**, with the public atoms of its terms. -/
theorem selectExpandedTriples_eq (db : KgDb) :
    selectExpandedTriples db = db.graph.triples.rows.map (joinTerms db) := by
  unfold selectExpandedTriples
  dsimp only
  rw [leftJoin_eq_map (fun row : String × TripleRow => publicNode db row.2.subjectId)
      fun _ _ => filter_joinsTerm db _,
    leftJoin_eq_map (fun row : (String × TripleRow) × Option (String × AtomRow) =>
      publicNode db row.1.2.predicateId) fun _ _ => filter_joinsTerm db _,
    leftJoin_eq_map (fun row : ((String × TripleRow) × Option (String × AtomRow))
      × Option (String × AtomRow) => publicNode db row.1.1.2.objectId)
      fun _ _ => filter_joinsTerm db _,
    Multiset.map_map, Multiset.map_map, Multiset.map_map]
  rfl

theorem filter_selectExpandedTriples (db : KgDb) (p : String × TripleRow → Prop)
    [DecidablePred p] : (selectExpandedTriples db).filter (fun row => p row.triple)
      = (db.graph.triples.rows.filter p).map (joinTerms db) := by
  rw [selectExpandedTriples_eq, Multiset.filter_map]
  rfl

/-- What is presented of a triple with its terms is the triple as it is expanded. -/
theorem presentExpandedTerms_joinTerms (row : String × TripleRow) :
    presentExpandedTerms presentation semantic (joinTerms db row)
      = expandTriple presentation semantic db row := by
  have hterm : ∀ id, (publicNode db id).map (presentTerm presentation semantic)
      = joinTerm presentation semantic db id := by
    intro id
    rw [joinTerm, publicNode, Option.map_map, Option.map_map]
    rfl
  rw [presentExpandedTerms, expandTriple, joinTerms, hterm, hterm, hterm]

/-- What is presented of what is made of some rows is made of a page of them. -/
theorem paged_map {α α' β : Type} (pagination : ℕ × ℕ) (rows : List α) (f : α → α')
    (view : α' → β) (body : List β → Pagination → ReadBody J) :
    paged pagination (rows.map f) view body = paged pagination rows (view ∘ f) body := by
  have hpage : page pagination.1 pagination.2 (rows.map f)
      = (page pagination.1 pagination.2 rows).map f := by
    rw [page, page, List.map_take, List.map_drop]
  unfold paged
  dsimp only
  rw [hpage, List.map_map, List.length_map]

/-- **Triples are listed in the one order, expanded or not.** -/
theorem mayPageOfTriples_iff {texts : List String} {query : QueryParams}
    {listed : TripleRow → Prop} [DecidablePred listed] {reply : ReadReply J} :
    MayPageOfTriples presentation semantic db texts query listed reply
      ↔ reply = withTexts texts (pageOfTriples presentation semantic db query
          (db.graph.triples.select fun _ row => listed row)) := by
  have hrank : ∀ a b : String × TripleRow,
      latestFirst a.2.createdAt a.1 = latestFirst b.2.createdAt b.1 → a.1 = b.1 :=
    fun _ _ h => (eq_of_latestFirst_eq h).2
  unfold MayPageOfTriples pageOfTriples
  split
  · set triples := db.graph.triples.select fun _ row => listed row with htriples
    set out := triples.orderBy fun id row => latestFirst row.createdAt id
    have hjoined : (selectExpandedTriples db).filter (fun row => listed row.triple.2)
        = triples.rows.map (joinTerms db) := by
      rw [htriples, Table.rows_select]
      exact filter_selectExpandedTriples db fun row => listed row.2
    have horder : OrderedBy
        (fun row : JoinedTriple => latestFirst row.triple.2.createdAt row.triple.1)
        (triples.rows.map (joinTerms db)) (out.map (joinTerms db)) :=
      (triples.orderedBy_orderBy fun id row => latestFirst row.createdAt id).map _ fun _ => rfl
    have hpresent : presentExpandedTerms presentation semantic ∘ joinTerms db
        = expandTriple presentation semantic db := funext presentExpandedTerms_joinTerms
    rw [hjoined, ← hpresent]
    dsimp only
    rw [← paged_map]
    constructor
    · rintro ⟨out', hout', rfl⟩
      rw [hout'.unique horder fun a ha b hb heq => ?_]
      obtain ⟨row, hrow, rfl⟩ := Multiset.mem_map.mp ha
      obtain ⟨row', hrow', rfl⟩ := Multiset.mem_map.mp hb
      rw [Table.eq_of_mem_rows hrow hrow' (hrank row row' heq)]
    · rintro rfl
      exact ⟨_, horder, rfl⟩
  · exact mayPage_iff _ hrank

theorem mayGetAtomTriples_iff {id : String} {query : QueryParams} {reply : ReadReply J} :
    MayGetAtomTriples presentation semantic db id query reply
      ↔ reply = getAtomTriples presentation semantic db id query :=
  mayPageOfTriples_iff

theorem mayGetTriples_iff {query : QueryParams} {reply : ReadReply J} :
    MayGetTriples presentation semantic db query reply
      ↔ reply = getTriples presentation semantic db query :=
  mayPageOfTriples_iff

theorem mayGetTriple_iff {id : String} {query : QueryParams} {reply : ReadReply J} :
    MayGetTriple presentation semantic db id query reply
      ↔ reply = getTriple presentation semantic db id query := by
  have hrows := Table.filter_rows_key (t := db.graph.triples) id publicTriples
  unfold MayGetTriple getTriple
  dsimp only
  set row := ((db.graph.triples.select fun _ row => publicTriples row).lookup id).map
    fun row => (id, row)
  split
  · have hjoined : (selectExpandedTriples db).filter (fun row =>
        row.triple.1 = id ∧ publicTriples row.triple.2)
        = (row.map (joinTerms db)).elim 0 ({·}) := by
      rw [filter_selectExpandedTriples db fun row => row.1 = id ∧ publicTriples row.2, hrows]
      cases row with
      | none => rfl
      | some row => rfl
    rw [hjoined]
    refine (exists_coe_eq_iff (p := fun o => reply = withTexts [id] (one o fun row =>
      .expandedTriple (presentExpandedTerms presentation semantic row)))).trans ?_
    cases row with
    | none => rfl
    | some row =>
      rw [Option.map_some, one, Option.elim_some, presentExpandedTerms_joinTerms]
      rfl
  · rw [hrows]
    exact exists_coe_eq_iff (p := fun o => reply = withTexts [id] (one o .triple))

/-! ## Pages make up the list -/

/-- PostgreSQL cannot hold one of some texts. -/
def Unstorable (texts : List String) : Prop :=
  texts.any (fun s => s.toList.contains '\x00') = true

/-- **A route serves a list page by page**: unless it refuses what is asked for, whatever the
page, there is a list of all that is listed, each once, and the pages make it up, whatever
their size. Offsets are numbers of JavaScript, which are exact up to a bound that is beyond any
table. -/
structure ServesPages {α β : Type} (answers : QueryParams → ReadReply J → Prop)
    (query : QueryParams) (refused : Prop) (listed : α → Prop) (view : α → β)
    (body : List β → Pagination → ReadBody J) : Prop where
  refuses : refused → ∀ limit i reply, 1 ≤ limit → limit ≤ maxPageSize →
    answers (query.atPage limit i) reply → reply.status ≠ 200
  serves : ¬ refused → ∃ rows : List α, rows.Nodup ∧ (∀ row, row ∈ rows ↔ listed row) ∧
    ∀ limit, 1 ≤ limit → limit ≤ maxPageSize →
      ∀ n, (∀ i < n, i * limit ≤ 9007199254740992) →
        ∀ replies : ℕ → ReadReply J, (∀ i < n, answers (query.atPage limit i) (replies i)) →
          ∃ pages : ℕ → List β,
            (∀ i < n, replies i = ok (body (pages i) ⟨limit, i * limit, (pages i).length⟩))
            ∧ (List.range n).flatMap pages = (rows.map view).take (n * limit)
            ∧ (rows.length ≤ n * limit → (List.range n).flatMap pages = rows.map view)

variable {α β : Type} {answers : QueryParams → ReadReply J → Prop} {query : QueryParams}
  {refused : Prop} {listed : α → Prop} {view : α → β} {body : List β → Pagination → ReadBody J}
  {texts : List String} {rows : List α}

/-- A route whose replies are pages of a list serves it by pages. -/
theorem servesPages_of_paged (hnodup : rows.Nodup) (hrows : ∀ row, row ∈ rows ↔ listed row)
    (hrefused : refused → ∀ limit i reply, 1 ≤ limit → limit ≤ maxPageSize →
      answers (query.atPage limit i) reply → reply.status ≠ 200)
    (hpaged : ¬ refused → ∀ limit i reply, 1 ≤ limit → limit ≤ maxPageSize →
      answers (query.atPage limit i) reply → reply = paged (limit, i * limit) rows view body) :
    ServesPages answers query refused listed view body where
  refuses := hrefused
  serves hok := by
    refine ⟨rows, hnodup, hrows, fun limit hpos hmax n hn replies hreplies => ?_⟩
    have hpages : (List.range n).flatMap (fun i => (page limit (i * limit) rows).map view)
        = (rows.map view).take (n * limit) := by
      rw [← List.map_flatMap, flatMap_page, List.map_take]
    refine ⟨fun i => (page limit (i * limit) rows).map view, fun i hi => ?_, hpages,
      fun hlength => ?_⟩
    · have hoffset : i * limit < 9223372036854775808 := (hn i hi).trans_lt (by decide)
      rw [hpaged hok limit i _ hpos hmax (hreplies i hi), paged, withOffset, if_pos hoffset,
        List.length_map]
    · rw [hpages, List.take_of_length_le (by rwa [List.length_map])]

theorem withTexts_of_unstorable (h : Unstorable texts) (reply : ReadReply J) :
    (withTexts texts reply).status ≠ 200 := by
  have hreply : withTexts texts reply = ReadReply.internalError := if_pos h
  rw [hreply]
  show (500 : ℕ) ≠ 200
  decide

theorem withTexts_of_not_unstorable (h : ¬ Unstorable texts) (reply : ReadReply J) :
    withTexts texts reply = reply := if_neg h

/-- A route that refuses nothing but texts that cannot be held. -/
theorem servesPages_of_withTexts (hnodup : rows.Nodup) (hrows : ∀ row, row ∈ rows ↔ listed row)
    (hpaged : ∀ limit i reply, 1 ≤ limit → limit ≤ maxPageSize →
      answers (query.atPage limit i) reply →
        reply = withTexts texts (paged (limit, i * limit) rows view body)) :
    ServesPages answers query (Unstorable texts) listed view body := by
  refine servesPages_of_paged hnodup hrows (fun htexts limit i reply hpos hmax hreply => ?_)
    fun htexts limit i reply hpos hmax hreply => ?_
  · rw [hpaged limit i reply hpos hmax hreply]
    exact withTexts_of_unstorable htexts _
  · rw [hpaged limit i reply hpos hmax hreply, withTexts_of_not_unstorable htexts]

/-! ## The same triples, expanded -/

/-- What is said, with its triples expanded. -/
def expandBody (presentation : Presentation J) (semantic : Bool) (db : KgDb) :
    ReadBody J → ReadBody J
  | .triples data pagination =>
    .expandedTriples (data.map (expandTriple presentation semantic db)) pagination
  | .triple data => .expandedTriple (expandTriple presentation semantic db data)
  | body => body

def expandReply (presentation : Presentation J) (semantic : Bool) (db : KgDb)
    (reply : ReadReply J) : ReadReply J :=
  ⟨reply.status, expandBody presentation semantic db reply.body⟩

/-- A request, with what it asks for its terms. -/
def QueryParams.expand (query : QueryParams) (expand : Option String) : QueryParams :=
  Function.update query "expand" expand

/-- **A route expands the triples it answers with**, and answers the same otherwise. -/
def ExpandsTerms (presentation : Presentation J) (semantic : Bool) (db : KgDb)
    (answers : QueryParams → ReadReply J → Prop) : Prop :=
  ∀ query : QueryParams, ∀ expand ≠ some "terms", ∀ reply reply',
    answers (query.expand expand) reply → answers (query.expand (some "terms")) reply' →
      reply' = expandReply presentation semantic db reply

theorem parsePagination_expand (query : QueryParams) (expand : Option String) :
    parsePagination (query.expand expand) = parsePagination query := by
  have hlimit : query.expand expand "limit" = query "limit" :=
    Function.update_of_ne (by decide) _ _
  have hoffset : query.expand expand "offset" = query "offset" :=
    Function.update_of_ne (by decide) _ _
  rw [parsePagination, parsePagination, hlimit, hoffset]

theorem given_expand (query : QueryParams) (expand : Option String) {name : String}
    (hname : name ≠ "expand") : (query.expand expand).given name = query.given name := by
  rw [QueryParams.given, QueryParams.expand, Function.update_of_ne hname, QueryParams.given]

theorem wantsExpandedTerms_expand (query : QueryParams) (expand : Option String) :
    wantsExpandedTerms (query.expand expand) = true ↔ expand = some "terms" := by
  rw [wantsExpandedTerms, QueryParams.expand, Function.update_self, decide_eq_true_iff]

theorem expandReply_withTexts (texts : List String) (reply : ReadReply J) :
    expandReply presentation semantic db (withTexts texts reply)
      = withTexts texts (expandReply presentation semantic db reply) := by
  unfold withTexts
  split <;> rfl

theorem expandReply_paged (pagination : ℕ × ℕ) (rows : List (String × TripleRow)) :
    expandReply presentation semantic db (paged pagination rows id .triples)
      = paged pagination rows (expandTriple presentation semantic db) .expandedTriples := by
  unfold paged withOffset
  dsimp only
  rw [List.map_id]
  split <;> rfl

theorem expandReply_pageOfTriples (query : QueryParams) (triples : Table String TripleRow)
    {expand : Option String} (hexpand : expand ≠ some "terms") :
    pageOfTriples presentation semantic db (query.expand (some "terms")) triples
      = expandReply presentation semantic db
        (pageOfTriples presentation semantic db (query.expand expand) triples) := by
  have hwants := (wantsExpandedTerms_expand query (some "terms")).mpr rfl
  have hplain := mt (wantsExpandedTerms_expand query expand).mp hexpand
  unfold pageOfTriples
  dsimp only
  rw [if_pos hwants, if_neg hplain, expandReply_paged, parsePagination_expand,
    parsePagination_expand]

theorem expandsTerms_getAtomTriples (id : String) : ExpandsTerms presentation semantic db
    (MayGetAtomTriples presentation semantic db id) := by
  intro query expand hexpand reply reply' hreply hreply'
  rw [mayGetAtomTriples_iff.mp hreply, mayGetAtomTriples_iff.mp hreply', getAtomTriples,
    getAtomTriples, expandReply_withTexts, expandReply_pageOfTriples query _ hexpand]

theorem expandsTerms_getTriples : ExpandsTerms presentation semantic db
    (MayGetTriples presentation semantic db) := by
  intro query expand hexpand reply reply' hreply hreply'
  rw [mayGetTriples_iff.mp hreply, mayGetTriples_iff.mp hreply']
  unfold getTriples
  dsimp only
  simp only [given_expand query _ (by decide : "subject_id" ≠ "expand"),
    given_expand query _ (by decide : "predicate_id" ≠ "expand"),
    given_expand query _ (by decide : "object_id" ≠ "expand")]
  rw [expandReply_withTexts, expandReply_pageOfTriples query _ hexpand]

theorem expandsTerms_getTriple (id : String) : ExpandsTerms presentation semantic db
    (MayGetTriple presentation semantic db id) := by
  intro query expand hexpand reply reply' hreply hreply'
  rw [mayGetTriple_iff.mp hreply, mayGetTriple_iff.mp hreply']
  have hwants := (wantsExpandedTerms_expand query (some "terms")).mpr rfl
  have hplain := mt (wantsExpandedTerms_expand query expand).mp hexpand
  unfold getTriple
  dsimp only
  rw [if_pos hwants, if_neg hplain, expandReply_withTexts]
  cases (db.graph.triples.select fun _ row => publicTriples row).lookup id <;> rfl

/-! ## The routes -/

/-- The rows of a table in order are those of the table, each once. -/
theorem mem_orderBy_select {κ ρ ω : Type} [LinearOrder κ] [LinearOrder ω] {t : Table κ ρ}
    {p : κ → ρ → Prop} [∀ k r, Decidable (p k r)] {rank : κ → ρ → ω} (row : κ × ρ) :
    row ∈ (t.select p).orderBy rank ↔ t.lookup row.1 = some row.2 ∧ p row.1 row.2 := by
  rw [Table.mem_orderBy, Table.lookup_select]

theorem servesPages_getAtoms (query : QueryParams) :
    ServesPages (MayGetAtoms presentation lower semantic db) query (Unstorable (atomTexts query))
      (fun row => db.nodes.lookup row.1 = some row.2 ∧ ListedAtom lower query row.2)
      (listView presentation semantic) .atoms := by
  refine servesPages_of_withTexts (Table.nodup_orderBy
    (db.nodes.select fun _ row => ListedAtom lower query row)
    fun id row => latestFirst row.createdAt id) mem_orderBy_select
    fun limit i reply hpos hmax hreply => ?_
  rw [mayGetAtoms_iff.mp hreply]
  unfold getAtoms
  dsimp only
  rw [parsePagination_atPage query hpos hmax,
    given_atPage query limit i (by decide : "classification_type" ≠ "limit") (by decide),
    given_atPage query limit i (by decide : "q" ≠ "limit") (by decide)]
  rfl

theorem servesPages_getIidAtoms (iid : String) (query : QueryParams) :
    ServesPages (MayGetIidAtoms presentation semantic db iid) query
      ((jsTrim iid).isEmpty = true ∨ Unstorable [iid])
      (fun row => db.nodes.lookup row.1 = some row.2
        ∧ row.1 ∈ nodesOfIid db iid ∧ publicNodes row.2)
      (listView presentation semantic) .atoms := by
  have hnodup : (listPublicNodesByIid db iid).Nodup := Table.nodup_orderBy _ _
  refine servesPages_of_paged hnodup mem_orderBy_select
    (fun hrefused limit i reply hpos hmax hreply => ?_)
    fun hok limit i reply hpos hmax hreply => ?_
  · rw [mayGetIidAtoms_iff.mp hreply, getIidAtoms]
    split
    · show (400 : ℕ) ≠ 200
      decide
    · next hblank => exact withTexts_of_unstorable (hrefused.resolve_left hblank) _
  · obtain ⟨hblank, htexts⟩ := not_or.mp hok
    rw [mayGetIidAtoms_iff.mp hreply, getIidAtoms, if_neg hblank,
      withTexts_of_not_unstorable htexts, parsePagination_atPage query hpos hmax]

theorem servesPages_getArtifacts (nodeId : String) (query : QueryParams) :
    ServesPages (MayGetArtifacts (J := J) db nodeId) query
      (publicNode db nodeId = none ∨ Unstorable [nodeId])
      (fun row => db.artifacts.lookup row.1 = some row.2 ∧ row.2.nodeId = nodeId)
      artifactView .artifacts := by
  have hnodup : (artifactsOf db nodeId).Nodup := Table.nodup_orderBy _ _
  refine servesPages_of_paged hnodup mem_orderBy_select
    (fun hrefused limit i reply hpos hmax hreply => ?_)
    fun hok limit i reply hpos hmax hreply => ?_
  · rw [mayGetArtifacts_iff.mp hreply, getArtifacts]
    by_cases htexts : Unstorable [nodeId]
    · exact withTexts_of_unstorable htexts _
    · rw [withTexts_of_not_unstorable htexts, hrefused.resolve_right htexts, Option.elim_none]
      show (404 : ℕ) ≠ 200
      decide
  · obtain ⟨hnode, htexts⟩ := not_or.mp hok
    obtain ⟨node, hnode⟩ := Option.ne_none_iff_exists'.mp hnode
    rw [mayGetArtifacts_iff.mp hreply, getArtifacts, withTexts_of_not_unstorable htexts, hnode,
      Option.elim_some, parsePagination_atPage query hpos hmax]

/-- **A route serves triples by pages**, expanded if that is asked for. -/
def ServesTriples (presentation : Presentation J) (semantic : Bool) (db : KgDb)
    (answers : QueryParams → ReadReply J → Prop) (query : QueryParams) (texts : List String)
    (listed : TripleRow → Prop) : Prop :=
  if wantsExpandedTerms query then
    ServesPages answers query (Unstorable texts)
      (fun row => db.graph.triples.lookup row.1 = some row.2 ∧ listed row.2)
      (expandTriple presentation semantic db) .expandedTriples
  else
    ServesPages answers query (Unstorable texts)
      (fun row => db.graph.triples.lookup row.1 = some row.2 ∧ listed row.2) id .triples

theorem servesTriples_of_pageOfTriples {listed : TripleRow → Prop} [DecidablePred listed]
    (hanswers : ∀ limit i reply, answers (query.atPage limit i) reply → reply = withTexts texts
      (pageOfTriples presentation semantic db (query.atPage limit i)
        (db.graph.triples.select fun _ row => listed row))) :
    ServesTriples presentation semantic db answers query texts listed := by
  have hnodup := (db.graph.triples.select fun _ row => listed row).nodup_orderBy
    fun id row => latestFirst row.createdAt id
  unfold ServesTriples
  split
  · next hwants =>
    refine servesPages_of_withTexts hnodup mem_orderBy_select
      fun limit i reply hpos hmax hreply => ?_
    rw [hanswers limit i reply hreply, pageOfTriples, wantsExpandedTerms_atPage, if_pos hwants,
      parsePagination_atPage query hpos hmax]
  · next hwants =>
    refine servesPages_of_withTexts hnodup mem_orderBy_select
      fun limit i reply hpos hmax hreply => ?_
    rw [hanswers limit i reply hreply, pageOfTriples, wantsExpandedTerms_atPage, if_neg hwants,
      parsePagination_atPage query hpos hmax]

theorem servesTriples_getAtomTriples (id : String) (query : QueryParams) :
    ServesTriples presentation semantic db (MayGetAtomTriples presentation semantic db id) query
      [id] (TouchesAtom id) :=
  servesTriples_of_pageOfTriples fun _ _ _ hreply => mayPageOfTriples_iff.mp hreply

theorem servesTriples_getTriples (query : QueryParams) :
    ServesTriples presentation semantic db (MayGetTriples presentation semantic db) query
      (tripleTexts query) (ListedTriple query) := by
  refine servesTriples_of_pageOfTriples fun limit i reply hreply => ?_
  rw [mayGetTriples_iff.mp hreply]
  unfold getTriples
  dsimp only
  rw [given_atPage query limit i (by decide : "subject_id" ≠ "limit") (by decide),
    given_atPage query limit i (by decide : "predicate_id" ≠ "limit") (by decide),
    given_atPage query limit i (by decide : "object_id" ≠ "limit") (by decide)]
  rfl

theorem servesPages_getEvents (query : QueryParams) :
    ServesPages (MayGetEvents (J := J) db) query (Unstorable (eventTexts query))
      (fun row : (ℤ ×ₗ String) × KgEventRow =>
        db.graph.events.lookup (ofLex row.1) = some row.2 ∧ ListedEvent db query row.2)
      (fun row => (ofLex row.1, row.2)) .events := by
  have hnodup := Table.nodup_orderBy (κ := ℤ ×ₗ String)
    (db.graph.events.select fun _ row => ListedEvent db query row)
    fun key _ => latestFirst (ofLex key).1 (ofLex key).2
  refine servesPages_of_withTexts hnodup mem_orderBy_select
    fun limit i reply hpos hmax hreply => ?_
  rw [mayGetEvents_iff.mp hreply]
  unfold getEvents
  dsimp only
  rw [parsePagination_atPage query hpos hmax,
    given_atPage query limit i (by decide : "entity_kind" ≠ "limit") (by decide),
    given_atPage query limit i (by decide : "event_type" ≠ "limit") (by decide),
    given_atPage query limit i (by decide : "entity_id" ≠ "limit") (by decide)]
  rfl

/-- **Pages and terms are exact**: whatever order PostgreSQL returns rows of the same rank in,
each list is made up by its pages, and the triples that are answered with their terms are those
that are answered without. -/
theorem servesPages_and_expandsTerms (presentation : Presentation J) (lower : Char → Char)
    (semantic : Bool) (db : KgDb) :
    (∀ query,
      ServesPages (MayGetAtoms presentation lower semantic db) query
          (Unstorable (atomTexts query))
          (fun row => db.nodes.lookup row.1 = some row.2 ∧ ListedAtom lower query row.2)
          (listView presentation semantic) .atoms
        ∧ (∀ iid, ServesPages (MayGetIidAtoms presentation semantic db iid) query
          ((jsTrim iid).isEmpty = true ∨ Unstorable [iid])
          (fun row => db.nodes.lookup row.1 = some row.2
            ∧ row.1 ∈ nodesOfIid db iid ∧ publicNodes row.2)
          (listView presentation semantic) .atoms)
        ∧ (∀ id, ServesPages (MayGetArtifacts (J := J) db id) query
          (publicNode db id = none ∨ Unstorable [id])
          (fun row => db.artifacts.lookup row.1 = some row.2 ∧ row.2.nodeId = id)
          artifactView .artifacts)
        ∧ (∀ id, ServesTriples presentation semantic db
          (MayGetAtomTriples presentation semantic db id) query [id] (TouchesAtom id))
        ∧ ServesTriples presentation semantic db (MayGetTriples presentation semantic db) query
          (tripleTexts query) (ListedTriple query)
        ∧ ServesPages (MayGetEvents (J := J) db) query (Unstorable (eventTexts query))
          (fun row : (ℤ ×ₗ String) × KgEventRow =>
            db.graph.events.lookup (ofLex row.1) = some row.2 ∧ ListedEvent db query row.2)
          (fun row => (ofLex row.1, row.2)) .events)
      ∧ (∀ id, ExpandsTerms presentation semantic db
        (MayGetAtomTriples presentation semantic db id))
      ∧ ExpandsTerms presentation semantic db (MayGetTriples presentation semantic db)
      ∧ ∀ id, ExpandsTerms presentation semantic db
        (MayGetTriple presentation semantic db id) := by
  refine ⟨fun query => ⟨servesPages_getAtoms query, fun iid => servesPages_getIidAtoms iid query,
    fun id => servesPages_getArtifacts id query, fun id => servesTriples_getAtomTriples id query,
    servesTriples_getTriples query, servesPages_getEvents query⟩, ?_, ?_, ?_⟩
  · exact fun id => expandsTerms_getAtomTriples id
  · exact expandsTerms_getTriples
  · exact fun id => expandsTerms_getTriple id

end Answers

end KgApi
