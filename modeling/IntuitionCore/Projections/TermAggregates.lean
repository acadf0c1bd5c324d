import IntuitionCore.Library.LastWrites
import IntuitionCore.Projections.Worker
import Mathlib.Algebra.Group.Prod

/-!
# Term aggregates

A projection keeps a summary of each term: whether it is an atom or a triple, and
its assets and market cap. A price change is of one curve of a term, and a term has
as many vaults as it has curves; its summary should be the sum over them.

A price change overwrites the summary, and reads no other curve. And a row that a
price change makes is one of an atom, which the creation of the triple does not
change. So a summary is right exactly if the curves that did not change last add up
to nothing, and a triple was created before its price changed.

Only a price change can fail by itself, and it takes its batch with it.
-/

open Result

/-- What a term is. -/
inductive TermType where
  | atom
  | triple
  deriving DecidableEq, Repr

/-- A row of `term_summary`. -/
structure TermSummaryRow where
  termType : TermType
  totalAssets : ℚ := 0
  totalMarketCap : ℚ := 0
  deriving DecidableEq, Repr

/-- A row of `term_market_cap_history`. -/
structure TermMarketCapHistoryRow where
  termId : String
  totalAssets : ℚ
  totalMarketCap : ℚ
  deriving DecidableEq, Repr

/-- The tables of the projection. The two summaries of relationships are counts of
triples, by predicate and object and by subject and predicate. -/
structure TermDb where
  termSummary : Table String TermSummaryRow := ∅
  predicateObjectSummary : Table (String × String) ℕ := ∅
  subjectPredicateSummary : Table (String × String) ℕ := ∅
  termMarketCapHistory : Table (String × ℤ) TermMarketCapHistoryRow := ∅

namespace TermSummaryRow

/-- The creation of a triple makes a row, and leaves one that is there. -/
def onTripleCreated : Option TermSummaryRow → TermSummaryRow
  | none => { termType := .triple }
  | some r => r

/-- A price change makes the row of an atom, or overwrites the totals. -/
def onSharePriceChanged (totalAssets totalMarketCap : ℚ) :
    Option TermSummaryRow → TermSummaryRow
  | none => { termType := .atom, totalAssets, totalMarketCap }
  | some r => { r with totalAssets, totalMarketCap }

/-- The assets and the market cap. -/
def totals (r : TermSummaryRow) : ℚ × ℚ := (r.totalAssets, r.totalMarketCap)

end TermSummaryRow

namespace TermAggregatesProjection

variable (ext : Externals)

/-- Another triple is counted. -/
def countTriple (t : Table (String × String) ℕ) (a b : String) : Table (String × String) ℕ :=
  t.upsert (a, b) fun n => n.elim 1 (· + 1)

def processTripleCreatedTyped (tx : TermDb) (data : TripleCreatedRecord) : TermDb :=
  { tx with
    termSummary := tx.termSummary.upsert data.termId TermSummaryRow.onTripleCreated
    predicateObjectSummary :=
      countTriple tx.predicateObjectSummary data.predicateId data.objectId
    subjectPredicateSummary :=
      countTriple tx.subjectPredicateSummary data.subjectId data.predicateId }

def processSharePriceChangedTyped (tx : TermDb) (metadata : EventMetadata)
    (data : SharePriceChangedRecord) : Except ProjectionError TermDb := do
  let marketCap ← computeMarketCap ext (ext.toString data.totalShares)
    (ext.toString data.sharePrice)
  let eventId := s!"{metadata.transactionHash}-{metadata.logIndex}-{metadata.eventType}"
  return { tx with
    termSummary := tx.termSummary.upsert data.termId
      (TermSummaryRow.onSharePriceChanged data.totalAssets.val marketCap.val)
    termMarketCapHistory :=
      tx.termMarketCapHistory.insertIfAbsent (eventId, metadata.blockTimestamp)
        { termId := data.termId, totalAssets := data.totalAssets.val,
          totalMarketCap := marketCap.val } }

/-- What the batch loop does with one event. -/
def processEvent (tx : TermDb) (event : ParsedEvent) : Except ProjectionError TermDb :=
  match event with
  | .tripleCreated _ data => .ok (processTripleCreatedTyped tx data)
  | .sharePriceChanged metadata data => processSharePriceChangedTyped ext tx metadata data
  | _ => .ok tx

def processParsedBatch (tx : TermDb) (events : List ParsedEvent) :
    Except ProjectionError TermDb :=
  events.foldlM (processEvent ext) tx

/-! ## What the summary should be -/

/-- The term an event is about. -/
def termOf : ParsedEvent → Option String
  | .tripleCreated _ data => some data.termId
  | .sharePriceChanged _ data => some data.termId
  | _ => none

/-- The market cap that a price change is processed with. -/
def marketCapOf (data : SharePriceChangedRecord) : ℚ :=
  match computeMarketCap ext (ext.toString data.totalShares) (ext.toString data.sharePrice) with
  | .ok marketCap => marketCap.val
  | .error _ => 0

/-- The curve an event changes the price of, with its assets and market cap. -/
def priceChange : ParsedEvent → Option (ℚ × ℚ × ℚ)
  | .sharePriceChanged _ data =>
    some (data.curveId.val, data.totalAssets.val, marketCapOf ext data)
  | _ => none

/-- The price changes of a term. -/
def priceChanges (termId : String) (events : List ParsedEvent) : List (ℚ × ℚ × ℚ) :=
  (events.filter fun e => termOf e = some termId).filterMap (priceChange ext)

/-- The event is the creation of a triple. -/
def CreatesTriple : ParsedEvent → Prop
  | .tripleCreated _ _ => True
  | _ => False

/-- **A summary is right**: the totals are the sums, over the curves of the term, of
what each was last changed to, and the term is a triple if one was created. -/
def SummaryExact (t : Table String TermSummaryRow) (termId : String)
    (events : List ParsedEvent) : Prop :=
  ∀ r, t.lookup termId = some r →
    r.totals = LastWrites.sum (priceChanges ext termId events)
      ∧ (r.termType = .triple ↔ ∃ e ∈ events, CreatesTriple e ∧ termOf e = some termId)

/-- If a triple was created, it was before its price changed. -/
def CreatedFirst (termId : String) (events : List ParsedEvent) : Prop :=
  (∃ e ∈ events, CreatesTriple e ∧ termOf e = some termId) →
    ∀ e, events.find? (fun e => termOf e = some termId) = some e → CreatesTriple e

/-- The curves other than the one that changed last add up to nothing. -/
def OthersVanish (termId : String) (events : List ParsedEvent) : Prop :=
  ∀ change, (priceChanges ext termId events).getLast? = some change →
    LastWrites.sumOthers (priceChanges ext termId events) change.1 = 0

/-! ## What becomes of a row -/

/-- The rows of the summary, as an account of the events of each term. -/
def summaryLedger : Ledger ParsedEvent String (Option TermSummaryRow) where
  key := termOf
  init := none
  step r e :=
    match e with
    | .tripleCreated _ _ => some (TermSummaryRow.onTripleCreated r)
    | .sharePriceChanged _ data =>
      some (TermSummaryRow.onSharePriceChanged data.totalAssets.val (marketCapOf ext data) r)
    | _ => r

variable {ext} {tx tx' : TermDb} {e : ParsedEvent} {termId : String} {r : TermSummaryRow}

/-- What the handler of an event does to a row. -/
theorem lookup_processEvent (h : processEvent ext tx e = .ok tx') (termId : String) :
    tx'.termSummary.lookup termId =
      if (summaryLedger ext).concerns termId e then
        (summaryLedger ext).step (tx.termSummary.lookup termId) e
      else tx.termSummary.lookup termId := by
  cases e with
  | tripleCreated metadata data =>
    cases h
    by_cases hterm : termId = data.termId
    · subst hterm
      simp [processTripleCreatedTyped, Table.lookup_upsert, summaryLedger, Ledger.concerns, termOf]
    · simp [processTripleCreatedTyped, Table.lookup_upsert, summaryLedger, Ledger.concerns,
        termOf, hterm, Ne.symm hterm]
  | sharePriceChanged metadata data =>
    obtain ⟨marketCap, hcap, h⟩ := bind_eq_ok.mp h
    cases h
    by_cases hterm : termId = data.termId
    · subst hterm
      simp [Table.lookup_upsert, summaryLedger, Ledger.concerns, termOf, marketCapOf, hcap]
    · simp [Table.lookup_upsert, summaryLedger, Ledger.concerns, termOf, hterm, Ne.symm hterm]
  | _ =>
    cases h
    rfl

/-- What the batches of a run do to a row. -/
theorem lookup_processBatches {batches : List (List ParsedEvent)}
    (h : batches.foldlM (processParsedBatch ext) tx = .ok tx') (termId : String) :
    tx'.termSummary.lookup termId
      = (summaryLedger ext).apply termId (tx.termSummary.lookup termId) batches.flatten := by
  have hevents : batches.flatten.foldlM (processEvent ext) tx = .ok tx' :=
    (foldlM_flatten batches tx).trans h
  exact ((summaryLedger ext).foldlM_row (v := fun tx => tx.termSummary.lookup termId)
    (fun _ _ _ hs => lookup_processEvent hs termId) hevents).trans (if_pos rfl)

/-- What the last price change of some events sets the totals to, if there is
one. -/
def lastTotals (ext : Externals) (events : List ParsedEvent) : Option (ℚ × ℚ) :=
  ((events.filterMap (priceChange ext)).getLast?).map Prod.snd

theorem lastTotals_cons (e : ParsedEvent) (events : List ParsedEvent) :
    lastTotals ext (e :: events)
      = (lastTotals ext events).or ((priceChange ext e).map Prod.snd) := by
  cases h : priceChange ext e with
  | none => simp [lastTotals, h]
  | some change =>
    rw [lastTotals, List.filterMap_cons_some h, List.getLast?_cons, lastTotals]
    cases (events.filterMap (priceChange ext)).getLast? <;> rfl

variable (ext) in
/-- **A row that is there keeps its type, and its totals are overwritten.** -/
theorem foldl_step_some (events : List ParsedEvent) (r : TermSummaryRow) :
    ∃ r', events.foldl (summaryLedger ext).step (some r) = some r'
      ∧ r'.termType = r.termType ∧ r'.totals = (lastTotals ext events).getD r.totals := by
  induction events generalizing r with
  | nil => exact ⟨r, rfl, rfl, rfl⟩
  | cons e events ih =>
    obtain ⟨r₁, hr₁, htype, htotals⟩ : ∃ r₁, (summaryLedger ext).step (some r) e = some r₁
        ∧ r₁.termType = r.termType
        ∧ r₁.totals = ((priceChange ext e).map Prod.snd).getD r.totals := by
      cases e <;> exact ⟨_, rfl, rfl, rfl⟩
    obtain ⟨r', hr', htype', htotals'⟩ := ih r₁
    refine ⟨r', by rw [List.foldl_cons, hr₁, hr'], htype'.trans htype, ?_⟩
    rw [htotals', htotals, lastTotals_cons]
    cases lastTotals ext events <;> rfl

variable (ext) in
/-- **The first event of a term makes its row.** -/
theorem foldl_step_none (e : ParsedEvent) (events : List ParsedEvent)
    (he : termOf e = some termId) :
    ∃ r, (e :: events).foldl (summaryLedger ext).step none = some r
      ∧ (r.termType = .triple ↔ CreatesTriple e)
      ∧ r.totals = (lastTotals ext (e :: events)).getD 0 := by
  obtain ⟨r₁, hr₁, htype, htotals⟩ : ∃ r₁, (summaryLedger ext).step none e = some r₁
      ∧ (r₁.termType = .triple ↔ CreatesTriple e)
      ∧ r₁.totals = ((priceChange ext e).map Prod.snd).getD 0 := by
    cases e with
    | tripleCreated metadata data => exact ⟨_, rfl, iff_of_true rfl trivial, rfl⟩
    | sharePriceChanged metadata data => exact ⟨_, rfl, iff_of_false nofun id, rfl⟩
    | _ => cases he
  obtain ⟨r, hr, htype', htotals'⟩ := foldl_step_some ext events r₁
  refine ⟨r, by rw [List.foldl_cons, hr₁, hr], by rw [htype', htype], ?_⟩
  rw [htotals', htotals, lastTotals_cons]
  cases lastTotals ext events <;> rfl

/-- The totals of a row are the sum over the curves exactly if the others vanish. -/
theorem totals_eq_sum_iff {events : List ParsedEvent} {totals : ℚ × ℚ}
    (h : totals = (lastTotals ext (events.filter fun e => termOf e = some termId)).getD 0) :
    totals = LastWrites.sum (priceChanges ext termId events)
      ↔ OthersVanish ext termId events := by
  have hlast : lastTotals ext (events.filter fun e => termOf e = some termId)
      = ((priceChanges ext termId events).getLast?).map Prod.snd := rfl
  rw [hlast] at h
  unfold OthersVanish
  cases hchange : (priceChanges ext termId events).getLast? with
  | none =>
    rw [List.getLast?_eq_none_iff.mp hchange, h, hchange]
    exact iff_of_true rfl nofun
  | some change =>
    rw [hchange] at h
    rw [h]
    exact (LastWrites.eq_sum_iff hchange).trans ⟨fun hzero _ heq => by cases heq; exact hzero,
      fun hzero => hzero change rfl⟩

/-- **A summary is right exactly if its triple was created first and the other
curves vanish.** -/
theorem summaryExact_iff {t : Table String TermSummaryRow} {events : List ParsedEvent}
    (h : t.lookup termId = (summaryLedger ext).apply termId none events) :
    SummaryExact ext t termId events
      ↔ CreatedFirst termId events ∧ OthersVanish ext termId events := by
  have hfilter : events.filter ((summaryLedger ext).concerns termId)
      = events.filter fun e => termOf e = some termId := rfl
  rw [Ledger.apply, hfilter] at h
  cases hown : events.filter fun e => termOf e = some termId with
  | nil =>
    -- the term has no row, and no event
    rw [hown] at h
    have hnone : ∀ e ∈ events, termOf e ≠ some termId := by
      simpa [List.filter_eq_nil_iff] using hown
    refine iff_of_true (fun r hr => absurd (h.symm.trans hr) nofun) ⟨?_, ?_⟩
    · rintro ⟨e, he, -, hterm⟩
      exact absurd hterm (hnone e he)
    · intro change hchange
      rw [priceChanges, hown] at hchange
      cases hchange
  | cons e rest =>
    have hmem : e ∈ events ∧ termOf e = some termId := by
      have he : e ∈ events.filter fun e => termOf e = some termId := hown ▸ List.mem_cons_self
      simpa using he
    have hfirst : events.find? (fun e => termOf e = some termId) = some e := by
      rw [← List.head?_filter, hown, List.head?_cons]
    obtain ⟨r, hr, htype, htotals⟩ := foldl_step_none ext e rest hmem.2
    rw [hown] at h
    have hrow : t.lookup termId = some r := h.trans hr
    rw [← hown] at htotals
    have hcreated : (r.termType = .triple ↔ ∃ e ∈ events, CreatesTriple e ∧ termOf e = some termId)
        ↔ CreatedFirst termId events := by
      rw [htype, CreatedFirst, hfirst]
      constructor
      · intro hiff hex e' he'
        cases he'
        exact hiff.mpr hex
      · intro hiff
        exact ⟨fun he => ⟨e, hmem.1, he, hmem.2⟩, fun hex => hiff hex e rfl⟩
    rw [← hcreated, ← totals_eq_sum_iff htotals, and_comm]
    constructor
    · intro hexact
      exact hexact r hrow
    · intro hboth r' hr'
      cases hrow.symm.trans hr'
      exact hboth

end TermAggregatesProjection

open TermAggregatesProjection

/-- **The summary of a term is right exactly if its triple was created first and the
other curves vanish.** For all batches that are processed, into empty tables: the
totals are the sums over the curves of what each was last changed to, and the type
is that of a triple if one was created, if and only if no price change came before
the creation and the curves other than the one that changed last add up to
nothing. -/
theorem summaryExact_of_batches_iff {ext : Externals} {db : TermDb}
    {batches : List (List ParsedEvent)}
    (hrun : batches.foldlM (processParsedBatch ext) {} = .ok db) (termId : String) :
    SummaryExact ext db.termSummary termId batches.flatten
      ↔ CreatedFirst termId batches.flatten ∧ OthersVanish ext termId batches.flatten :=
  summaryExact_iff (lookup_processBatches hrun termId)

/-! ## Two curves of a term -/

/-- A curve of a term has shares worth as many assets. -/
def priceChanged (curve amount : ℤ) (logIndex : ℕ) : ParsedEvent :=
  .sharePriceChanged
    { sequenceNumber := logIndex + 1, blockNumber := 1, blockTimestamp := 0, blockHash := "0x01"
      transactionHash := "0x02", logIndex, eventType := "SharePriceChanged"
      termId := some "0x07", entityId := none, isCanonical := true, ingestedAt := 0 }
    { termId := "0x07", curveId := ⟨curve, 0⟩, sharePrice := ⟨10 ^ 18, 0⟩
      totalAssets := ⟨amount, 0⟩, totalShares := ⟨amount, 0⟩, vaultType := 0 }

/-- Externals that read an integer from its digits, one by one. -/
def digitsExact : Externals :=
  { Externals.exact with
    parseU256 := fun s =>
      let n := Nat.ofDigitChars 10 s.toList 0
      if n < 2 ^ 256 then some (.ofNat 256 n) else none }

/-- A term of one curve, whose price changes twice, has a right summary. -/
theorem summaryExact_of_batches_iff_oneCurve : ∃ db,
    [[priceChanged 1 100 0], [priceChanged 1 50 1]].foldlM (processParsedBatch digitsExact) {}
        = .ok db
      ∧ SummaryExact digitsExact db.termSummary "0x07"
        [[priceChanged 1 100 0], [priceChanged 1 50 1]].flatten := by
  have hok : ([[priceChanged 1 100 0], [priceChanged 1 50 1]].foldlM
      (processParsedBatch digitsExact) {}).toOption.isSome := by
    decide +kernel
  have hchanges : priceChanges digitsExact "0x07"
      [[priceChanged 1 100 0], [priceChanged 1 50 1]].flatten
        = [(1, 100, 100), (1, 50, 50)] := by
    decide +kernel
  obtain ⟨db, hdb⟩ := Option.isSome_iff_exists.mp hok
  have hrun := toOption_eq_some.mp hdb
  refine ⟨db, hrun, (summaryExact_of_batches_iff hrun "0x07").mpr ⟨?_, ?_⟩⟩
  · rintro ⟨e, he, hcreates, -⟩
    obtain rfl | rfl := List.mem_pair.mp he
    · exact hcreates.elim
    · exact hcreates.elim
  · intro change hchange
    rw [hchanges] at hchange ⊢
    cases hchange
    decide +kernel

/-- **The summary is that of the curve that changed last**: a hundred on one curve
and fifty on the other are fifty. -/
theorem twoCurves_not_summaryExact :
    ¬ ∀ (ext : Externals) (db : TermDb) (batches : List (List ParsedEvent)),
      batches.foldlM (processParsedBatch ext) {} = .ok db →
        ∀ termId, SummaryExact ext db.termSummary termId batches.flatten := by
  intro h
  have hrow : ([[priceChanged 1 100 0], [priceChanged 2 50 1]].foldlM
      (processParsedBatch digitsExact) {}).toOption.map (fun db => db.termSummary.lookup "0x07")
        = some (some { termType := .atom, totalAssets := 50, totalMarketCap := 50 }) := by
    decide +kernel
  have hsum : LastWrites.sum (priceChanges digitsExact "0x07"
      [[priceChanged 1 100 0], [priceChanged 2 50 1]].flatten) = (150, 150) := by
    decide +kernel
  obtain ⟨db, hdb, hlookup⟩ := Option.map_eq_some_iff.mp hrow
  obtain ⟨htotals, -⟩ := h digitsExact db _ (toOption_eq_some.mp hdb) "0x07" _ hlookup
  rw [hsum] at htotals
  exact absurd htotals (by decide +kernel)
