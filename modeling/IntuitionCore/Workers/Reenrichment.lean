import IntuitionCore.Library.Keyset
import IntuitionCore.Processing.Nodes

/-!
# Enriching again what misses a provider

A command of the operators resets the enrichment of the nodes that a provider could have
enriched but has not. It reads them page by page in the order of their ids, up to a limit, and
resets each page before it reads the next one. The reset takes the nodes of the page out of
what the query finds, so pages are told by a cursor and not by an offset.

If a read or a reset throws, the command prints where it is, and an operator runs it again from
there, with the rest of the limit. A reset is one statement: one that throws changes no row.
Ids of nodes are normal, so a reset looks for the nodes that the page has.
-/

namespace Reenrichment

/-- An artifact, as the query reads it. -/
structure ArtifactColumns where
  artifactKind : String
  status : String
  /-- The plugin in its data. -/
  pluginId : Option String
  deriving DecidableEq, Repr

/-- A node, with the rungs of its identifiers and its artifacts. -/
structure EnrichedNode where
  node : ProcessedNode
  rungs : List String
  artifacts : List ArtifactColumns

/-- What the query looks for. -/
structure MissingProvider where
  missingPlugin : String
  rungs : List String
  missingArtifactKind : Option String := none
  createdSince : Option ℕ := none
  deriving DecidableEq, Repr

/-- An artifact is one that is missed elsewhere. -/
def MissingProvider.IsActiveArtifact (q : MissingProvider) (a : ArtifactColumns) : Prop :=
  a.status = "active" ∧ a.pluginId = some q.missingPlugin
    ∧ ∀ kind ∈ q.missingArtifactKind, a.artifactKind = kind

instance (q : MissingProvider) (a : ArtifactColumns) : Decidable (q.IsActiveArtifact a) :=
  inferInstanceAs (Decidable (_ ∧ _ ∧ _))

/-- The condition of the query on a node. -/
def MissingProvider.Matches (q : MissingProvider) (row : EnrichedNode) : Prop :=
  row.node.rawType = "iid" ∧ (row.node.stage .enrichment).status = .completed
    ∧ (∃ rung ∈ row.rungs, rung ∈ q.rungs)
    ∧ (¬ ∃ a ∈ row.artifacts, q.IsActiveArtifact a)
    ∧ ∀ since ∈ q.createdSince, since ≤ row.node.createdAt

instance (q : MissingProvider) (row : EnrichedNode) : Decidable (q.Matches row) :=
  inferInstanceAs (Decidable (_ ∧ _ ∧ _ ∧ _ ∧ _))

variable {ν : Type} [LinearOrder ν]

/-- The nodes that a query finds after a cursor, in order. -/
def candidates (db : Table ν EnrichedNode) (q : MissingProvider) (cursor : Option ν) : List ν :=
  Keyset.inOrder (db.keysWhere fun id row => q.Matches row ∧ Keyset.IsAfter cursor id)

/-- The ids of a page, and whether there are more. -/
structure ReenrichmentPage (ν : Type) where
  ids : List ν
  nextCursor : Option ν

/-- A page is read with one row more than it has. -/
def listReenrichmentCandidates (db : Table ν EnrichedNode) (q : MissingProvider) (limit : ℕ)
    (cursor : Option ν) : Except String (ReenrichmentPage ν) :=
  if limit < 1 ∨ 5000 < limit then .error "limit must be an integer between 1 and 5000."
  else if q.rungs = [] then .ok { ids := [], nextCursor := none }
  else
    let rows := (candidates db q cursor).take (limit + 1)
    let ids := rows.take limit
    .ok { ids, nextCursor := if limit < rows.length then ids.getLast? else none }

/-- The options of the command. The parser admits no others. -/
structure ReenrichmentOptions (ν : Type) where
  plugin : String
  rungs : List String
  createdSince : Option ℕ := none
  limit : ℕ := 10000
  batchSize : ℕ := 1000
  cursor : Option ν := none
  confirmed : Bool := false
  limit_pos : 1 ≤ limit := by decide
  batchSize_pos : 1 ≤ batchSize := by decide
  batchSize_le : batchSize ≤ 5000 := by decide

/-- What the command looks for. -/
def ReenrichmentOptions.query (options : ReenrichmentOptions ν) : MissingProvider where
  missingPlugin := options.plugin
  rungs := options.rungs
  createdSince := options.createdSince

/-- The reset of a page. -/
def ReenrichmentOptions.resetInput (options : ReenrichmentOptions ν) : ResetInput where
  stage := .enrichment
  eligibleStatuses := [.completed]
  reason := some ("kg-reenrich-missing-provider:" ++ options.plugin)

/-- The row of a node that is reset. -/
def EnrichedNode.reset (row : EnrichedNode) (input : ResetInput) (now : ℕ) : EnrichedNode :=
  { row with node := input.patch now row.node }

/-- The nodes of a page that a reset finds. -/
def resetIds (db : Table ν EnrichedNode) (input : ResetInput) (ids : List ν) : Finset ν :=
  db.keysWhere fun id row =>
    (row.node.stage input.stage).status ∈ input.eligibleStatuses ∧ id ∈ ids

/-- The reset of some nodes, and the ids that it returns. -/
def resetNodeProcessingStage (db : Table ν EnrichedNode) (input : ResetInput) (ids : List ν)
    (now : ℕ) : Table ν EnrichedNode × List ν :=
  (db.updateWhere (fun id row =>
      (row.node.stage input.stage).status ∈ input.eligibleStatuses ∧ id ∈ ids)
      fun row => row.reset input now,
    Keyset.inOrder (resetIds db input ids))

/-- A line that is printed for a page. -/
structure PageLine (ν : Type) where
  count : ℕ
  sampleIds : List ν
  reset : ℕ
  totalCandidates : ℕ
  totalReset : ℕ
  cursor : Option ν
  limitReached : Bool
  deriving DecidableEq, Repr

/-- The variables of a run, with the lines it has printed and the nodes it has reset. -/
structure ReenrichmentState (ν : Type) where
  db : Table ν EnrichedNode
  cursor : Option ν
  totalCandidates : ℕ := 0
  totalReset : ℕ := 0
  lines : List (PageLine ν) := []
  resets : List ν := []

/-- What throws. -/
inductive Fault where
  | read
  | reset
  deriving DecidableEq, Repr

/-- How the page of a run ends. -/
inductive PageOutcome (ν : Type) where
  | stop (s : ReenrichmentState ν)
  | next (s : ReenrichmentState ν)
  | thrown (s : ReenrichmentState ν)

/-- How a run ends: an error has printed the variables. -/
inductive RunOutcome (ν : Type) where
  | finished (s : ReenrichmentState ν)
  | failed (s : ReenrichmentState ν)

namespace ReenrichmentOptions

variable (options : ReenrichmentOptions ν)

/-- The state after a page that was read, and reset. -/
def advance (s : ReenrichmentState ν) (ids : List ν)
    (result : Table ν EnrichedNode × List ν) : ReenrichmentState ν :=
  let totalCandidates := s.totalCandidates + ids.length
  let totalReset := s.totalReset + result.2.length
  let cursor := Keyset.next s.cursor ids
  { db := result.1, cursor, totalCandidates, totalReset
    lines := s.lines ++
      [{ count := ids.length, sampleIds := ids.take 10, reset := result.2.length
         totalCandidates, totalReset, cursor
         limitReached := totalCandidates = options.limit }]
    resets := s.resets ++ result.2 }

/-- One page, at which something may throw. -/
def runPage (fault : Option Fault) (now : ℕ) (s : ReenrichmentState ν) : PageOutcome ν :=
  if fault = some .read then .thrown s
  else
    match listReenrichmentCandidates s.db options.query
      (min options.batchSize (options.limit - s.totalCandidates)) s.cursor with
    | .error _ => .thrown s
    | .ok page =>
      if options.confirmed = true ∧ page.ids ≠ [] then
        if fault = some .reset then .thrown s
        else
          let s' := options.advance s page.ids
            (resetNodeProcessingStage s.db options.resetInput page.ids now)
          if page.nextCursor.isSome then .next s' else .stop s'
      else
        let s' := options.advance s page.ids (s.db, [])
        if page.nextCursor.isSome then .next s' else .stop s'

/-- The pages from a number on, as long as the limit is not reached. -/
def runPages (faults : ℕ → Option Fault) (clock : ℕ → ℕ) :
    ℕ → ℕ → ReenrichmentState ν → Option (RunOutcome ν)
  | fuel, i, s =>
    if s.totalCandidates < options.limit then
      match fuel with
      | 0 => none
      | fuel + 1 =>
        match options.runPage (faults i) (clock i) s with
        | .stop s' => some (.finished s')
        | .next s' => runPages faults clock fuel (i + 1) s'
        | .thrown s' => some (.failed s')
    else some (.finished s)

/-- A run, at whose pages something may throw, and whose resets are at some times. -/
def runReenrichment (faults : ℕ → Option Fault) (clock : ℕ → ℕ) (db : Table ν EnrichedNode) :
    Option (RunOutcome ν) :=
  options.runPages faults clock options.limit 0 { db, cursor := options.cursor }

end ReenrichmentOptions

/-! ## The nodes that a query finds -/

section Candidates

variable {db db' : Table ν EnrichedNode} {q : MissingProvider} {cursor : Option ν} {id : ν}

lemma mem_candidates :
    id ∈ candidates db q cursor
      ↔ (∃ row, db.lookup id = some row ∧ q.Matches row) ∧ Keyset.IsAfter cursor id := by
  rw [candidates, Keyset.mem_inOrder, Table.mem_keysWhere]
  constructor
  · rintro ⟨row, hrow, hm, ha⟩
    exact ⟨⟨row, hrow, hm⟩, ha⟩
  · rintro ⟨⟨row, hrow, hm⟩, ha⟩
    exact ⟨row, hrow, hm, ha⟩

lemma sortedLT_candidates : (candidates db q cursor).SortedLT := Keyset.sortedLT_inOrder _

lemma candidates_nodup : (candidates db q cursor).Nodup := sortedLT_candidates.nodup

lemma isAfter_of_mem_candidates (h : id ∈ candidates db q cursor) : Keyset.IsAfter cursor id :=
  (mem_candidates.mp h).2

/-- A query for no rungs finds nothing. -/
lemma candidates_eq_nil (h : q.rungs = []) : candidates db q cursor = [] := by
  rw [List.eq_nil_iff_forall_not_mem]
  intro id hid
  obtain ⟨⟨row, -, -, -, ⟨rung, -, hrung⟩, -⟩, -⟩ := mem_candidates.mp hid
  rw [h] at hrung
  cases hrung

/-- **A page has the first nodes, and tells whether there are more.** -/
lemma listReenrichmentCandidates_eq_ok (db : Table ν EnrichedNode) (q : MissingProvider)
    (cursor : Option ν) {limit : ℕ} (hpos : 1 ≤ limit) (hle : limit ≤ 5000) :
    ∃ page, listReenrichmentCandidates db q limit cursor = .ok page
      ∧ page.ids = (candidates db q cursor).take limit
      ∧ (page.nextCursor.isSome = true ↔ limit < (candidates db q cursor).length) := by
  unfold listReenrichmentCandidates
  rw [if_neg (by omega)]
  by_cases hrungs : q.rungs = []
  · rw [if_pos hrungs, candidates_eq_nil hrungs]
    exact ⟨_, rfl, by simp, by simp⟩
  · rw [if_neg hrungs]
    refine ⟨_, rfl, ?_, ?_⟩
    · simp [List.take_take]
    · generalize candidates db q cursor = xs
      have hlen : limit < (xs.take (limit + 1)).length ↔ limit < xs.length := by
        rw [List.length_take]
        omega
      rw [← hlen]
      by_cases h : limit < (xs.take (limit + 1)).length
      · have hne : (xs.take (limit + 1)).take limit ≠ [] := by
          rw [ne_eq, List.take_eq_nil_iff]
          rintro (h0 | h0)
          · omega
          · simp [h0] at h
        simp only [h, ↓reduceIte, iff_true]
        rw [List.getLast?_eq_some_getLast hne]
        rfl
      · simp only [h, ↓reduceIte, Option.isSome_none, Bool.false_eq_true]

end Candidates

/-! ## Resets -/

/-- **Some nodes are reset and the others are left.** -/
structure ResetEffect (input : ResetInput) (db db' : Table ν EnrichedNode) (ids : List ν) :
    Prop where
  kept : ∀ id ∉ ids, db'.lookup id = db.lookup id
  reset : ∀ id ∈ ids, ∃ row now, db.lookup id = some row
    ∧ db'.lookup id = some (row.reset input now)

section Resets

variable {input : ResetInput} {db db' db'' : Table ν EnrichedNode} {ids ids' : List ν}

lemma ResetEffect.refl (input : ResetInput) (db : Table ν EnrichedNode) :
    ResetEffect input db db [] where
  kept _ _ := rfl
  reset _ h := by cases h

lemma ResetEffect.trans (h : ResetEffect input db db' ids) (h' : ResetEffect input db' db'' ids')
    (hdisjoint : ∀ id ∈ ids, id ∉ ids') : ResetEffect input db db'' (ids ++ ids') where
  kept id hid := by
    rw [List.mem_append, not_or] at hid
    rw [h'.kept id hid.2, h.kept id hid.1]
  reset id hid := by
    obtain hid | hid := List.mem_append.mp hid
    · obtain ⟨row, now, hrow, hreset⟩ := h.reset id hid
      exact ⟨row, now, hrow, (h'.kept id (hdisjoint id hid)).trans hreset⟩
    · obtain ⟨row, now, hrow, hreset⟩ := h'.reset id hid
      rw [h.kept id fun hmem => hdisjoint id hmem hid] at hrow
      exact ⟨row, now, hrow, hreset⟩

/-- **The nodes of a page are reset** if they are all there with their status. -/
lemma resetNodeProcessingStage_effect (hids : ids.SortedLT)
    (h : ∀ id ∈ ids, ∃ row, db.lookup id = some row
      ∧ (row.node.stage input.stage).status ∈ input.eligibleStatuses) (now : ℕ) :
    (resetNodeProcessingStage db input ids now).2 = ids
      ∧ ResetEffect input db (resetNodeProcessingStage db input ids now).1 ids := by
  refine ⟨?_, fun id hid => ?_, fun id hid => ?_⟩
  · refine (Keyset.sortedLT_inOrder _).eq_of_mem_iff hids fun id => ?_
    rw [Keyset.mem_inOrder, resetIds, Table.mem_keysWhere]
    constructor
    · rintro ⟨row, -, -, hid⟩
      exact hid
    · intro hid
      obtain ⟨row, hrow, hstatus⟩ := h id hid
      exact ⟨row, hrow, hstatus, hid⟩
  · refine (Table.lookup_updateWhere _ id).trans ?_
    simp [hid]
  · obtain ⟨row, hrow, hstatus⟩ := h id hid
    refine ⟨row, now, hrow, (Table.lookup_updateWhere _ id).trans ?_⟩
    simp [hrow, hstatus, hid]

end Resets

/-! ## Pages -/

namespace ReenrichmentOptions

variable {options : ReenrichmentOptions ν} {s s' s'' : ReenrichmentState ν} {n n' : ℕ}

/-- What is left for a state. -/
def remaining (options : ReenrichmentOptions ν) (s : ReenrichmentState ν) : List ν :=
  candidates s.db options.query s.cursor

/-- **The first so many of the nodes that are left were reset**, and the others are left. -/
structure Advanced (options : ReenrichmentOptions ν) (s s' : ReenrichmentState ν) (n : ℕ) :
    Prop where
  resets : s'.resets = s.resets ++ (options.remaining s).take n
  effect : ResetEffect options.resetInput s.db s'.db ((options.remaining s).take n)
  total : s'.totalCandidates = s.totalCandidates + ((options.remaining s).take n).length
  remaining : options.remaining s' = (options.remaining s).drop n

lemma Advanced.zero : Advanced options s s 0 where
  resets := by simp
  effect := by simpa using ResetEffect.refl _ _
  total := by simp
  remaining := by simp

lemma Advanced.trans (h : Advanced options s s' n) (h' : Advanced options s' s'' n') :
    Advanced options s s'' (n + n') where
  resets := by
    rw [h'.resets, h.resets, h.remaining, List.append_assoc, ← List.take_add]
  effect := by
    rw [List.take_add, ← h.remaining]
    refine h.effect.trans h'.effect fun id hid hmem => ?_
    rw [h.remaining] at hmem
    exact List.disjoint_take_drop candidates_nodup (Nat.le_refl n) hid (List.mem_of_mem_take hmem)
  total := by
    rw [h'.total, h.total, h.remaining, List.take_add, List.length_append, Nat.add_assoc]
  remaining := by
    rw [h'.remaining, h.remaining, List.drop_drop]

/-- A page that was read and reset advances the run. -/
lemma advanced_advance {ids : List ν} {result : Table ν EnrichedNode × List ν}
    (hids : ids = (options.remaining s).take n) (hresult : result.2 = ids)
    (heffect : ResetEffect options.resetInput s.db result.1 ids) :
    Advanced options s (options.advance s ids result) n where
  resets := by rw [advance, hresult, hids]
  effect := hids ▸ heffect
  total := by rw [advance, hids]
  remaining := by
    have hsorted : (options.remaining s).SortedLT := sortedLT_candidates
    have hdrop := fun id => Keyset.mem_drop_iff (k := id) hsorted
      (fun _ => isAfter_of_mem_candidates) n
    rw [← hids] at hdrop
    refine sortedLT_candidates.eq_of_mem_iff (hsorted.pairwise.drop.sortedLT) fun id => ?_
    rw [hdrop]
    -- what is after the page was not reset with it
    have hrow : Keyset.IsAfter (Keyset.next s.cursor ids) id →
        result.1.lookup id = s.db.lookup id := by
      refine fun hafter => heffect.kept id fun hmem => ?_
      have hmem' : id ∈ (options.remaining s).take n := hids ▸ hmem
      exact List.disjoint_take_drop candidates_nodup (Nat.le_refl n) hmem'
        ((hdrop id).mpr ⟨List.mem_of_mem_take hmem', hafter⟩)
    constructor
    · intro hid
      obtain ⟨⟨row, hlook, hm⟩, hafter⟩ := mem_candidates.mp hid
      refine ⟨mem_candidates.mpr ⟨⟨row, (hrow hafter).symm.trans hlook, hm⟩, ?_⟩, hafter⟩
      refine hafter.of_next fun k hk => ?_
      rw [hids] at hk
      exact isAfter_of_mem_candidates (List.mem_of_mem_take hk)
    · rintro ⟨hid, hafter⟩
      obtain ⟨⟨row, hlook, hm⟩, -⟩ := mem_candidates.mp hid
      exact mem_candidates.mpr ⟨⟨row, (hrow hafter).trans hlook, hm⟩, hafter⟩

/-- The size of a page. -/
def pageLimit (options : ReenrichmentOptions ν) (s : ReenrichmentState ν) : ℕ :=
  min options.batchSize (options.limit - s.totalCandidates)

/-- More nodes than are left are all that are left. -/
lemma Advanced.of_length_le (h : Advanced options s s' n)
    (hn : (options.remaining s).length ≤ n) (hn' : (options.remaining s).length ≤ n') :
    Advanced options s s' n' := by
  have htake : (options.remaining s).take n' = (options.remaining s).take n := by
    rw [List.take_of_length_le hn, List.take_of_length_le hn']
  have hdrop : (options.remaining s).drop n' = (options.remaining s).drop n := by
    rw [List.drop_eq_nil_of_le hn, List.drop_eq_nil_of_le hn']
  refine ⟨?_, ?_, ?_, ?_⟩
  · rw [htake, h.resets]
  · rw [htake]
    exact h.effect
  · rw [htake, h.total]
  · rw [hdrop, h.remaining]

omit [LinearOrder ν] in
lemma one_le_pageLimit (hlt : s.totalCandidates < options.limit) : 1 ≤ options.pageLimit s := by
  have := options.batchSize_pos
  unfold pageLimit
  omega

/-- What the page of a run may be. -/
def PageEffect (options : ReenrichmentOptions ν) (fault : Option Fault)
    (s : ReenrichmentState ν) : PageOutcome ν → Prop
  | .stop s' => Advanced options s s' (options.limit - s.totalCandidates)
  | .next s' => Advanced options s s' (options.pageLimit s)
      ∧ options.pageLimit s < (options.remaining s).length
  | .thrown s' => s' = s ∧ fault ≠ none

/-- A page that was reset is the last one if there are no more nodes. -/
lemma pageEffect_of_advanced {fault : Option Fault} {more : Bool}
    (h : Advanced options s s' (options.pageLimit s))
    (hmore : more = true ↔ options.pageLimit s < (options.remaining s).length) :
    PageEffect options fault s (if more = true then .next s' else .stop s') := by
  by_cases hm : more = true
  · rw [if_pos hm]
    exact ⟨h, hmore.mp hm⟩
  · rw [if_neg hm]
    rw [hmore, not_lt] at hm
    exact h.of_length_le hm (hm.trans (Nat.min_le_right _ _))

/-- **What a page of a confirmed run does.** -/
lemma runPage_effect (hconfirmed : options.confirmed = true) (fault : Option Fault) (now : ℕ)
    (hlt : s.totalCandidates < options.limit) :
    PageEffect options fault s (options.runPage fault now s) := by
  have hpos := one_le_pageLimit hlt
  have hle : options.pageLimit s ≤ 5000 := (Nat.min_le_left _ _).trans options.batchSize_le
  obtain ⟨page, hpage, hids, hmore⟩ :=
    listReenrichmentCandidates_eq_ok s.db options.query s.cursor hpos hle
  rw [pageLimit] at hpage
  by_cases hread : fault = some .read
  · rw [runPage, if_pos hread]
    exact ⟨rfl, by simp [hread]⟩
  · rw [runPage, if_neg hread, hpage]
    dsimp only
    by_cases hne : page.ids = []
    · rw [if_neg fun h => h.2 hne]
      have hnone : ResetEffect options.resetInput s.db s.db page.ids := by
        rw [hne]
        exact ResetEffect.refl _ _
      have hadv : Advanced options s (options.advance s page.ids (s.db, [])) _ :=
        advanced_advance hids hne.symm hnone
      exact pageEffect_of_advanced hadv hmore
    · rw [if_pos ⟨hconfirmed, hne⟩]
      by_cases hreset : fault = some .reset
      · rw [if_pos hreset]
        exact ⟨rfl, by simp [hreset]⟩
      · rw [if_neg hreset]
        have hsorted : page.ids.SortedLT := by
          rw [hids]
          exact sortedLT_candidates.pairwise.take.sortedLT
        have hstatus : ∀ id ∈ page.ids, ∃ row, s.db.lookup id = some row
            ∧ (row.node.stage options.resetInput.stage).status
              ∈ options.resetInput.eligibleStatuses := by
          intro id hid
          rw [hids] at hid
          obtain ⟨⟨row, hrow, hm⟩, -⟩ := mem_candidates.mp (List.mem_of_mem_take hid)
          exact ⟨row, hrow, List.mem_singleton.mpr hm.2.1⟩
        obtain ⟨hreturned, heffect⟩ := resetNodeProcessingStage_effect hsorted hstatus now
        exact pageEffect_of_advanced (advanced_advance hids hreturned heffect) hmore

/-! ## Runs -/

/-- What a run may be: it has reset what is left up to the limit, or something has thrown
before. -/
def RunEffect (options : ReenrichmentOptions ν) (faults : ℕ → Option Fault)
    (s : ReenrichmentState ν) : RunOutcome ν → Prop
  | .finished s' => Advanced options s s' (options.limit - s.totalCandidates)
  | .failed s' => (∃ n, Advanced options s s' n) ∧ s'.totalCandidates < options.limit
      ∧ ∃ i, faults i ≠ none

/-- **Every run ends**, and has reset the first nodes that are left. -/
lemma runPages_effect (hconfirmed : options.confirmed = true) (faults : ℕ → Option Fault)
    (clock : ℕ → ℕ) {fuel : ℕ} (i : ℕ) (hfuel : options.limit - s.totalCandidates ≤ fuel) :
    ∃ outcome, options.runPages faults clock fuel i s = some outcome
      ∧ RunEffect options faults s outcome := by
  induction fuel generalizing s i with
  | zero =>
    have hle : ¬ s.totalCandidates < options.limit := by omega
    refine ⟨.finished s, by rw [runPages, if_neg hle], ?_⟩
    rw [RunEffect, show options.limit - s.totalCandidates = 0 by omega]
    exact Advanced.zero
  | succ fuel ih =>
    by_cases hlt : s.totalCandidates < options.limit
    · have hpage := runPage_effect hconfirmed (faults i) (clock i) hlt
      rw [runPages, if_pos hlt]
      cases ho : options.runPage (faults i) (clock i) s with
      | stop s' =>
        rw [ho] at hpage
        exact ⟨.finished s', rfl, hpage⟩
      | thrown s' =>
        rw [ho] at hpage
        obtain ⟨rfl, hfault⟩ := hpage
        exact ⟨.failed s', rfl, ⟨0, Advanced.zero⟩, hlt, i, hfault⟩
      | next s' =>
        rw [ho] at hpage
        obtain ⟨hadv, hmore⟩ := hpage
        have hpos := one_le_pageLimit hlt
        have hle : options.pageLimit s ≤ options.limit - s.totalCandidates := Nat.min_le_right _ _
        have htotal : s'.totalCandidates = s.totalCandidates + options.pageLimit s := by
          rw [hadv.total, List.length_take_of_le hmore.le]
        obtain ⟨outcome, hrun, heffect⟩ := ih (s := s') (i + 1) (by omega)
        refine ⟨outcome, hrun, ?_⟩
        cases outcome with
        | finished s'' =>
          have htrans := hadv.trans heffect
          rwa [show options.pageLimit s + (options.limit - s'.totalCandidates)
            = options.limit - s.totalCandidates by omega] at htrans
        | failed s'' =>
          obtain ⟨⟨n, hn⟩, hlt', hfault⟩ := heffect
          exact ⟨⟨_, hadv.trans hn⟩, hlt', hfault⟩
    · refine ⟨.finished s, by rw [runPages, if_neg hlt], ?_⟩
      rw [RunEffect, show options.limit - s.totalCandidates = 0 by omega]
      exact Advanced.zero

/-! ## A run, and a run that resumes it -/

/-- The options of a run that is confirmed. -/
def confirm (options : ReenrichmentOptions ν) : ReenrichmentOptions ν :=
  { options with confirmed := true }

/-- The nodes that match, in order, up to the limit. -/
def firstMatching (options : ReenrichmentOptions ν) (db : Table ν EnrichedNode) : List ν :=
  (candidates db options.query options.cursor).take options.limit

/-- **The first nodes that match are reset, once each.** -/
structure ResetsFirst (options : ReenrichmentOptions ν) (db db' : Table ν EnrichedNode)
    (resets : List ν) : Prop where
  resets_eq : resets = options.firstMatching db
  nodup : resets.Nodup
  length : resets.length = min options.limit (candidates db options.query options.cursor).length
  effect : ResetEffect options.resetInput db db' resets

/-- The options of a run from where another one has failed. The pages may have another size. -/
structure Resumes (resumed options : ReenrichmentOptions ν) (s : ReenrichmentState ν) : Prop where
  plugin : resumed.plugin = options.plugin
  rungs : resumed.rungs = options.rungs
  createdSince : resumed.createdSince = options.createdSince
  cursor : resumed.cursor = s.cursor
  limit : resumed.limit = options.limit - s.totalCandidates

/-- Nodes that are the first ones are reset once each. -/
lemma resetsFirst_of_eq {db db' : Table ν EnrichedNode} {resets : List ν}
    (h : resets = options.firstMatching db)
    (heffect : ResetEffect options.resetInput db db' resets) :
    ResetsFirst options db db' resets where
  resets_eq := h
  nodup := h ▸ candidates_nodup.sublist (List.take_sublist _ _)
  length := h ▸ List.length_take
  effect := heffect

omit [LinearOrder ν] in
/-- The first elements of a list, and the first of the others up to a number. -/
lemma take_append_take_drop (xs : List ν) (n l : ℕ) (h : (xs.take n).length ≤ l) :
    xs.take n ++ (xs.drop n).take (l - (xs.take n).length) = xs.take l := by
  obtain hn | hn := Nat.le_total n xs.length
  · rw [List.length_take_of_le hn] at h ⊢
    rw [← List.take_add, Nat.add_sub_cancel' h]
  · rw [List.take_of_length_le hn] at h ⊢
    rw [List.drop_eq_nil_of_le hn, List.take_nil, List.append_nil, List.take_of_length_le h]

/-- What a run is that begins with some tables. -/
lemma runReenrichment_effect (options : ReenrichmentOptions ν) (db : Table ν EnrichedNode)
    (faults : ℕ → Option Fault) (clock : ℕ → ℕ) :
    ∃ outcome, options.confirm.runReenrichment faults clock db = some outcome
      ∧ RunEffect options.confirm faults { db, cursor := options.cursor } outcome :=
  runPages_effect rfl faults clock 0 (Nat.sub_le _ _)

/-- **A run that was resumed** has reset what both runs have. -/
lemma resetsFirst_of_resumed {db : Table ν EnrichedNode} {resumed : ReenrichmentOptions ν}
    (hs : Advanced options.confirm { db, cursor := options.cursor } s n)
    (hlt : s.totalCandidates < options.limit) (hr : resumed.Resumes options s)
    (hs' : Advanced resumed.confirm { db := s.db, cursor := resumed.cursor } s' resumed.limit) :
    options.ResetsFirst db s'.db (s.resets ++ s'.resets) := by
  have hquery : resumed.query = options.query := by
    rw [query, query, hr.plugin, hr.rungs, hr.createdSince]
  have hinput : resumed.resetInput = options.resetInput := by
    rw [resetInput, resetInput, hr.plugin]
  -- what is left for the second run is what the first one has left
  have hleft : resumed.confirm.remaining { db := s.db, cursor := resumed.cursor }
      = (candidates db options.query options.cursor).drop n := by
    refine Eq.trans ?_ hs.remaining
    show candidates s.db resumed.query resumed.cursor = candidates s.db options.query s.cursor
    rw [hquery, hr.cursor]
  have htotal : s.totalCandidates
      = ((candidates db options.query options.cursor).take n).length :=
    hs.total.trans (Nat.zero_add _)
  have hresets : s.resets = (candidates db options.query options.cursor).take n := hs.resets
  have hresets' : s'.resets = ((candidates db options.query options.cursor).drop n).take
      (options.limit - s.totalCandidates) := by
    rw [hs'.resets, hleft, hr.limit]
    rfl
  have heffect : ResetEffect options.resetInput db s.db s.resets := hresets ▸ hs.effect
  have heffect' : ResetEffect options.resetInput s.db s'.db s'.resets := by
    rw [hresets', ← hleft, ← hr.limit, ← hinput]
    exact hs'.effect
  refine resetsFirst_of_eq ?_ (heffect.trans heffect' fun id hid hid' => ?_)
  · rw [hresets, hresets', htotal]
    exact take_append_take_drop _ n _ (htotal ▸ hlt.le)
  · rw [hresets] at hid
    rw [hresets'] at hid'
    exact List.disjoint_take_drop candidates_nodup (Nat.le_refl n) hid (List.mem_of_mem_take hid')

/-- **A run resets the first nodes that match and stops; if it fails, a run from where it has
failed resets the others of them.** -/
theorem runReenrichment_law (options : ReenrichmentOptions ν) (db : Table ν EnrichedNode) :
    (∀ clock, ∃ s, options.confirm.runReenrichment (fun _ => none) clock db = some (.finished s)
      ∧ options.ResetsFirst db s.db s.resets)
    ∧ (∀ faults clock, ∃ outcome, options.confirm.runReenrichment faults clock db = some outcome)
    ∧ ∀ faults clock s, options.confirm.runReenrichment faults clock db = some (.failed s) →
      s.totalCandidates < options.limit
      ∧ ∀ resumed : ReenrichmentOptions ν, resumed.Resumes options s → ∀ faults' clock' s',
        resumed.confirm.runReenrichment faults' clock' s.db = some (.finished s') →
        options.ResetsFirst db s'.db (s.resets ++ s'.resets) := by
  refine ⟨fun clock => ?_, fun faults clock => ?_, fun faults clock s hs => ?_⟩
  · obtain ⟨outcome, ho, heffect⟩ := runReenrichment_effect options db (fun _ => none) clock
    cases outcome with
    | finished s =>
      have hresets : s.resets = options.firstMatching db := heffect.resets
      exact ⟨s, ho, resetsFirst_of_eq hresets (hresets ▸ heffect.effect)⟩
    | failed s =>
      obtain ⟨-, -, i, hi⟩ := heffect
      exact absurd rfl hi
  · obtain ⟨outcome, ho, -⟩ := runReenrichment_effect options db faults clock
    exact ⟨outcome, ho⟩
  · obtain ⟨outcome, ho, heffect⟩ := runReenrichment_effect options db faults clock
    cases hs.symm.trans ho
    obtain ⟨⟨n, hn⟩, hlt, -⟩ := heffect
    refine ⟨hlt, fun resumed hr faults' clock' s' hs' => ?_⟩
    obtain ⟨outcome, ho', heffect'⟩ := runReenrichment_effect resumed s.db faults' clock'
    cases hs'.symm.trans ho'
    exact resetsFirst_of_resumed hn hlt hr heffect'

end ReenrichmentOptions

end Reenrichment
