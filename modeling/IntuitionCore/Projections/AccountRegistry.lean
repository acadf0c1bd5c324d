import IntuitionCore.Library.Table
import IntuitionCore.Projections.Worker
import Mathlib.Order.Bounds.Basic

/-!
# The registry of accounts

Every address that an event names has a row that says when it was seen first and
last. A batch is first reduced to one time for each address, and then written
with one statement: it inserts the rows that are missing, and moves the others'
`last_seen_at` on.

So `last_seen_at` is the greatest time of all events, however they are batched
and repeated. `first_seen_at` is written with the row and never again: what is
known of it is that it is a time of the batch that brought the address, whatever
comes later.
-/

/-- A row of `account`. -/
structure AccountRow where
  firstSeenAt : ℤ
  lastSeenAt : ℤ
  accountType : String
  deriving DecidableEq, Repr

/-- The table `account`, by `account_id`. -/
abbrev AccountTable := Table String AccountRow

namespace AccountRegistryProjection

/-- The addresses an event names, with the time of its block. -/
def extractAddressesTyped : ParsedEvent → List (String × ℤ)
  | .atomCreated metadata data => [(data.creator, metadata.blockTimestamp)]
  | .atomContextRegistered metadata data => [(data.registrant, metadata.blockTimestamp)]
  | .tripleCreated metadata data => [(data.creator, metadata.blockTimestamp)]
  | .deposited metadata data =>
    [(data.sender, metadata.blockTimestamp), (data.receiver, metadata.blockTimestamp)]
  | .redeemed metadata data =>
    [(data.sender, metadata.blockTimestamp), (data.receiver, metadata.blockTimestamp)]
  | .protocolFeeAccrued metadata data => [(data.sender, metadata.blockTimestamp)]
  | .sharePriceChanged _ _ => []
  | .unknown _ => []

/-- Enter an address into the map of a batch. The time that is there is replaced
by a later one. -/
def enter (addressMap : List (String × ℤ)) (entry : String × ℤ) : List (String × ℤ) :=
  match addressMap with
  | [] => [entry]
  | (address, existing) :: rest =>
    if address = entry.1 then
      (address, if entry.2 > existing then entry.2 else existing) :: rest
    else (address, existing) :: enter rest entry

/-- The map of a batch. The order of its entries is of no matter. -/
def addressMap (events : List ParsedEvent) : List (String × ℤ) :=
  (events.flatMap extractAddressesTyped).foldl enter []

/-- The row of an address after a batch in which it was seen. -/
def upsertRow (row : Option AccountRow) (ts : ℤ) : AccountRow :=
  match row with
  | none => ⟨ts, ts, "Default"⟩
  | some row => { row with lastSeenAt := max row.lastSeenAt ts }

def processParsedBatch (account : AccountTable) (events : List ParsedEvent) : AccountTable :=
  account.upsertAll upsertRow (addressMap events)

/-- The registry after batches, on an empty table. -/
def processBatches (batches : List (List ParsedEvent)) : AccountTable :=
  batches.foldl processParsedBatch ∅

/-- The times at which events name an address. -/
def seenAt (address : String) (events : List ParsedEvent) : Set ℤ :=
  {t | ∃ event ∈ events, (address, t) ∈ extractAddressesTyped event}

/-! ## The map of a batch -/

/-- A time is the greatest of a set, or there is none. -/
def GreatestOf (time : Option ℤ) (times : Set ℤ) : Prop :=
  time.elim (times = ∅) (IsGreatest times)

variable {address : String} {events : List ParsedEvent} {batches : List (List ParsedEvent)}
  {times : Set ℤ}

/-- The greatest of two sets is the greater one of theirs. -/
theorem GreatestOf.union {time : Option ℤ} {t : ℤ} {others : Set ℤ} (h : GreatestOf time times)
    (ht : IsGreatest others t) :
    GreatestOf (some (time.elim t fun x => max x t)) (times ∪ others) := by
  cases time with
  | none =>
    show IsGreatest (times ∪ others) t
    rw [show times = ∅ from h, Set.empty_union]
    exact ht
  | some x => exact IsGreatest.union h ht

theorem lookup_enter (map : List (String × ℤ)) (entry : String × ℤ) (a : String) :
    (enter map entry).lookup a
      = if a = entry.1 then some ((map.lookup a).elim entry.2 fun t => max t entry.2)
        else map.lookup a := by
  induction map with
  | nil => exact Table.lookup_cons_eq_ite entry [] a
  | cons head rest ih =>
    obtain ⟨b, existing⟩ := head
    unfold enter
    by_cases hb : b = entry.1
    · rw [if_pos hb, Table.lookup_cons_eq_ite, Table.lookup_cons_eq_ite, hb]
      by_cases ha : a = entry.1
      · simp only [if_pos ha, Option.elim_some, max_def]
        congr 1
        split <;> split <;> omega
      · simp only [if_neg ha]
    · rw [if_neg hb, Table.lookup_cons_eq_ite, Table.lookup_cons_eq_ite, ih]
      by_cases ha : a = b
      · simp only [if_pos ha, if_neg fun h => hb (ha.symm.trans h)]
      · simp only [if_neg ha]

/-- Entering adds the address if it is not there. -/
theorem nodup_enter {map : List (String × ℤ)} (h : (map.map Prod.fst).Nodup)
    (entry : String × ℤ) : ((enter map entry).map Prod.fst).Nodup := by
  have hmem : ∀ map : List (String × ℤ), ∀ b,
      b ∈ (enter map entry).map Prod.fst → b = entry.1 ∨ b ∈ map.map Prod.fst := by
    intro map b hb
    induction map with
    | nil => simpa [enter] using hb
    | cons head rest ih =>
      obtain ⟨c, existing⟩ := head
      unfold enter at hb
      by_cases hc : c = entry.1
      · rw [if_pos hc] at hb
        exact .inr hb
      · rw [if_neg hc] at hb
        obtain rfl | hb := List.mem_cons.mp hb
        · exact .inr List.mem_cons_self
        · exact (ih hb).imp_right fun hb => List.mem_cons_of_mem _ hb
  induction map with
  | nil => exact List.nodup_singleton _
  | cons head rest ih =>
    obtain ⟨c, existing⟩ := head
    obtain ⟨hc, hrest⟩ := List.nodup_cons.mp h
    unfold enter
    by_cases heq : c = entry.1
    · rw [if_pos heq]
      exact h
    · rw [if_neg heq]
      refine List.nodup_cons.mpr ⟨fun hin => ?_, ih hrest⟩
      exact (hmem rest c hin).elim heq hc

/-- The map of a batch has one entry for an address. -/
theorem nodup_addressMap (events : List ParsedEvent) :
    ((addressMap events).map Prod.fst).Nodup := by
  have hfold : ∀ entries map : List (String × ℤ), (map.map Prod.fst).Nodup →
      ((entries.foldl enter map).map Prod.fst).Nodup := by
    intro entries
    induction entries with
    | nil => exact fun _ h => h
    | cons entry entries ih => exact fun map h => ih _ (nodup_enter h entry)
  exact hfold _ [] List.nodup_nil

/-- **The map of a batch has the greatest time of each address it names.** -/
theorem greatestOf_addressMap (a : String) (events : List ParsedEvent) :
    GreatestOf ((addressMap events).lookup a) (seenAt a events) := by
  -- the entries go into the map one by one, and their times into the set
  have hfold : ∀ (entries map : List (String × ℤ)) (times : Set ℤ),
      GreatestOf (map.lookup a) times →
        GreatestOf ((entries.foldl enter map).lookup a) (times ∪ {t | (a, t) ∈ entries}) := by
    intro entries
    induction entries with
    | nil => exact fun map times h => by simpa using h
    | cons entry entries ih =>
      intro map times h
      have hset : times ∪ {t | (a, t) ∈ entry :: entries}
          = (times ∪ {t | (a, t) = entry}) ∪ {t | (a, t) ∈ entries} := by
        ext t
        simp [or_assoc]
      rw [List.foldl_cons, hset]
      refine ih _ _ ?_
      rw [lookup_enter]
      by_cases ha : a = entry.1
      · -- the time of the address is replaced by a later one
        rw [if_pos ha]
        refine h.union ?_
        have hone : {t | (a, t) = entry} = {entry.2} := by
          ext t
          rw [ha]
          exact ⟨fun h => congrArg Prod.snd h, fun h => Prod.ext rfl h⟩
        rw [hone]
        exact isGreatest_singleton
      · -- an entry of another address adds no time
        have hnone : {t | (a, t) = entry} = ∅ :=
          Set.eq_empty_of_forall_notMem fun t h => ha (congrArg Prod.fst h)
        rw [if_neg ha, hnone, Set.union_empty]
        exact h
  have hseen : seenAt a events = ∅ ∪ {t | (a, t) ∈ events.flatMap extractAddressesTyped} := by
    ext t
    simp [seenAt]
  rw [hseen]
  exact hfold _ [] ∅ rfl

/-! ## What a batch does to a row -/

/-- **A batch writes the row of each address it names once.** -/
theorem lookup_processParsedBatch (account : AccountTable) (events : List ParsedEvent)
    (a : String) :
    (processParsedBatch account events).lookup a
      = ((addressMap events).lookup a).elim (account.lookup a)
          fun ts => some (upsertRow (account.lookup a) ts) :=
  Table.lookup_upsertAll (nodup_addressMap events) a

/-- A row is never given another `first_seen_at`. -/
theorem firstSeenAt_foldl {account : AccountTable} {a : String} {row : AccountRow}
    (h : account.lookup a = some row) (batches : List (List ParsedEvent)) :
    ∃ row', (batches.foldl processParsedBatch account).lookup a = some row'
      ∧ row'.firstSeenAt = row.firstSeenAt := by
  induction batches generalizing account row with
  | nil => exact ⟨row, h, rfl⟩
  | cons events batches ih =>
    have hbatch : ∃ row', (processParsedBatch account events).lookup a = some row'
        ∧ row'.firstSeenAt = row.firstSeenAt := by
      rw [lookup_processParsedBatch, h]
      cases (addressMap events).lookup a with
      | none => exact ⟨row, rfl, rfl⟩
      | some ts => exact ⟨_, rfl, rfl⟩
    obtain ⟨row₁, hrow₁, hfirst₁⟩ := hbatch
    obtain ⟨row', hrow', hfirst'⟩ := ih hrow₁
    exact ⟨row', hrow', hfirst'.trans hfirst₁⟩

theorem seenAt_append (a : String) (events events' : List ParsedEvent) :
    seenAt a (events ++ events') = seenAt a events ∪ seenAt a events' := by
  ext t
  simp [seenAt, or_and_right, exists_or]

/-- **`last_seen_at` is the greatest time of all batches**, and an address has a
row exactly if it was named. -/
theorem greatestOf_lastSeenAt (a : String) (batches : List (List ParsedEvent)) :
    GreatestOf (((processBatches batches).lookup a).map AccountRow.lastSeenAt)
      (seenAt a batches.flatten) := by
  -- from any table whose row has the greatest of some times
  have hfold : ∀ (account : AccountTable) (times : Set ℤ),
      GreatestOf ((account.lookup a).map AccountRow.lastSeenAt) times →
        GreatestOf (((batches.foldl processParsedBatch account).lookup a).map
          AccountRow.lastSeenAt) (times ∪ seenAt a batches.flatten) := by
    induction batches with
    | nil =>
      intro account times h
      have hnil : seenAt a [].flatten = ∅ := by simp [seenAt]
      rw [hnil, Set.union_empty]
      exact h
    | cons events batches ih =>
      intro account times h
      rw [List.foldl_cons, List.flatten_cons, seenAt_append, ← Set.union_assoc]
      refine ih _ _ ?_
      rw [lookup_processParsedBatch]
      have hbatch := greatestOf_addressMap a events
      cases hts : (addressMap events).lookup a with
      | none =>
        rw [hts] at hbatch
        rw [show seenAt a events = ∅ from hbatch, Set.union_empty]
        exact h
      | some ts =>
        rw [hts] at hbatch
        have hunion := h.union (show IsGreatest (seenAt a events) ts from hbatch)
        cases hrow : account.lookup a with
        | none =>
          rw [hrow] at hunion
          exact hunion
        | some row =>
          rw [hrow] at hunion
          exact hunion
  have hempty := hfold ∅ ∅ (by rw [Finmap.lookup_empty]; rfl)
  rwa [Set.empty_union] at hempty

/-- **`first_seen_at` is a time of the batch that brings the address.** -/
theorem firstSeenAt_mem {a : String} {before after : List (List ParsedEvent)}
    {first : List ParsedEvent} (hbefore : seenAt a before.flatten = ∅)
    (hfirst : (seenAt a first).Nonempty) {row : AccountRow}
    (hrow : (processBatches (before ++ first :: after)).lookup a = some row) :
    row.firstSeenAt ∈ seenAt a first := by
  -- nobody named the address before, so the batch inserts the row
  have hnone : (processBatches before).lookup a = none := by
    have h := greatestOf_lastSeenAt a before
    cases hlook : (processBatches before).lookup a with
    | none => rfl
    | some row =>
      rw [hlook, hbefore] at h
      exact absurd h.1 (Set.notMem_empty _)
  have hbatch := greatestOf_addressMap a first
  cases hts : (addressMap first).lookup a with
  | none =>
    rw [hts] at hbatch
    exact absurd hbatch hfirst.ne_empty
  | some ts =>
    rw [hts] at hbatch
    have hinsert : (processParsedBatch (processBatches before) first).lookup a
        = some ⟨ts, ts, "Default"⟩ := by
      rw [lookup_processParsedBatch, hts, hnone]
      rfl
    obtain ⟨row', hrow', hsame⟩ := firstSeenAt_foldl hinsert after
    unfold processBatches at hrow
    rw [List.foldl_append, List.foldl_cons] at hrow
    obtain rfl := Option.some.inj (hrow'.symm.trans hrow)
    rw [hsame]
    exact hbatch.1

/-! ## The registry -/

/-- **The registry after any batches.** An address has a row exactly if an event
names it. Its `last_seen_at` is the greatest time of those events. Its
`first_seen_at` is a time of the first batch that names it, and no later batch
changes it; so it is the least time where no time of that batch is later than
another time at which the address is named. -/
theorem registry_of_batches (batches : List (List ParsedEvent)) (a : String) :
    (a ∈ processBatches batches ↔ (seenAt a batches.flatten).Nonempty)
    ∧ ∀ row, (processBatches batches).lookup a = some row →
      IsGreatest (seenAt a batches.flatten) row.lastSeenAt
      ∧ (∀ before first after, batches = before ++ first :: after →
          seenAt a before.flatten = ∅ → (seenAt a first).Nonempty →
            row.firstSeenAt ∈ seenAt a first
            ∧ ((∀ t ∈ seenAt a first, ∀ t' ∈ seenAt a batches.flatten, t ≤ t') →
                IsLeast (seenAt a batches.flatten) row.firstSeenAt))
      ∧ ∀ more, ∃ row', (processBatches (batches ++ more)).lookup a = some row'
          ∧ row'.firstSeenAt = row.firstSeenAt := by
  have hlast := greatestOf_lastSeenAt a batches
  refine ⟨?_, fun row hrow => ⟨?_, ?_, fun more => ?_⟩⟩
  · rw [← Finmap.lookup_isSome]
    cases hlook : (processBatches batches).lookup a with
    | none =>
      rw [hlook] at hlast
      rw [show seenAt a batches.flatten = ∅ from hlast]
      simp
    | some row =>
      rw [hlook] at hlast
      exact iff_of_true rfl ⟨_, hlast.1⟩
  · rw [hrow] at hlast
    exact hlast
  · -- the first batch that names the address inserts its row
    rintro before first after rfl hbefore hfirst
    have hmem := firstSeenAt_mem hbefore hfirst hrow
    refine ⟨hmem, fun hle => ⟨?_, fun t' ht' => hle _ hmem t' ht'⟩⟩
    rw [List.flatten_append, List.flatten_cons, seenAt_append, seenAt_append]
    exact .inr (.inl hmem)
  · unfold processBatches
    rw [List.foldl_append]
    exact firstSeenAt_foldl hrow more

/-- A deposit of an account to itself, in a block of some time. -/
def depositAt (time : ℤ) : ParsedEvent :=
  ParsedEvent.parseOrUnknown { firstDeposit with blockTimestamp := time }

/-- **An earlier time that comes later is not taken**: the account is met at the
time two first, and at one afterwards. -/
theorem registry_late_not_least :
    ∃ row, (processBatches [[depositAt 2], [depositAt 1]]).lookup "0xa" = some row
      ∧ ¬ IsLeast (seenAt "0xa" [[depositAt 2], [depositAt 1]].flatten) row.firstSeenAt := by
  refine ⟨⟨2, 2, "Default"⟩, by decide +kernel, fun h => ?_⟩
  have hle := h.2 (show (1 : ℤ) ∈ seenAt "0xa" [depositAt 2, depositAt 1] from
    ⟨depositAt 1, by simp, List.mem_cons_self⟩)
  exact absurd hle (by decide)

end AccountRegistryProjection
