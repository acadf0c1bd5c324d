import IntuitionCore.Projections.Handlers

/-!
# The projections a worker can run

Thirteen projections write directly to PostgreSQL. Each has a name, the types
of the events it consumes, and what it does with a batch of them; three are
sharded. Eight of them write tables of their own, none of which is a table of
the market read models, and are modelled by the events they consume only.

A worker keeps its mark under the name of its projection, with the shard if
there are several. The names that can run together are distinct, which is
what makes a mark the mark of one worker.
-/

/-- A projection that writes to PostgreSQL. A sharded projection has its shard
and the number of shards, a dual one whether there is a KG pool. -/
inductive PgProjection where
  | eventLog
  | accountRegistry
  | vaultHoldersIndex
  | signalsAnalytics
  | termAggregates
  | protocolStats
  | activityMarker
  | leaderboardMarker
  | vaultState (shardId totalShards : ℕ)
  | positionTracking (shardId totalShards : ℕ)
  | vaultStateDual (shardId totalShards : ℕ) (kgPool : Bool)
  | vaultHoldersIndexDual (kgPool : Bool)
  | atomContextDual
  deriving DecidableEq, Repr

namespace PgProjection

def name : PgProjection → String
  | eventLog => "event_log"
  | accountRegistry => "account_registry"
  | vaultHoldersIndex => "vault_holders_index"
  | signalsAnalytics => "signals_analytics"
  | termAggregates => "term_aggregates"
  | protocolStats => "protocol_stats"
  | activityMarker => "activity_marker"
  | leaderboardMarker => "leaderboard_marker"
  | vaultState .. => "vault_state"
  | positionTracking .. => "position_tracking"
  | vaultStateDual .. => "vault_state:dual"
  | vaultHoldersIndexDual _ => "vault_holders_index:dual"
  | atomContextDual => "atom_context:dual"

def eventTypes : PgProjection → List EventType
  | eventLog =>
    [.atomCreated, .atomContextRegistered, .tripleCreated, .deposited, .redeemed,
      .sharePriceChanged, .protocolFeeAccrued]
  | accountRegistry =>
    [.atomCreated, .atomContextRegistered, .tripleCreated, .deposited, .redeemed,
      .protocolFeeAccrued]
  | vaultHoldersIndex => [.deposited, .redeemed]
  | signalsAnalytics => [.deposited, .redeemed]
  | termAggregates => [.tripleCreated, .sharePriceChanged]
  | protocolStats =>
    [.atomCreated, .tripleCreated, .deposited, .redeemed, .protocolFeeAccrued,
      .sharePriceChanged]
  | activityMarker => [.atomCreated, .tripleCreated, .deposited, .redeemed]
  | leaderboardMarker => [.deposited, .redeemed, .sharePriceChanged]
  | vaultState .. => [.deposited, .redeemed, .sharePriceChanged]
  | positionTracking .. => [.deposited, .redeemed]
  | vaultStateDual .. => [.deposited, .redeemed, .sharePriceChanged]
  | vaultHoldersIndexDual _ => [.deposited, .redeemed]
  | atomContextDual => [.atomContextRegistered]

/-- The shard, where there is more than one. -/
def shardId : PgProjection → Option ℕ
  | vaultState i n | positionTracking i n | vaultStateDual i n _ =>
    if n > 1 then some i else none
  | _ => none

/-- The name a worker keeps its mark under. -/
def checkpointName (p : PgProjection) : String :=
  match p.shardId with
  | some id => s!"{p.name}_s{id}"
  | none => p.name

/-- What a projection does to the market read models with a batch. -/
def processParsedBatch (ext : Externals) (p : PgProjection) (pool : Stores)
    (events : List ParsedEvent) : Except ProjectionError Stores :=
  match p with
  | vaultState i n => do
    return { pool with db := ← VaultStateProjection.processParsedBatch ext i n pool.db events }
  | positionTracking i n =>
    .ok { pool with db := PositionTrackingProjection.processParsedBatch ext i n pool.db events }
  | vaultHoldersIndex =>
    .ok { pool with db := VaultHoldersIndexProjection.processParsedBatch ext pool.db events }
  | vaultStateDual i n kg =>
    VaultStateDualProjection.processParsedBatch ext i n kg pool events
  | vaultHoldersIndexDual kg =>
    .ok (VaultHoldersIndexDualProjection.processParsedBatch ext kg pool events)
  | eventLog | accountRegistry | signalsAnalytics | termAggregates | protocolStats
  | activityMarker | leaderboardMarker | atomContextDual => .ok pool

/-- Every projection can process a deposit. -/
theorem exists_process_deposited (ext : Externals) (metadata : EventMetadata)
    (data : DepositedRecord) (p : PgProjection) (pool : Stores) :
    ∃ pool', p.processParsedBatch ext pool [.deposited metadata data] = .ok pool' := by
  cases p with
  | vaultState i n =>
    show ∃ pool', (VaultStateProjection.processEvent ext i n pool.db _ >>= fun db => pure db)
      >>= _ = .ok pool'
    rw [VaultStateProjection.processEvent]
    split <;> exact ⟨_, rfl⟩
  | vaultStateDual i n kg =>
    show ∃ pool', (VaultStateDualProjection.processEvent ext i n kg pool _ >>= fun tx => pure tx)
      >>= _ = .ok pool'
    rw [VaultStateDualProjection.processEvent]
    split <;> exact ⟨_, rfl⟩
  | _ => exact ⟨_, rfl⟩

/-- Every projection can process a redemption. -/
theorem exists_process_redeemed (ext : Externals) (metadata : EventMetadata) (data : RedeemedRecord)
    (p : PgProjection) (pool : Stores) :
    ∃ pool', p.processParsedBatch ext pool [.redeemed metadata data] = .ok pool' := by
  cases p with
  | vaultState i n =>
    show ∃ pool', (VaultStateProjection.processEvent ext i n pool.db _ >>= fun db => pure db)
      >>= _ = .ok pool'
    rw [VaultStateProjection.processEvent]
    split <;> exact ⟨_, rfl⟩
  | vaultStateDual i n kg =>
    show ∃ pool', (VaultStateDualProjection.processEvent ext i n kg pool _ >>= fun tx => pure tx)
      >>= _ = .ok pool'
    rw [VaultStateDualProjection.processEvent]
    split <;> exact ⟨_, rfl⟩
  | _ => exact ⟨_, rfl⟩

/-! ## The names of workers -/

/-- What is left of the identity of a projection besides its name, in a process
with a number of shards and a KG pool or not. -/
def index : PgProjection → ℕ
  | vaultState i _ | positionTracking i _ | vaultStateDual i _ _ => i
  | _ => 0

/-- A projection a process with a number of shards, and with a KG pool or not,
can run. -/
def Fits (n : ℕ) (kg : Bool) : PgProjection → Prop
  | vaultState i m | positionTracking i m => i < n ∧ m = n
  | vaultStateDual i m kg' => i < n ∧ m = n ∧ kg' = kg
  | vaultHoldersIndexDual kg' => kg' = kg
  | atomContextDual => kg = true
  | _ => True

/-- The projection of a name and an index. -/
def ofName (n : ℕ) (kg : Bool) (name : String) (i : ℕ) : Option PgProjection :=
  match name with
  | "event_log" => some eventLog
  | "account_registry" => some accountRegistry
  | "vault_holders_index" => some vaultHoldersIndex
  | "signals_analytics" => some signalsAnalytics
  | "term_aggregates" => some termAggregates
  | "protocol_stats" => some protocolStats
  | "activity_marker" => some activityMarker
  | "leaderboard_marker" => some leaderboardMarker
  | "vault_state" => some (vaultState i n)
  | "position_tracking" => some (positionTracking i n)
  | "vault_state:dual" => some (vaultStateDual i n kg)
  | "vault_holders_index:dual" => some (vaultHoldersIndexDual kg)
  | "atom_context:dual" => some atomContextDual
  | _ => none

variable {n : ℕ} {kg : Bool} {p q : PgProjection}

theorem ofName_name (h : p.Fits n kg) : ofName n kg p.name p.index = some p := by
  cases p with
  | vaultState i m => obtain ⟨-, rfl⟩ := h; rfl
  | positionTracking i m => obtain ⟨-, rfl⟩ := h; rfl
  | vaultStateDual i m kg' => obtain ⟨-, rfl, rfl⟩ := h; rfl
  | vaultHoldersIndexDual kg' => cases h; rfl
  | _ => rfl

/-- The digits at the end of a text, the last one first. -/
def lastDigits (s : String) : List Char := s.toList.reverse.takeWhile Char.isDigit

/-- A projection is known by its name and its index. -/
theorem eq_of_name_eq (hp : p.Fits n kg) (hq : q.Fits n kg) (hname : p.name = q.name)
    (hindex : p.index = q.index) : p = q := by
  refine Option.some.inj ?_
  rw [← ofName_name hp, ← ofName_name hq, hname, hindex]

/-- No name ends with a digit. -/
theorem lastDigits_name : lastDigits p.name = [] := by
  cases p with
  | vaultState => exact (rfl : lastDigits "vault_state" = [])
  | positionTracking => exact (rfl : lastDigits "position_tracking" = [])
  | vaultStateDual => exact (rfl : lastDigits "vault_state:dual" = [])
  | vaultHoldersIndexDual => exact (rfl : lastDigits "vault_holders_index:dual" = [])
  | _ => rfl

theorem toList_shardName (a : String) (i : ℕ) :
    (s!"{a}_s{i}").toList = a.toList ++ ['_', 's'] ++ Nat.toDigits 10 i := by
  show (a ++ "_s" ++ i.repr).toList = _
  rw [String.toList_append, String.toList_append, Nat.toList_repr]
  rfl

/-- The name of a shard ends with the digits of its number. -/
theorem lastDigits_shardName (a : String) (i : ℕ) :
    lastDigits s!"{a}_s{i}" = (Nat.toDigits 10 i).reverse := by
  unfold lastDigits
  rw [toList_shardName, List.reverse_append, List.takeWhile_append_of_pos]
  · simp
  · intro c hc
    exact Nat.isDigit_of_mem_toDigits (by decide) (by decide) (List.mem_reverse.mp hc)

theorem shardName_inj {a b : String} {i j : ℕ} (h : s!"{a}_s{i}" = s!"{b}_s{j}") :
    a = b ∧ i = j := by
  have hdigits : Nat.toDigits 10 i = Nat.toDigits 10 j := by
    have hlast := congrArg lastDigits h
    rw [lastDigits_shardName, lastDigits_shardName] at hlast
    exact List.reverse_inj.mp hlast
  have hij : i = j := by
    have hval := congrArg (Nat.ofDigitChars 10 · 0) hdigits
    simpa [Nat.ofDigitChars_toDigits] using hval
  have hlist := congrArg String.toList h
  rw [toList_shardName, toList_shardName, hdigits, List.append_cancel_right_eq,
    List.append_cancel_right_eq] at hlist
  exact ⟨String.toList_inj.mp hlist, hij⟩

theorem shardName_ne_name (a : String) (i : ℕ) : s!"{a}_s{i}" ≠ p.name := by
  intro h
  have hlast := congrArg lastDigits h
  rw [lastDigits_shardName, lastDigits_name, List.reverse_eq_nil_iff] at hlast
  exact Nat.toDigits_ne_nil hlast

/-- The shard of a projection is its index; without one, its index is the
first. -/
theorem index_eq_shardId (h : p.Fits n kg) : p.index = p.shardId.getD 0 := by
  cases p with
  | vaultState i m | positionTracking i m =>
    obtain ⟨hi, rfl⟩ := h
    by_cases hm : m > 1
    · simp [index, shardId, hm]
    · simp [index, shardId, hm]
      omega
  | vaultStateDual i m kg' =>
    obtain ⟨hi, rfl, -⟩ := h
    by_cases hm : m > 1
    · simp [index, shardId, hm]
    · simp [index, shardId, hm]
      omega
  | _ => rfl

/-- **The workers that can run together keep their marks under different
names.** -/
theorem eq_of_checkpointName_eq (hp : p.Fits n kg) (hq : q.Fits n kg)
    (h : p.checkpointName = q.checkpointName) : p = q := by
  have key : p.name = q.name ∧ p.shardId = q.shardId := by
    unfold checkpointName at h
    cases hps : p.shardId with
    | none =>
      cases hqs : q.shardId with
      | none => rw [hps, hqs] at h; exact ⟨h, rfl⟩
      | some j => rw [hps, hqs] at h; exact absurd h.symm (shardName_ne_name _ _)
    | some i =>
      cases hqs : q.shardId with
      | none => rw [hps, hqs] at h; exact absurd h (shardName_ne_name _ _)
      | some j =>
        rw [hps, hqs] at h
        obtain ⟨hname, rfl⟩ := shardName_inj h
        exact ⟨hname, rfl⟩
  have hindex : p.index = q.index := by
    rw [index_eq_shardId hp, index_eq_shardId hq, key.2]
  exact eq_of_name_eq hp hq key.1 hindex

end PgProjection
