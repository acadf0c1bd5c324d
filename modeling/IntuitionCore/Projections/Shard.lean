import IntuitionCore.Projections.Decimal
import Mathlib.Data.Nat.Basic

/-!
# Sharding

Some projections are run as several workers, each of which owns the vaults
whose identity hashes to its shard. An event is skipped by every shard but
one, so what a vault's row is maintained by is the worker of one shard.

The rows are keyed by the printed curve id, the shards by the curve id with
its fractional digits cut off. That the second is a function of the first is
what makes a shard an owner of rows: it is `shardOfVault`.
-/

namespace Shard

variable (ext : Externals)

/-- The integer a curve id is, as text. -/
def canonicalShardKey (bd : BigDecimal) : String := ext.toString bd.withScale0

/-- The shard of a vault. The assertion that there are shards is the caller's. -/
def calculateShard (termId curveId : String) (totalShards : ℕ) : ℕ :=
  ext.hash termId curveId % totalShards

/-- A vault belongs to a shard; to the only one, if there is only one. -/
def belongsToShard (termId curveId : String) (shardId totalShards : ℕ) : Bool :=
  if totalShards ≤ 1 then true
  else calculateShard ext termId curveId totalShards == shardId

/-- A worker of one shard skips the events of the others' vaults. -/
def shouldSkipShard (shardId totalShards : ℕ) (termId : String) (curveId : BigDecimal) : Bool :=
  totalShards > 1
    && !belongsToShard ext termId (canonicalShardKey ext curveId) shardId totalShards

/-- The shard of the vault stored under a term id and a printed curve id. -/
def shardOfVault (totalShards : ℕ) (termId curveId : String) : ℕ :=
  calculateShard ext termId
    (((ext.parseDecimal curveId).map (canonicalShardKey ext)).getD curveId) totalShards

/-- A shard owns the vaults of its number; the only one owns all. -/
def ownsVault (shardId totalShards : ℕ) (termId curveId : String) : Bool :=
  totalShards ≤ 1 || shardOfVault ext totalShards termId curveId == shardId

variable {ext} {n i : ℕ}

theorem calculateShard_lt (h : 1 ≤ n) (termId curveId : String) :
    calculateShard ext termId curveId n < n := Nat.mod_lt _ h

theorem shardOfVault_lt (h : 1 ≤ n) (termId curveId : String) :
    shardOfVault ext n termId curveId < n := calculateShard_lt h _ _

/-- Printing a curve id does not lose its shard. -/
theorem shardOfVault_toString (hext : ext.Lawful) (termId : String) (curveId : BigDecimal) :
    shardOfVault ext n termId (ext.toString curveId)
      = calculateShard ext termId (canonicalShardKey ext curveId) n := by
  obtain ⟨b, hb, hval⟩ := hext.parse_toString curveId
  show calculateShard ext termId
    (((ext.parseDecimal (ext.toString curveId)).map (canonicalShardKey ext)).getD _) n = _
  rw [hb]
  show calculateShard ext termId (ext.toString b.withScale0) n = _
  rw [BigDecimal.withScale0_eq_of_val_eq hval]
  rfl

/-- A shard does not skip an event exactly when it owns the vault it is kept
under. -/
theorem shouldSkipShard_eq (hext : ext.Lawful) (termId : String) (curveId : BigDecimal) :
    shouldSkipShard ext i n termId curveId
      = !ownsVault ext i n termId (ext.toString curveId) := by
  unfold shouldSkipShard belongsToShard ownsVault
  rw [shardOfVault_toString hext]
  by_cases hn : n ≤ 1
  · simp [hn]
  · simp [hn, Nat.lt_of_not_le hn]

/-- **Every vault is owned by exactly one shard.** -/
theorem ownsVault_iff (hi : i < n) (termId curveId : String) :
    ownsVault ext i n termId curveId = true ↔ shardOfVault ext n termId curveId = i := by
  have hlt : shardOfVault ext n termId curveId < n :=
    shardOfVault_lt (i.zero_le.trans_lt hi) _ _
  unfold ownsVault
  by_cases hn : n ≤ 1
  · have hi0 : shardOfVault ext n termId curveId = i := by omega
    simp [hn, hi0]
  · simp [hn]

end Shard
