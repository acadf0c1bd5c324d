import IntuitionCore.Library.Totals
import IntuitionCore.Projections.ReadModel

/-!
# What events move

A deposit moves assets into a vault and shares to an account, a redemption
moves both the other way, and no other event moves either. What the read models
should hold is what the events of a key moved in total, which does not depend
on the order they arrived in. On the chain amounts are unsigned integers.

Events arrive in batches, and a batch that fails is not applied. The rows
after several batches are the ledger's rows of what the batches had.
-/

namespace ParsedEvent

/-- The shares an event moves to an account. -/
def sharesIn : ParsedEvent → ℚ
  | .deposited _ data => data.shares.val
  | _ => 0

/-- The shares an event takes from an account. -/
def sharesOut : ParsedEvent → ℚ
  | .redeemed _ data => data.shares.val
  | _ => 0

/-- The assets an event moves into a vault, after fees. -/
def assetsIn : ParsedEvent → ℚ
  | .deposited _ data => data.assetsAfterFees.val
  | _ => 0

/-- The assets an event takes from a vault. -/
def assetsOut : ParsedEvent → ℚ
  | .redeemed _ data => data.assets.val
  | _ => 0

/-- What an event adds to the shares of its account. -/
def sharesDelta (e : ParsedEvent) : ℚ := e.sharesIn - e.sharesOut

/-- The shares an event moves are not negative. -/
def Unsigned (e : ParsedEvent) : Prop := 0 ≤ e.sharesIn ∧ 0 ≤ e.sharesOut

instance (e : ParsedEvent) : Decidable e.Unsigned := inferInstanceAs (Decidable (_ ∧ _))

end ParsedEvent

namespace ReadModel

variable {ext : Externals} {κ ρ : Type} [DecidableEq κ] {m : ReadModel ext κ ρ}

/-- **Batches are applied to the rows the projection owns**, one after the
other. -/
theorem rows_processBatches {p : PgProjection} {pool pool' : Stores}
    {batches : List (List ParsedEvent)}
    (h : batches.foldlM (p.processParsedBatch ext) pool = .ok pool') (k : κ) :
    m.rows pool' k
      = if m.owns p k then m.ledger.apply k (m.rows pool k) batches.flatten
        else m.rows pool k :=
  m.ledger.foldlM_batches_row (fun _ _ _ hbatch => m.rows_process hbatch k) h

end ReadModel

/-! ## A deposit and its redemption -/

/-- The redemption of the ten shares of the first deposit. -/
def firstRedemptionData : RedeemedRecord where
  sender := "0xa"
  receiver := "0xa"
  termId := "0x07"
  curveId := ⟨1, 0⟩
  shares := ⟨10, 0⟩
  totalShares := ⟨0, 0⟩
  assets := ⟨10, 0⟩
  fees := ⟨0, 0⟩
  vaultType := 0

/-- The event after the first deposit, its redemption. -/
def firstRedemption : StoredEvent where
  sequenceNumber := 2
  blockNumber := 101
  transactionHash := "0xtx2"
  eventType := "Redeemed"
  eventData := { redeemed := some firstRedemptionData }

/-- The first deposit, as it is read. -/
def depositedTen : ParsedEvent := ParsedEvent.parseOrUnknown firstDeposit

/-- Its redemption, as it is read. -/
def redeemedTen : ParsedEvent := ParsedEvent.parseOrUnknown firstRedemption

/-- The position both are of. -/
def firstPosition (ext : Externals) : PositionKey := ⟨"0xa", "0x07", ext.toString ⟨1, 0⟩⟩

theorem unsigned_depositedTen : depositedTen.Unsigned := by decide +kernel

theorem unsigned_redeemedTen : redeemedTen.Unsigned := by decide +kernel

theorem assetsOut_redeemedTen : redeemedTen.assetsOut = 10 := val_ten
