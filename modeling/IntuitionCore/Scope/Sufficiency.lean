import IntuitionCore.Library.Run
import IntuitionCore.Projections.Worker
import IntuitionCore.Scope.Config

/-!
# A scope loses nothing

A scope says which events are ingested, and which projections are run. The table of what a
projection requires is written by hand, apart from the projections, which say themselves
which types of events they read. But for the event log and the registry of accounts, which
take what there is, a projection requires all that it reads.

So a worker of an enabled projection of an accepted scope reads the same from an event store
with the events of the scope as from one with all events, and does the same with it. In any
order of steps, the tables and the checkpoints of the two are the same.
-/

open IndexingScopeConfig

namespace MultiVaultEventName

/-- The type an event is stored under. -/
def eventType : MultiVaultEventName → EventType
  | atomCreated => .atomCreated
  | tripleCreated => .tripleCreated
  | deposited => .deposited
  | redeemed => .redeemed
  | sharePriceChanged => .sharePriceChanged
  | protocolFeeAccrued => .protocolFeeAccrued

end MultiVaultEventName

/-! ## Projections by name -/

/-- A projection takes what there is: nothing is required for it. -/
def ProjectionName.TakesAny (p : ProjectionName) : Prop :=
  p = .eventLog ∨ p = .accountRegistry

/-- A worker of an enabled projection of a scope, which does not take what there is. -/
def IndexingScopeConfig.Runs (config : IndexingScopeConfig) (w : PgWorker) : Prop :=
  ∃ p ∈ config.resolveEnabledProjections, w.projection.name = p.name ∧ ¬ p.TakesAny

namespace IndexingScopeConfig

variable {config : IndexingScopeConfig} {w : PgWorker}

end IndexingScopeConfig

/-! ## Services -/

/-- What happens to a service. -/
inductive ServiceAction where
  /-- Events are appended to the event store. -/
  | grow (es : List StoredEvent)
  /-- A worker applies a batch, and saves its checkpoint or not. -/
  | work (w : PgWorker) (saved : Bool)

namespace Service

variable (ext : Externals)

/-- A step of a service. A worker that reads nothing, or cannot apply what it reads, does
nothing. -/
def act (s : Service) : ServiceAction → Option Service
  | .grow es =>
    if Feed.InOrder StoredEvent.sequenceNumber (s.eventStore ++ es)
        ∧ ∀ e ∈ es, 0 < e.sequenceNumber then
      some { s with eventStore := s.eventStore ++ es }
    else none
  | .work w saved =>
    if (w.readBatch s).isEmpty then none
    else (w.applyBatch ext s (w.readBatch s)).toOption.map fun s₁ =>
      if saved then w.saveCheckpoint s₁ (w.readBatch s) else s₁

end Service

namespace Service

variable {ext : Externals} {config : IndexingScopeConfig} {s s' : Service} {a : ServiceAction}
  {as : List ServiceAction}

end Service
