import IntuitionCore.Entities.Actions
import IntuitionCore.Entities.Artifacts
import IntuitionCore.Entities.AtomContext
import IntuitionCore.Library.Query
import Mathlib.Data.String.Basic

/-!
# What the API reads

The API reads the tables of the KG database that creations write to, and those that are kept
of atoms beside them. Of atoms and triples it serves those that are active and public.

The columns of `kg.nodes` that no creation writes are in a table of their own here: they are
what the workers found out about an atom.
-/

namespace KgApi

/-- The columns of `kg.nodes` that are left to the workers, with their defaults. -/
structure NodeEvidence where
  iid : Option String := none
  parseStartedAt : Option ℤ := none
  parseLeaseExpiresAt : Option ℤ := none
  parsedAt : Option ℤ := none
  parseError : Option KgJson := none
  parseResult : Option KgJson := none
  classificationStartedAt : Option ℤ := none
  classificationLeaseExpiresAt : Option ℤ := none
  classifiedAt : Option ℤ := none
  classificationError : Option KgJson := none
  classificationResult : Option KgJson := none
  enrichmentStartedAt : Option ℤ := none
  enrichmentLeaseExpiresAt : Option ℤ := none
  enrichedAt : Option ℤ := none
  enrichmentError : Option KgJson := none

/-- A row of `kg.nodes`, all of it. -/
structure AtomRow extends NodeRow, NodeEvidence

/-- A row of `kg.node_stats`. -/
structure NodeStatsRow where
  inDegree : ℤ
  outDegree : ℤ
  neighborKindCounts : KgJson
  predicateCounts : KgJson
  updatedAt : Option ℤ

/-- A row of `kg.api_keys`, which has a unique index on the hashes. -/
structure ApiKeyRow where
  id : String
  name : String
  accountId : String
  canWrite : Bool := true
  rateLimitRpm : Option ℤ := none
  revokedAt : Option ℤ := none
  lastUsedAt : Option ℤ := none

/-- The KG database. -/
structure KgDb where
  graph : KgGraph := {}
  evidence : Table String NodeEvidence := ∅
  artifacts : Table String Artifact := ∅
  nodeContexts : NodeContexts := ∅
  /-- The nodes and the identifiers they are also known by. -/
  nodeIdentifiers : Finset (String × String) := ∅
  nodeStats : Table String NodeStatsRow := ∅
  /-- By the hash of the key. -/
  apiKeys : Table String ApiKeyRow := ∅

namespace KgDb

variable (db : KgDb)

/-- The rows of `kg.nodes`. -/
def nodes : Table String AtomRow :=
  db.graph.nodes.mapTo fun id row => { row, (db.evidence.lookup id).getD {} with }

end KgDb

/-- **The public read model**: the atoms that are active and public. -/
def publicNodes (row : AtomRow) : Prop := row.status = "active" ∧ row.visibility = "public"

/-- **The public read model**: the triples that are active and public. -/
def publicTriples (row : TripleRow) : Prop := row.status = "active" ∧ row.visibility = "public"

instance (row : AtomRow) : Decidable (publicNodes row) := inferInstanceAs (Decidable (_ ∧ _))

instance (row : TripleRow) : Decidable (publicTriples row) := inferInstanceAs (Decidable (_ ∧ _))

end KgApi
