import IntuitionCore.Library.CheckThenAct
import IntuitionCore.Processing.Nodes

/-!
# Whose an artifact is

An artifact belongs to the account that created it, if there was one. Its id is computed
from what it holds, so that two accounts may come to the same id. A call that is made by
an account looks up whose the artifact is before it changes it, and gives up if it is that
of another one.

The lookup is one statement and the change another. The lookup locks nothing, and where
there is no artifact yet there would be nothing to lock. So two calls may both find an
id free; the second insert is then an update, and makes the artifact that of its account.
-/

/-- A row of `kg.artifacts`. -/
structure Artifact where
  nodeId : String
  artifactKind : String
  artifactVersion : String
  status : String
  sourceUri : Option String
  sourceHash : String
  data : KgJson
  extracted : KgJson
  error : Option KgJson
  createdByAccountId : Option String
  createdAt : ℕ
  updatedAt : ℕ

/-- The input of `createArtifact`, with its id and hash, which are computed if they are not
given. A field that is missing is left as it is by an update. -/
structure CreateArtifactInput where
  artifactId : String
  nodeId : String
  artifactKind : String
  artifactVersion : String
  status : Option String := none
  sourceUri : Option (Option String) := none
  sourceHash : String
  data : Option KgJson := none
  extracted : Option KgJson := none
  error : Option KgJson := none
  createdByAccountId : Option String := none

/-- The input of `attachArtifactToNode`. -/
structure AttachArtifactToNodeInput where
  artifactId : String
  nodeId : String
  actorAccountId : Option String := none

/-- The account that a call is made by. An empty one is none. -/
def suppliedAccount (accountId : Option String) : Option String := accountId.filter (· ≠ "")

/-- The row that an upsert leaves. -/
def CreateArtifactInput.row (input : CreateArtifactInput) (now : ℕ) (old : Option Artifact) :
    Artifact where
  nodeId := input.nodeId
  artifactKind := input.artifactKind
  artifactVersion := input.artifactVersion
  status := input.status.getD "active"
  sourceUri := input.sourceUri.getD (old.bind (·.sourceUri))
  sourceHash := input.sourceHash
  data := input.data.getD (.object [])
  extracted := input.extracted.getD (.object [])
  error := input.error <|> old.bind (·.error)
  createdByAccountId :=
    suppliedAccount input.createdByAccountId <|> old.bind (·.createdByAccountId)
  createdAt := old.elim now (·.createdAt)
  updatedAt := now

/-! ## Statements -/

/-- A statement that changes an artifact. -/
inductive ArtifactWrite where
  | upsert (input : CreateArtifactInput)
  | attach (input : AttachArtifactToNodeInput)
  | delete (artifactId : String) (actorAccountId : Option String)

namespace ArtifactWrite

def artifactId : ArtifactWrite → String
  | .upsert input => input.artifactId
  | .attach input => input.artifactId
  | .delete artifactId _ => artifactId

/-- What is asserted of the row that a call looks up: an artifact that is created is no
one's, or that of the account; one that is attached or deleted is there too. Nothing is
asserted of the latter where no account is supplied. -/
def Allowed (row : Option Artifact) : ArtifactWrite → Prop
  | .upsert input => ∀ r ∈ row, ∀ owner ∈ r.createdByAccountId,
      suppliedAccount input.createdByAccountId = some owner
  | .attach input => ∀ account ∈ suppliedAccount input.actorAccountId,
      ∃ r ∈ row, ∀ owner ∈ r.createdByAccountId, owner = account
  | .delete _ actorAccountId => ∀ account ∈ suppliedAccount actorAccountId,
      ∃ r ∈ row, ∀ owner ∈ r.createdByAccountId, owner = account

/-- What a statement does to its row. -/
def patch (now : ℕ) (row : Option Artifact) : ArtifactWrite → Option Artifact
  | .upsert input => some (input.row now row)
  | .attach input => row.map fun r => { r with nodeId := input.nodeId, updatedAt := now }
  | .delete _ _ => none

/-- **A statement is one that the owner of an artifact may make**: it is made by that
account, or is one by which the application itself attaches or deletes artifacts. -/
def IsBy (owner : String) : ArtifactWrite → Prop
  | .upsert input => suppliedAccount input.createdByAccountId = some owner
  | .attach input => ∀ account ∈ suppliedAccount input.actorAccountId, account = owner
  | .delete _ actorAccountId => ∀ account ∈ suppliedAccount actorAccountId, account = owner

instance (row : Option Artifact) (w : ArtifactWrite) : Decidable (w.Allowed row) := by
  cases w <;> (unfold Allowed; infer_instance)

instance (owner : String) (w : ArtifactWrite) : Decidable (w.IsBy owner) := by
  cases w <;> (unfold IsBy; infer_instance)

variable {w : ArtifactWrite} {row : Option Artifact}

/-- What is asserted of an artifact that is someone's. -/
theorem isBy_of_allowed (h : w.Allowed row) {r : Artifact} (hr : row = some r) {owner : String}
    (howner : r.createdByAccountId = some owner) : w.IsBy owner := by
  subst hr
  cases w with
  | upsert input => exact h r rfl owner howner
  | attach input =>
    intro account haccount
    obtain ⟨_, ⟨⟩, hmine⟩ := h account haccount
    exact (hmine owner howner).symm
  | delete artifactId actorAccountId =>
    intro account haccount
    obtain ⟨_, ⟨⟩, hmine⟩ := h account haccount
    exact (hmine owner howner).symm

end ArtifactWrite

/-! ## Calls -/

/-- A call that is under way. -/
inductive ArtifactCall where
  /-- The artifacts that were upserted, and when, though nobody else sees it yet; the one
  that was looked up; and the ones that are to come. -/
  | creating (written : List (CreateArtifactInput × ℕ)) (checked : Option CreateArtifactInput)
      (todo : List CreateArtifactInput)
  /-- The artifact was looked up. -/
  | attaching (input : AttachArtifactToNodeInput)
  | deleting (artifactId : String) (actorAccountId : Option String)

namespace ArtifactCall

/-- The rows that a call has locked. -/
def locked : ArtifactCall → List String
  | .creating written _ _ => written.map fun w => w.1.artifactId
  | .attaching _ | .deleting _ _ => []

/-- What a call has looked up artifacts for, and what nobody else sees yet. -/
def checked : ArtifactCall → List ArtifactWrite
  | .creating written checked _ => (written.map Prod.fst ++ checked.toList).map .upsert
  | .attaching input => [.attach input]
  | .deleting artifactId actorAccountId => [.delete artifactId actorAccountId]

end ArtifactCall

/-- The upserts of a call. -/
def upserts (written : List (CreateArtifactInput × ℕ)) : List (ArtifactWrite × ℕ) :=
  written.map fun w => (.upsert w.1, w.2)

/-- Artifacts after some statements. -/
def applyWrites (artifacts : Table String Artifact) (writes : List (ArtifactWrite × ℕ)) :
    Table String Artifact :=
  writes.foldl (fun t w => t.alter w.1.artifactId fun row => w.1.patch w.2 row) artifacts

/-- The artifacts, and the calls that are under way. -/
structure ArtifactDb where
  artifacts : Table String Artifact := ∅
  calls : Table ℕ ArtifactCall := ∅

namespace ArtifactDb

/-- What calls do. A call has a number. -/
inductive Action where
  /-- A transaction begins; `createArtifact` creates one artifact. -/
  | createArtifacts (call : ℕ) (inputs : List CreateArtifactInput)
  /-- The artifact is looked up, if an account is supplied. -/
  | attachArtifactToNode (call : ℕ) (input : AttachArtifactToNodeInput)
  | deleteArtifact (call : ℕ) (artifactId : String) (actorAccountId : Option String)
  /-- The next artifact to be created is looked up. -/
  | check (call : ℕ)
  /-- What was looked up is changed. -/
  | write (call : ℕ) (now : ℕ)
  /-- A call throws. -/
  | throw (call : ℕ)

variable (s : ArtifactDb)

/-- A row is locked by another call. -/
def IsLocked (call : ℕ) (artifactId : String) : Prop :=
  ∃ other ∈ s.calls.keys, other ≠ call ∧ ∃ c ∈ s.calls.lookup other, artifactId ∈ c.locked

instance (call : ℕ) (artifactId : String) : Decidable (s.IsLocked call artifactId) :=
  inferInstanceAs (Decidable (∃ other ∈ s.calls.keys, _))

/-- A call begins. -/
def begin (call : ℕ) (c : ArtifactCall) : Option ArtifactDb :=
  if call ∈ s.calls then none else some { s with calls := s.calls.upsert call fun _ => c }

/-- A call goes on. -/
def goOn (call : ℕ) (c : ArtifactCall) : ArtifactDb :=
  { s with calls := s.calls.upsert call fun _ => c }

/-- A call ends, and others see what it wrote. -/
def commit (call : ℕ) (writes : List (ArtifactWrite × ℕ)) : ArtifactDb :=
  { artifacts := applyWrites s.artifacts writes, calls := s.calls.alter call fun _ => none }

/-- What an action does, where it is possible. A statement waits until the row it changes
is not locked. A transaction commits with its last statement: until then it only holds
others up. -/
def step : Action → Option ArtifactDb
  | .createArtifacts call inputs => s.begin call (.creating [] none inputs)
  | .attachArtifactToNode call input =>
    if (ArtifactWrite.attach input).Allowed (s.artifacts.lookup input.artifactId) then
      s.begin call (.attaching input)
    else none
  | .deleteArtifact call artifactId actorAccountId =>
    if (ArtifactWrite.delete artifactId actorAccountId).Allowed (s.artifacts.lookup artifactId) then
      s.begin call (.deleting artifactId actorAccountId)
    else none
  | .check call =>
    match s.calls.lookup call with
    | some (.creating written none (input :: todo)) =>
      if (ArtifactWrite.upsert input).Allowed
            ((applyWrites s.artifacts (upserts written)).lookup input.artifactId)
          ∧ ∀ account ∈ suppliedAccount input.createdByAccountId,
            ¬ "auth:".toList <+: account.toList then
        some (s.goOn call (.creating written (some input) todo))
      else none
    | _ => none
  | .write call now =>
    match s.calls.lookup call with
    | some (.creating written (some input) todo) =>
      if s.IsLocked call input.artifactId then none
      else if todo.isEmpty then some (s.commit call (upserts (written ++ [(input, now)])))
      else some (s.goOn call (.creating (written ++ [(input, now)]) none todo))
    | some (.attaching input) =>
      if input.artifactId ∈ s.artifacts ∧ s.IsLocked call input.artifactId then none
      else some (s.commit call [(.attach input, now)])
    | some (.deleting artifactId actorAccountId) =>
      if artifactId ∈ s.artifacts ∧ s.IsLocked call artifactId then none
      else some (s.commit call [(.delete artifactId actorAccountId, now)])
    | _ => none
  | .throw call => some { s with calls := s.calls.alter call fun _ => none }

/-- What an action makes visible to others. -/
def commits : Action → List (ArtifactWrite × ℕ)
  | .write call now =>
    match s.calls.lookup call with
    | some (.creating written (some input) []) => upserts (written ++ [(input, now)])
    | some (.attaching input) => [(.attach input, now)]
    | some (.deleting artifactId actorAccountId) => [(.delete artifactId actorAccountId, now)]
    | _ => []
  | _ => []

/-- **A step respects owners**: an artifact that is someone's stays as it is, or what is
written to it is written by its owner. -/
def RespectsOwners (a : Action) : Prop :=
  ∀ s', s.step a = some s' → ∀ artifactId r owner, s.artifacts.lookup artifactId = some r →
    r.createdByAccountId = some owner → s'.artifacts.lookup artifactId = some r
      ∨ (∃ w ∈ s.commits a, w.1.artifactId = artifactId)
        ∧ ∀ w ∈ s.commits a, w.1.artifactId = artifactId → w.1.IsBy owner

/-- What was looked up, and by which call. -/
def checked : Set (ℕ × ArtifactWrite) :=
  { k | ∃ c, s.calls.lookup k.1 = some c ∧ k.2 ∈ c.checked }

/-- An artifact that was looked up is not another's. -/
def IsOpen (k : ℕ × ArtifactWrite) (s : ArtifactDb) : Prop :=
  ∀ r ∈ s.artifacts.lookup k.2.artifactId, ∀ owner ∈ r.createdByAccountId, k.2.IsBy owner

/-! ## What statements leave -/

variable {s} {s' : ArtifactDb} {a : Action} {call : ℕ} {c : ArtifactCall}
  {artifactId owner : String} {r : Artifact}

/-- Statements leave the artifacts that they are not about. -/
theorem lookup_applyWrites_of_forall {writes : List (ArtifactWrite × ℕ)}
    (h : ∀ w ∈ writes, w.1.artifactId ≠ artifactId) (artifacts : Table String Artifact) :
    (applyWrites artifacts writes).lookup artifactId = artifacts.lookup artifactId := by
  unfold applyWrites
  induction writes generalizing artifacts with
  | nil => rfl
  | cons w writes ih =>
    obtain ⟨hw, hwrites⟩ := List.forall_mem_cons.mp h
    rw [List.foldl_cons, ih hwrites, Table.lookup_alter, if_neg hw.symm]

/-- Upserts of the owner leave the artifact to its owner. -/
theorem owner_upserts {written : List (CreateArtifactInput × ℕ)}
    (h : ∀ w ∈ written, w.1.artifactId = artifactId →
      suppliedAccount w.1.createdByAccountId = some owner)
    {artifacts : Table String Artifact} (hr : artifacts.lookup artifactId = some r)
    (howner : r.createdByAccountId = some owner) :
    ∃ r', (applyWrites artifacts (upserts written)).lookup artifactId = some r'
      ∧ r'.createdByAccountId = some owner := by
  unfold applyWrites upserts
  induction written generalizing artifacts r with
  | nil => exact ⟨r, hr, howner⟩
  | cons w written ih =>
    obtain ⟨hw, hwritten⟩ := List.forall_mem_cons.mp h
    rw [List.map_cons, List.foldl_cons]
    by_cases hid : artifactId = w.1.artifactId
    · refine ih hwritten (r := w.1.row w.2 (artifacts.lookup artifactId)) ?_ ?_
      · rw [Table.lookup_alter]
        subst hid
        exact if_pos rfl
      · show (suppliedAccount w.1.createdByAccountId <|> _) = some owner
        rw [hw hid.symm]
        rfl
    · refine ih hwritten (r := r) ?_ howner
      rw [Table.lookup_alter]
      exact (if_neg hid).trans hr

/-- A call that begins or goes on. -/
theorem mem_checked_goOn {k : ℕ × ArtifactWrite} (h : k ∈ (s.goOn call c).checked) :
    k ∈ s.checked ∨ k.1 = call ∧ k.2 ∈ c.checked := by
  obtain ⟨c', hc', hk⟩ := h
  unfold goOn at hc'
  rw [Table.lookup_upsert] at hc'
  split at hc'
  · next hcall =>
    cases hc'
    exact .inr ⟨hcall, hk⟩
  · exact .inl ⟨c', hc', hk⟩

/-- A call that ends. -/
theorem checked_of_lookup_erase {k : ℕ × ArtifactWrite} {s' : ArtifactDb}
    (hcalls : s'.calls = s.calls.alter call fun _ => none) (h : k ∈ s'.checked) :
    k ∈ s.checked := by
  obtain ⟨c', hc', hk⟩ := h
  rw [hcalls, Table.lookup_alter] at hc'
  split at hc'
  · cases hc'
  · exact ⟨c', hc', hk⟩

theorem begin_eq_some (h : s.begin call c = some s') : s' = s.goOn call c := by
  obtain ⟨-, ⟨⟩⟩ := Option.ite_none_left_eq_some.mp h
  rfl

/-- A call that begins with one statement has looked up that it is allowed. -/
theorem isOpen_of_begin {k : ℕ × ArtifactWrite} {w : ArtifactWrite} (hc : c.checked = [w])
    (hallowed : w.Allowed (s.artifacts.lookup w.artifactId)) (h : s.begin call c = some s')
    (hk : k ∈ s'.checked) : k ∈ s.checked ∨ IsOpen k s' := by
  obtain rfl := begin_eq_some h
  obtain hold | ⟨-, hnew⟩ := mem_checked_goOn hk
  · exact .inl hold
  · refine .inr fun r hr owner howner => ?_
    rw [hc] at hnew
    rw [List.mem_singleton.mp hnew] at hr ⊢
    exact ArtifactWrite.isBy_of_allowed hallowed hr howner

/-- What the lookup of the next artifact finds. -/
theorem check_eq_some (h : s.step (.check call) = some s') :
    ∃ written input todo, s.calls.lookup call = some (.creating written none (input :: todo))
      ∧ (ArtifactWrite.upsert input).Allowed
          ((applyWrites s.artifacts (upserts written)).lookup input.artifactId)
      ∧ s' = s.goOn call (.creating written (some input) todo) := by
  simp only [step] at h
  split at h
  · next written input todo hcall =>
    obtain ⟨⟨hallowed, -⟩, ⟨⟩⟩ := Option.ite_none_right_eq_some.mp h
    exact ⟨written, input, todo, hcall, hallowed, rfl⟩
  · cases h

/-- A call writes what it has looked up: it goes on, or commits. -/
theorem write_eq_some {now : ℕ} (h : s.step (.write call now) = some s') :
    (∃ written input todo, s.calls.lookup call = some (.creating written (some input) todo)
        ∧ s.commits (.write call now) = []
        ∧ s' = s.goOn call (.creating (written ++ [(input, now)]) none todo))
      ∨ ∃ c, s.calls.lookup call = some c
        ∧ (∀ w ∈ s.commits (.write call now), w.1 ∈ c.checked)
        ∧ s' = s.commit call (s.commits (.write call now)) := by
  simp only [step] at h
  split at h
  · next written input todo hcall =>
    obtain ⟨-, h⟩ := Option.ite_none_left_eq_some.mp h
    cases todo with
    | nil =>
      have hcommits : s.commits (.write call now) = upserts (written ++ [(input, now)]) := by
        simp only [commits, hcall]
      refine .inr ⟨_, hcall, fun w hw => ?_, hcommits ▸ (Option.some.inj h).symm⟩
      rw [hcommits] at hw
      obtain ⟨entry, hentry, rfl⟩ := List.mem_map.mp hw
      refine List.mem_map_of_mem ?_
      have hmem := List.mem_map_of_mem (f := Prod.fst) hentry
      rwa [List.map_append] at hmem
    | cons next todo =>
      cases h
      exact .inl ⟨written, input, next :: todo, hcall, by simp only [commits, hcall], rfl⟩
  · next input hcall =>
    have hcommits : s.commits (.write call now) = [(.attach input, now)] := by
      simp only [commits, hcall]
    obtain ⟨-, h⟩ := Option.ite_none_left_eq_some.mp h
    refine .inr ⟨_, hcall, ?_, hcommits ▸ (Option.some.inj h).symm⟩
    rw [hcommits]
    simp [ArtifactCall.checked]
  · next artifactId actorAccountId hcall =>
    have hcommits : s.commits (.write call now) = [(.delete artifactId actorAccountId, now)] := by
      simp only [commits, hcall]
    obtain ⟨-, h⟩ := Option.ite_none_left_eq_some.mp h
    refine .inr ⟨_, hcall, ?_, hcommits ▸ (Option.some.inj h).symm⟩
    rw [hcommits]
    simp [ArtifactCall.checked]
  · cases h

/-- **What is looked up is not another's then.** -/
theorem isOpen_of_step (h : s.step a = some s') (hopen : ∀ k ∈ s.checked, IsOpen k s)
    {k : ℕ × ArtifactWrite} (hk : k ∈ s'.checked) : k ∈ s.checked ∨ IsOpen k s' := by
  cases a with
  | createArtifacts call inputs =>
    obtain rfl := begin_eq_some h
    obtain hold | ⟨-, hnew⟩ := mem_checked_goOn hk
    · exact .inl hold
    · exact absurd hnew List.not_mem_nil
  | attachArtifactToNode call input =>
    obtain ⟨hallowed, h⟩ := Option.ite_none_right_eq_some.mp h
    exact isOpen_of_begin (c := .attaching input) rfl hallowed h hk
  | deleteArtifact call artifactId actorAccountId =>
    obtain ⟨hallowed, h⟩ := Option.ite_none_right_eq_some.mp h
    exact isOpen_of_begin (c := .deleting artifactId actorAccountId) rfl hallowed h hk
  | check call =>
    obtain ⟨written, input, todo, hcall, hallowed, rfl⟩ := check_eq_some h
    obtain hold | ⟨hcall', hnew⟩ := mem_checked_goOn hk
    · exact .inl hold
    · obtain ⟨input', hinput', heq⟩ := List.mem_map.mp hnew
      obtain hwritten | hnext := List.mem_append.mp hinput'
      · refine .inl ⟨_, hcall' ▸ hcall, heq ▸ List.mem_map_of_mem ?_⟩
        exact List.mem_append_left _ hwritten
      · -- the transaction sees what it wrote itself
        obtain rfl := List.mem_singleton.mp hnext
        refine .inr fun r hr owner howner => ?_
        rw [← heq] at hr ⊢
        have hmine : ∀ w ∈ written, w.1.artifactId = input'.artifactId →
            suppliedAccount w.1.createdByAccountId = some owner := by
          intro w hw hid
          have hchecked : (call, ArtifactWrite.upsert w.1) ∈ s.checked := by
            refine ⟨_, hcall, List.mem_map_of_mem ?_⟩
            exact List.mem_append_left _ (List.mem_map_of_mem hw)
          have hr' : s.artifacts.lookup w.1.artifactId = some r := hid.symm ▸ hr
          exact hopen _ hchecked r hr' owner howner
        obtain ⟨r', hr', howner'⟩ := owner_upserts hmine hr howner
        exact ArtifactWrite.isBy_of_allowed hallowed hr' howner'
  | write call now =>
    obtain ⟨written, input, todo, hcall, -, rfl⟩ | ⟨c, hcall, -, rfl⟩ := write_eq_some h
    · obtain hold | ⟨hcall', hnew⟩ := mem_checked_goOn hk
      · exact .inl hold
      · refine .inl ⟨_, hcall' ▸ hcall, ?_⟩
        simpa [ArtifactCall.checked] using hnew
    · exact .inl (checked_of_lookup_erase rfl hk)
  | throw call =>
    cases h
    exact .inl (checked_of_lookup_erase rfl hk)

/-- **While nothing that was looked up is another's, a step respects owners.** -/
theorem respectsOwners_of_isOpen (hopen : ∀ k ∈ s.checked, IsOpen k s) (a : Action) :
    s.RespectsOwners a := by
  intro s' h artifactId r owner hr howner
  have hbegin : ∀ {call c}, s.begin call c = some s' →
      s'.artifacts.lookup artifactId = some r := by
    intro call c hbegin
    obtain rfl := begin_eq_some hbegin
    exact hr
  cases a with
  | createArtifacts call inputs => exact .inl (hbegin h)
  | attachArtifactToNode call input =>
    exact .inl (hbegin (Option.ite_none_right_eq_some.mp h).2)
  | deleteArtifact call artifactId' actorAccountId =>
    exact .inl (hbegin (Option.ite_none_right_eq_some.mp h).2)
  | check call =>
    obtain ⟨_, _, _, -, -, rfl⟩ := check_eq_some h
    exact .inl hr
  | throw call =>
    cases h
    exact .inl hr
  | write call now =>
    obtain ⟨_, _, _, -, -, rfl⟩ | ⟨c, hcall, hchecked, rfl⟩ := write_eq_some h
    · exact .inl hr
    · by_cases hwritten : ∃ w ∈ s.commits (.write call now), w.1.artifactId = artifactId
      · refine .inr ⟨hwritten, fun w hw hid => ?_⟩
        exact hopen (call, w.1) ⟨c, hcall, hchecked w hw⟩ r (hid ▸ hr) owner howner
      · have hother : ∀ w ∈ s.commits (.write call now), w.1.artifactId ≠ artifactId :=
          fun w hw hid => hwritten ⟨w, hw, hid⟩
        exact .inl ((lookup_applyWrites_of_forall hother s.artifacts).trans hr)

/-- No call makes an artifact another's that was looked up for a change that is still to
come. -/
abbrev Undisturbed : ArtifactDb → Action → Prop :=
  CheckThenAct.Undisturbed step checked IsOpen

end ArtifactDb

open ArtifactDb

/-- **Artifacts are not taken over** where nobody makes one theirs in between: in a run in
which no call makes an artifact another's that was looked up for a change that is still to
come, an artifact that is someone's stays as it is, unless its owner writes to it. -/
theorem owners_respected {actions : List Action}
    (h : Run.EachStep step Undisturbed {} actions) :
    Run.EachStep step RespectsOwners {} actions := by
  refine CheckThenAct.eachStep_of_undisturbed (I := fun _ => True) ?_ ?_ ?_ trivial ?_ h
  · exact fun _ _ _ _ _ => trivial
  · exact fun _ _ _ _ hs' hopen k hk => isOpen_of_step hs' hopen hk
  · exact fun _ a _ _ _ hopen => respectsOwners_of_isOpen hopen a
  · rintro k ⟨c, hc, -⟩
    cases hc

/-- An artifact that an account creates. -/
def noteBy (accountId nodeId : String) : CreateArtifactInput where
  artifactId := "artifact:1"
  nodeId := nodeId
  artifactKind := "note"
  artifactVersion := "1"
  sourceHash := "1"
  createdByAccountId := some accountId

/-- An account creates an artifact, and attaches it to another node. -/
def createdAndAttached : List Action :=
  [.createArtifacts 1 [noteBy "0xa" "0x01"], .check 1, .write 1 0,
    .attachArtifactToNode 2
      { artifactId := "artifact:1", nodeId := "0x02", actorAccountId := some "0xa" },
    .write 2 1]

/-- One call follows the other. -/
theorem owners_respected_createdAndAttached : Run.EachStep step Undisturbed {} createdAndAttached
    ∧ Run.EachStep step RespectsOwners {} createdAndAttached := by
  have halone : Run.EachStep step (fun s a =>
      (∀ call ∈ s.calls.keys, ∀ c ∈ s.calls.lookup call, c.checked.length = 0)
        ∨ ∀ s' ∈ s.step a, s'.calls.keys = ∅) {} createdAndAttached := by
    decide +kernel
  have hundisturbed : Run.EachStep step Undisturbed {} createdAndAttached := by
    refine halone.imp fun s a s' hs' hnone s'' hs'' k hk hk' _ => ?_
    obtain hnone | hnone := hnone
    · obtain ⟨c, hc, hk⟩ := hk
      have hkey := Finmap.mem_keys.mpr (Finmap.mem_of_lookup_eq_some hc)
      rw [List.length_eq_zero_iff.mp (hnone k.1 hkey c hc)] at hk
      exact absurd hk List.not_mem_nil
    · obtain ⟨c, hc, -⟩ := hk'
      have hkey := Finmap.mem_keys.mpr (Finmap.mem_of_lookup_eq_some hc)
      rw [hnone s'' hs''] at hkey
      exact absurd hkey (Finset.notMem_empty _)
  exact ⟨hundisturbed, owners_respected hundisturbed⟩

/-- Two accounts come to the same id, and both find it free; the second one creates the
artifact. -/
def raceToCreate : List Action :=
  [.createArtifacts 1 [noteBy "0xb" "0x01"], .check 1,
    .createArtifacts 2 [noteBy "0xa" "0x01"], .check 2, .write 2 0]

/-- **An artifact may be taken over**: the first account then makes it its own. -/
theorem raceToCreate_not_respected :
    ¬ ∀ actions : List Action, Run.EachStep step RespectsOwners {} actions := by
  intro h
  have hrun : (Run.follow step {} raceToCreate).map (fun s =>
      ((s.artifacts.lookup "artifact:1").map (·.createdByAccountId),
        (s.step (.write 1 1)).map fun s' =>
          (s'.artifacts.lookup "artifact:1").map (·.createdByAccountId),
        decide (∀ w ∈ s.commits (.write 1 1), ¬ w.1.IsBy "0xa")))
        = some (some (some "0xa"), some (some (some "0xb")), true) := by
    decide +kernel
  obtain ⟨s, hs, heq⟩ := Option.map_eq_some_iff.mp hrun
  simp only [Prod.mk.injEq] at heq
  obtain ⟨hbefore, hafter, hnotBy⟩ := heq
  obtain ⟨r, hr, howner⟩ := Option.map_eq_some_iff.mp hbefore
  obtain ⟨s', hs', hafter⟩ := Option.map_eq_some_iff.mp hafter
  have hrespects : s.RespectsOwners (.write 1 1) :=
    (h (raceToCreate ++ [.write 1 1])).safe_of_follow hs hs'
  obtain hkept | ⟨⟨w, hw, hid⟩, hby⟩ := hrespects s' hs' "artifact:1" r "0xa" hr howner
  · rw [hkept, Option.map_some, howner] at hafter
    exact absurd hafter (by decide)
  · exact of_decide_eq_true hnotBy w hw (hby w hw hid)
